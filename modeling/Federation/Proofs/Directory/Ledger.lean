import Federation.Proofs.Provider.Regime

/-!
# What calls do to the entries of a directory

Reading leaves entries alone.  A change of a password writes one of them when it is answered, and
nothing before; a call that fails, breaks off or is given up leaves them as they were.  So what a
directory holds tells whether the call has been answered.

## Key results

- `may_read`, `may_changePassword`: what the calls into a directory may do
- `extends_ledger`: the books are opened before a password is changed
- `booked_of_under`: what is in the books of a directory
-/

namespace Federation

namespace Directory

/-- A change of a password that has been asked for. -/
structure Charge where
  /-- The number of the call. -/
  call : Nat
  localId : String
  password : String

variable {charge : Option Charge} {es es' : List (Ended Output)} {base : Table String Entry}
  {entries : Table String Entry}

/-- The entries as they are if a password is to be changed, given how the calls have ended: the
    change is made exactly when it is answered. -/
inductive Booked (charge : Option Charge) (es : List (Ended Output)) (base : Table String Entry) :
    Table String Entry → Prop
  | pending (unanswered : ∀ c, charge = some c → ∀ x, ¬Answered (ended? es c.call) x) :
      Booked charge es base base
  | posted (c : Charge) (e : Entry) (x : Output) (charged : charge = some c)
      (answered : Answered (ended? es c.call) x) (known : base.get? c.localId = some e) :
      Booked charge es base (base.insert c.localId { e with password := some c.password })

/-- What is booked depends on nothing but how the change of the password has ended. -/
theorem Booked.congr (h : Booked charge es base entries)
    (same : ∀ c, charge = some c → ended? es' c.call = ended? es c.call) :
    Booked charge es' base entries := by
  cases h with
  | pending unanswered =>
    refine .pending fun c hc x hx => unanswered c hc x ?_
    rw [← same c hc]
    exact hx
  | posted c e x charged answered known =>
    refine .posted c e x charged ?_ known
    rw [same c charged]
    exact answered

/-- Nothing is posted before the change of the password has ended. -/
theorem Booked.eq_base {c : Charge} (h : Booked charge es base entries) (hc : charge = some c)
    (hopen : ended? es c.call = none) : entries = base := by
  cases h with
  | pending => rfl
  | posted c' e x charged answered =>
    obtain rfl := Option.some.inj (hc.symm.trans charged)
    rw [hopen] at answered
    exact absurd answered (not_answered_none x)

/-! ## Visits -/

/-- A call goes on without changing entries. -/
structure Keeps (visit : Visit Unit Server Output) : Prop where
  leave : ∀ s, (visit.leave s).entries = s.entries
  finish : ∀ h s, (visit.finish h s).2.1.entries = s.entries

/-- A call goes on and stores a password if it is answered, and does not change entries
    otherwise. -/
structure Posts (localId password : String) (visit : Visit Unit Server Output) : Prop where
  leave : ∀ s, (visit.leave s).entries = s.entries
  finish : ∀ h s,
    (∃ e x, s.entries.get? localId = some e ∧ (visit.finish h s).2.2 = .returned (.ok x) ∧
        (visit.finish h s).2.1.entries =
          s.entries.insert localId { e with password := some password }) ∨
      (∀ x, (visit.finish h s).2.2 ≠ .returned (.ok x)) ∧
        (visit.finish h s).2.1.entries = s.entries

/-- How a call may go on, if a password is to be changed. -/
inductive Fits (charge : Option Charge) (id : Nat) (visit : Visit Unit Server Output) : Prop
  | keeps (other : ∀ c, charge = some c → c.call ≠ id) (h : Keeps visit)
  | posts (c : Charge) (charged : charge = some c) (call : c.call = id)
      (h : Posts c.localId c.password visit)

/-- A call that is given up leaves the entries alone. -/
theorem Fits.leave {id : Nat} {visit : Visit Unit Server Output} (h : Fits charge id visit)
    (s : Server) : (visit.leave s).entries = s.entries := by
  cases h with
  | keeps _ h => exact h.leave s
  | posts _ _ _ h => exact h.leave s

/-- A call that ends makes the change if it is the one to do so. -/
theorem Fits.finish {id : Nat} {visit : Visit Unit Server Output} (hfits : Fits charge id visit)
    (h : Unit) (s : Server) (now : Nat) (hs : Booked charge es base s.entries)
    (hopen : ended? es id = none) :
    Booked charge (es ++ [⟨id, now, (visit.finish h s).2.2⟩]) base
      (visit.finish h s).2.1.entries := by
  cases hfits with
  | keeps other hkeeps =>
    rw [hkeeps.finish]
    exact hs.congr fun c hc => ended?_concat_of_ne (other c hc)
  | posts c charged call hposts =>
    subst call
    -- The change was still pending, so the call has found the entries as they were before.
    have hbase := hs.eq_base charged hopen
    have hended := ended?_concat_self
      (e := (⟨c.call, now, (visit.finish h s).2.2⟩ : Ended Output)) hopen
    rcases hposts.finish h s with ⟨e, x, hknown, hx, hentries⟩ | ⟨hfails, hentries⟩
    · rw [hentries, hbase]
      exact .posted c e x charged ⟨_, hended, hx⟩ (hbase ▸ hknown)
    · rw [hentries, hbase]
      refine .pending fun c' hc' x hx => ?_
      obtain rfl := Option.some.inj (charged.symm.trans hc')
      obtain ⟨e, he, hx⟩ := hx
      obtain rfl := Option.some.inj (hended.symm.trans he)
      exact hfails x hx

/-! ## The regime -/

/-- The entries are those that `P` says, but for a change of a password that is to be made. -/
def ledger (P : Table String Entry → Prop) (charge : Option Charge) :
    Regime Unit Server Output where
  holds s es := ∃ base, P base ∧ Booked charge es base s.entries
  may id work := ∀ h s, (work h s).2.1.entries = s.entries ∧ Fits charge id (work h s).2.2
  going := Fits charge
  begins := by
    rintro id work s es h hmay ⟨base, hbase, hs⟩
    obtain ⟨hentries, hfits⟩ := hmay h s
    exact ⟨⟨base, hbase, hentries ▸ hs⟩, hfits⟩
  finishes := by
    rintro id visit s es h now hfits ⟨base, hbase, hs⟩ hopen
    exact ⟨base, hbase, hfits.finish h s now hs hopen⟩
  leaves := by
    rintro id visit s es hfits ⟨base, hbase, hs⟩
    exact ⟨base, hbase, hfits.leave s ▸ hs⟩
  fails := by
    rintro id s es now f ⟨base, hbase, hs⟩ hopen
    refine ⟨base, hbase, ?_⟩
    by_cases hid : ∃ c, charge = some c ∧ c.call = id
    -- If the change fails, it is not made.
    · obtain ⟨c, charged, rfl⟩ := hid
      rw [hs.eq_base charged hopen]
      refine .pending fun c' hc' x hx => ?_
      obtain rfl := Option.some.inj (charged.symm.trans hc')
      obtain ⟨e, he, hx⟩ := hx
      obtain rfl := Option.some.inj ((ended?_concat_self
        (e := (⟨c.call, now, .returned (.error f)⟩ : Ended Output)) hopen).symm.trans he)
      exact nomatch hx
    · exact hs.congr fun c hc => ended?_concat_of_ne fun hcall => hid ⟨c, hc, hcall⟩

variable {P : Table String Entry → Prop}

/-- A change of a password either replaces the password of an entry that is known and is answered,
    or fails and changes nothing. -/
theorem entries_answer_changePassword (provider : ProviderId) (supported : List Property)
    (localId password : String) (s : Server) :
    (∃ e, s.entries.get? localId = some e ∧
        s.answer provider supported (.changePassword password) localId =
          ({ s with entries := s.entries.insert localId { e with password := some password } },
            .ok .completed)) ∨
      ∃ f, s.answer provider supported (.changePassword password) localId = (s, .error f) := by
  unfold Server.answer
  split
  · exact .inr ⟨_, rfl⟩
  · next h => exact nomatch h
  · next password' _ h =>
    obtain rfl := Operation.changePassword.inj h
    unfold Server.changePassword Server.entry?
    cases hentry : s.entries.get? localId with
    | none => exact .inr ⟨_, rfl⟩
    | some e => exact .inl ⟨e, rfl, rfl⟩

/-- A call that reads does not change entries. -/
theorem may_read {id : Nat} (other : ∀ c, charge = some c → c.call ≠ id) (provider : ProviderId)
    (supported : List Property) (ps : Option (List Property)) (localId : String) :
    (ledger P charge).may id (Server.work provider supported (.read ps) localId) := by
  refine fun _ s => ⟨rfl, .keeps other ⟨fun _ => rfl, fun _ s => ?_⟩⟩
  show (s.answer provider supported (.read ps) localId).1.leave.entries = s.entries
  rw [Server.entries_leave, Server.entries_answer_read]

/-- A call that changes a password changes the entry of its user when it is answered. -/
theorem may_changePassword {c : Charge} (charged : charge = some c) (provider : ProviderId)
    (supported : List Property) :
    (ledger P charge).may c.call
      (Server.work provider supported (.changePassword c.password) c.localId) := by
  refine fun _ s => ⟨rfl, .posts c charged rfl ⟨fun _ => rfl, fun _ s => ?_⟩⟩
  simp only [Server.work]
  rcases entries_answer_changePassword provider supported c.localId c.password s with
    ⟨e, he, hanswer⟩ | ⟨f, hanswer⟩
  · rw [hanswer]
    exact .inl ⟨e, .completed, he, rfl, rfl⟩
  · rw [hanswer]
    exact .inr ⟨nofun, rfl⟩

/-- The books are opened before a password is changed. -/
theorem extends_ledger {n : Nat} {s : Server} (hP : P s.entries)
    (hcall : ∀ c, charge = some c → c.call = n) :
    (ledger (fun _ => True) none).Extends n s (ledger P charge) := by
  have fits : ∀ i visit, i ≠ n → Fits none i visit → Fits charge i visit := by
    intro i visit hi hfits
    cases hfits with
    | keeps _ h => exact .keeps (fun c hc hne => hi (hne ▸ hcall c hc)) h
    | posts c charged => exact nomatch charged
  refine ⟨fun i work hi hmay h s => ⟨(hmay h s).1, fits i _ hi (hmay h s).2⟩, fits, ?_⟩
  -- Nothing is posted yet, since the call that is to be made has not ended.
  intro es hopen _
  refine ⟨s.entries, hP, .pending fun c hc x hx => ?_⟩
  rw [hcall c hc, hopen] at hx
  exact not_answered_none x hx

/-- Whatever is done to the server when no password is to be changed, the books may say anything. -/
theorem holds_true (s : Server) (es : List (Ended Output)) :
    (ledger (fun _ => True) none).holds s es :=
  ⟨s.entries, trivial, .pending nofun⟩

end Directory

namespace Provider

open Directory (Charge Entry Booked ledger)

/-- The regimes under which the entries of directories are those that `P` says, but for a change of
    a password that is to be made. -/
def books (P : Table String Entry → Prop) (charge : Option Charge) : Regimes where
  directory _ := ledger P charge
  custom _ := .any ..

/-- What is in the books of a directory. -/
theorem booked_of_under {P : Table String Entry → Prop} {charge : Option Charge} {d : Directory}
    (h : (directory d).Under (books P charge)) :
    ∃ es base, P base ∧ Booked charge es base d.server.entries ∧
      ∀ i, Host.ended? (directory d) i = ended? es i := by
  obtain ⟨es, ⟨base, hP, hbooked⟩, hended⟩ := h.holds_directory
  exact ⟨es, base, hP, hbooked, hended⟩

/-- Reading is granted beside a change of a password. -/
theorem grants_read {P : Table String Entry → Prop} {charge : Option Charge} {i : Nat}
    (other : ∀ c, charge = some c → c.call ≠ i) (ps : Option (List Property)) (localId : String)
    (p : Provider) : p.Grants (books P charge) i ⟨.read ps, localId⟩ := by
  cases p with
  | custom c => trivial
  | directory d => exact Directory.may_read other d.id d.supported ps localId

/-- The change of the password that is to be made is granted. -/
theorem grants_changePassword {P : Table String Entry → Prop} (c : Charge) (p : Provider) :
    p.Grants (books P (some c)) c.call ⟨.changePassword c.password, c.localId⟩ := by
  cases p with
  | custom c => trivial
  | directory d => exact Directory.may_changePassword rfl d.id d.supported

end Provider

end Federation
