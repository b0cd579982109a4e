import Federation.Call.Caller
import Federation.Proofs.Merge.Support
import Federation.Proofs.Provider.Records

/-!
# What is read from a directory

A read that is answered finds an entry or does not.  The record of an entry says nothing of a property
that was not asked for, has the value of the entry if the data model has the property, and says that
it is unsupported otherwise.  The values are such as the merge takes, so nobody is warned of them.

## Key results

- `tells_record`, `answers_read`: what a directory answers to a read
- `Pool.endsNext`, `Domain.endsNext`: the first call ends when its wait is over
- `Lets.call`: a read that is left alone is answered when the latency is over
- `warnings_merge_of_returns`: records that directories have returned are merged without warnings
- `reading_spec`: all of it together
-/

namespace Federation

/-! ## Single calls -/

section

variable {κ ω α : Type} [Host κ ω α]

/-- A call that is made now ends like this, at once or at another instant before which nothing else
    happens. -/
def Host.EndsNext (now i : Nat) (r : ω) (k : κ) (e : Ended α) : Prop :=
  ∃ k', Timed.settle now (Host.submit i r k) = k' ∧
    (Host.ended? k' i = some e ∨
      Host.ended? k' i = none ∧ Timed.next? k' = some e.instant ∧ 0 < Timed.load k' ∧
        Host.ended? (Timed.settle e.instant k') i = some e)

/-- A call returns what it has ended with, if there is patience enough. -/
theorem Caller.call_of_endsNext {c : Caller κ} {r : ω} {e : Ended α} {patience : Nat}
    (h : Host.EndsNext c.now c.next r c.host e) (hle : e.instant ≤ c.now + patience) :
    (c.call patience r).2 = some e := by
  have hcall : (c.call patience r).2 =
      Host.ended? (Timed.runUntil (fun k => [c.next].all fun id => (Host.ended? k id).isSome)
        (c.now + patience) c.now (Timed.settle c.now (Host.submit c.next r c.host))).1 c.next := rfl
  obtain ⟨k', hk', h⟩ := h
  rw [hcall, hk']
  rcases h with hended | ⟨hopen, hnext, hload, hended⟩
  · rw [Timed.runUntil_of_stop (by simp [hended]), hended]
  · obtain ⟨most, hmost⟩ := Nat.exists_eq_succ_of_ne_zero (Nat.ne_of_gt hload)
    rw [Timed.runUntil, hmost, Timed.runFor_step (by simp [hopen]) hnext hle,
      Timed.runFor_of_stop (by simp [hended]), hended]

end

/-- The first call into a pool ends when its wait is over. -/
theorem Pool.endsNext {σ α : Type} (work : Work Unit σ α) {s : σ} {latency : Nat}
    (pause : (work () s).2.2.pause = some latency) (now i : Nat) :
    Host.EndsNext now i work ({ shared := s } : Pool σ α)
      ⟨i, now + latency, ((work () s).2.2.finish () (work () s).2.1).2.2⟩ := by
  have hsettle : Timed.settle now (Host.submit i work ({ shared := s } : Pool σ α)) =
      ({ shared := (work () s).2.1 } : Pool σ α).goOn now i (work () s).2.2
        (some (now + latency)) := by
    show Pool.goOn now i _ ((work () s).2.2.pause.map (now + ·)) _ = _
    rw [pause, Option.map_some]
    rfl
  refine ⟨_, hsettle, ?_⟩
  -- A wait of no length is over at the instant the call came in.
  by_cases hzero : latency = 0
  · left
    subst hzero
    simp [Pool.goOn, Timed.isDue, Pool.ended?_eq, Federation.ended?]
  · right
    have hwaits : ({ shared := (work () s).2.1 } : Pool σ α).goOn now i (work () s).2.2
          (some (now + latency)) =
        { shared := (work () s).2.1
          calls := [⟨i, .waiting (work () s).2.2 (some (now + latency))⟩] } := by
      have hdue : ¬Timed.isDue (some (now + latency)) now = true := by
        simp [Timed.isDue]
        omega
      rw [Pool.goOn, if_neg hdue]
      rfl
    -- The pool has this one call, so nothing else comes before its end.
    rw [hwaits]
    refine ⟨rfl, rfl, Nat.one_pos, ?_⟩
    show Host.ended? (Pool.goOn (now + latency) i _ _ _) i = _
    simp [Pool.goOn, Timed.isDue, Pool.ended?_eq, Federation.ended?]

namespace Domain

variable {η σ α : Type}

/-- Work that returns leaves the handle to nobody, lets the queue wait and is told to its caller. -/
theorem finish_of_returned {d : Domain η σ α} {l : Lease η σ α} {r : Except Fault α}
    (h : (l.visit.finish l.handle d.shared).2.2 = .returned r) (now : Nat) :
    (d.finish now l).lease = none ∧ (d.finish now l).queue = d.queue ∧
      (d.finish now l).ended = d.ended ++ [⟨l.id, now, .returned r⟩] := by
  rcases hvisit : l.visit.finish l.handle d.shared with ⟨left, around, ending⟩
  rw [hvisit] at h
  obtain rfl : ending = .returned r := h
  simp [finish, hvisit, report]

/-- The first call on a handle ends when its wait is over, if it may have the handle for so long. -/
theorem endsNext (name : String) {callDeadline : Option Nat} {h : η} (work : Work η σ α) {s : σ}
    {latency : Nat} {r : Except Fault α} (pause : (work h s).2.2.pause = some latency)
    (returns : ((work h s).2.2.finish (work h s).1 (work h s).2.1).2.2 = .returned r)
    (long : ∀ ms, callDeadline = some ms → latency ≤ ms) (now i : Nat) :
    Host.EndsNext now i (.async, work)
      ({ name := name, callDeadline := callDeadline, factory := fun _ => .ok h, shared := s } :
        Domain η σ α)
      ⟨i, now + latency, .returned r⟩ := by
  -- The domain before the call, the lease the call gets, and the domain while the call has it.
  let d : Domain η σ α :=
    { name := name, callDeadline := callDeadline, factory := fun _ => .ok h, shared := s }
  let l : Lease η σ α :=
    { id := i, mode := .async, handle := (work h s).1, visit := (work h s).2.2
      due := some (now + latency), limit := callDeadline.map (now + ·) }
  let lent : Domain η σ α :=
    { d with shared := (work h s).2.1, attempts := 1, lease := some l, stats := { opened := 1 } }
  have hlend : (d.submit (.call i .async work)).turn now = some lent := by
    show some { lent with lease := some { l with due := (work h s).2.2.pause.map (now + ·) } } = _
    rw [pause]
    rfl
  have hfinish : lent.turn (now + latency) = some (lent.finish (now + latency) l) :=
    if_pos (by simp [l, Timed.isDue])
  -- Once the call has ended, nobody has the handle or waits for it, and the domain rests.
  obtain ⟨hlease, hqueue, hended⟩ :=
    finish_of_returned (d := lent) (l := l) returns (now + latency)
  have hover : Host.ended? (lent.finish (now + latency) l) i =
      some ⟨i, now + latency, .returned r⟩ := by
    rw [ended?_eq, hended]
    simp [Federation.ended?, lent, d, l]
  have hrests : (lent.finish (now + latency) l).turn now = none :=
    (turn_eq_none_iff now _).mpr (.inl ⟨hlease, hqueue⟩)
  have hsettle : Timed.settle now (Host.submit i (.async, work) d) =
      Timed.exhaust (turn now) 2 lent := by
    show settle now (d.submit (.call i .async work)) = _
    rw [settle, Timed.exhaust, hlend]
    rfl
  refine ⟨_, hsettle, ?_⟩
  by_cases hzero : latency = 0
  · left
    subst hzero
    rw [Nat.add_zero] at hfinish
    rw [Timed.exhaust, hfinish]
    show Host.ended? (Timed.exhaust (turn now) 1 (lent.finish (now + 0) l)) i = _
    rw [Timed.exhaust_of_none hrests, hover]
  · right
    -- Neither is the wait over nor the deadline, which comes later.
    have hlasts : lent.turn now = none := by
      refine (turn_eq_none_iff now lent).mpr (.inr ⟨l, rfl, ?_, ?_⟩)
      · simp [l, Timed.isDue]
        omega
      · cases hms : callDeadline with
        | none => simp [l, hms, Timed.isDue]
        | some ms =>
          have hle := long ms hms
          simp [l, hms, Timed.isDue]
          omega
    have hnext : Timed.next? lent = some (now + latency) := by
      show Timed.earlier (some (now + latency)) (callDeadline.map (now + ·)) = _
      cases hms : callDeadline with
      | none => rfl
      | some ms =>
        have hle := long ms hms
        exact congrArg some (Nat.min_eq_left (Nat.add_le_add_left hle now))
    rw [Timed.exhaust_of_none hlasts]
    refine ⟨rfl, hnext, Nat.one_pos, ?_⟩
    show Host.ended? (Timed.exhaust (turn (now + latency)) 1 lent) i = _
    rw [Timed.exhaust, hfinish]
    exact hover

end Domain

namespace Directory

variable {d : Directory} {o : Operation} {e : Entry} {r : Record} {p : Property} {localId : String}
  {s : Server}

/-! ## Records -/

/-- What a record tells of an entry, if an operation has asked for it. -/
structure Tells (d : Directory) (o : Operation) (e : Entry) (r : Record) : Prop where
  account : r.account = ⟨d.id, e.localId⟩
  id : r.get .id = .set (.text e.localId)
  unset : ∀ p, p ≠ .id → o.requests p = false → r.get p = .unset
  unsupported : ∀ p, p ≠ .id → o.requests p = true → p ∉ d.supported → r.get p = .unsupported
  set : ∀ p, p ≠ .id → o.requests p = true → p ∈ d.supported →
    r.get p = .set (e.value p) ∧ p.check (e.value p) = .ok ()

/-- A server's record tells what the server has about the user, as far as the directory supports it.
    -/
theorem tells_record (d : Directory) (o : Operation) (e : Entry) :
    Tells d o e (e.record d.id d.supported o) where
  account := Record.account_ofReports _ _
  id := Record.get_id_ofReports _ _
  unset p hp hnot := by rw [Entry.get_record hp, hnot, if_neg Bool.false_ne_true]
  unsupported p hp hasked hnot := by
    rw [Entry.get_record hp, hasked, if_pos rfl, Entry.report, if_neg (by simpa using hnot)]
  set p hp hasked hmem := by
    rw [Entry.get_record hp, hasked, if_pos rfl, Entry.report, if_pos (by simpa using hmem)]
    exact ⟨rfl, e.check_value p⟩

/-- An entry is empty at those of its names that are missing, and nowhere else. -/
theorem value_eq_null_iff (e : Entry) (p : Property) :
    e.value p = .null ↔ p = .firstName ∧ e.firstName = none ∨ p = .lastName ∧ e.lastName = none ∨
      p = .nickname ∧ e.nickname = none := by
  have hname : ∀ s : Option String, Value.ofText? s = .null ↔ s = none := by
    intro s
    cases s <;> simp [Value.ofText?]
  cases p <;> simp [Entry.value, hname]

/-- What is answered to a read for a user, if these are the entries. -/
structure Answers (d : Directory) (o : Operation) (localId : String) (es : Table String Entry)
    (x : Output) : Prop where
  notFound_iff : x = .notFound ↔ es.get? localId = none
  record : ∀ e, es.get? localId = some e → ∃ r, x = .record r ∧ Tells d o e r

/-- A reading is answered from the entries as they are. -/
theorem answers_read (d : Directory) (o : Operation) (localId : String) (s : Server) :
    Answers d o localId s.entries (s.read d.id d.supported o localId) := by
  rw [Server.read, Server.entry?]
  cases h : s.entries.get? localId with
  | none => exact ⟨by simp [h], fun e he => nomatch h.symm.trans he⟩
  | some e =>
    refine ⟨by simp [h], fun e' he' => ?_⟩
    obtain rfl := Option.some.inj (h.symm.trans he')
    exact ⟨_, rfl, tells_record d o e⟩

/-- How the call that reads ends, if it is answered by a server that does not fail. -/
theorem exists_ending (d : Directory) (ps : Option (List Property)) (localId : String)
    (s₀ : Server) (hfailure : s.failure = none) :
    ∃ x, ((d.work ⟨.read ps, localId⟩ () s₀).2.2.finish () s).2.2 = .returned (.ok x) ∧
      Answers d (.read ps) localId s.entries x := by
  refine ⟨_, ?_, answers_read d (.read ps) localId s⟩
  show Ending.returned (s.answer d.id d.supported (.read ps) localId).2 = _
  simp only [Server.answer, hfailure]

/-! ## Calls -/

/-- A directory that nobody has called yet, on a server.  Should it have a single connection only, a
    call may keep it for as long as the server takes. -/
inductive Lets (d : Directory) (s : Server) : Prop
  | concurrent (access : d.access = concurrently s)
  | serialized (callDeadline : Option Nat) (access : d.access = serially d.id callDeadline s)
      (long : ∀ ms, callDeadline = some ms → s.latency ≤ ms)

/-- A read that is the first call to a directory is answered when the latency is over. -/
theorem Lets.call {c : Caller Directory} (h : d.Lets s) (hhost : c.host = d)
    (hfailure : s.failure = none) (ps : Option (List Property)) (localId : String) {patience : Nat}
    (hpatience : s.latency ≤ patience) :
    ∃ x, (c.call patience ⟨.read ps, localId⟩).2 =
        some ⟨c.next, c.now + s.latency, .returned (.ok x)⟩ ∧
      Answers d (.read ps) localId s.entries x := by
  obtain ⟨x, hx, hanswers⟩ := exists_ending d ps localId s (s := s.enter) hfailure
  refine ⟨x, Caller.call_of_endsNext ?_ (Nat.add_le_add_left hpatience c.now), hanswers⟩
  rw [hhost]
  -- The directory leaves the call to whoever has the connections.
  have hcall : ∀ {access : Access}, d.access = access →
      Host.EndsNext c.now c.next (d.work ⟨.read ps, localId⟩) access
        ⟨c.next, c.now + s.latency, .returned (.ok x)⟩ →
      Host.EndsNext c.now c.next ⟨.read ps, localId⟩ d
        ⟨c.next, c.now + s.latency, .returned (.ok x)⟩ := by
    rintro _ rfl ⟨k', hk', h⟩
    exact ⟨{ d with access := k' }, congrArg (fun access => { d with access }) hk', h⟩
  cases h with
  | concurrent access =>
    obtain ⟨k', hk', hends⟩ :=
      Pool.endsNext (d.work ⟨.read ps, localId⟩) (s := s) rfl c.now c.next
    refine hcall access ⟨.concurrent k', congrArg Access.concurrent hk', ?_⟩
    rw [← hx]
    exact hends
  | serialized callDeadline access long =>
    obtain ⟨k', hk', hends⟩ :=
      Domain.endsNext (d.id.name ++ "-connection") (d.work ⟨.read ps, localId⟩) (s := s) rfl hx long
        c.now c.next
    exact hcall access ⟨.serialized k', congrArg Access.serialized hk', hends⟩

/-! ## Merging -/

/-- A record that a read of a directory has returned, whatever the server was like when the call came
    and when it was answered. -/
def Returns (d : Directory) (r : Record) : Prop :=
  ∃ ps localId s₀ s, ((d.work ⟨.read ps, localId⟩ () s₀).2.2.finish () s).2.2 =
    .returned (.ok (.record r))

/-- Every record that a directory returns tells of some entry it had. -/
theorem Returns.tells (h : d.Returns r) : ∃ o e, Tells d o e r := by
  obtain ⟨ps, localId, s₀, s, hreturned⟩ := h
  have hread : (s.answer d.id d.supported (.read ps) localId).2 = .ok (.record r) :=
    Ending.returned.inj hreturned
  -- A server out of order has no record to return.
  cases hfailure : s.failure with
  | some message =>
    simp only [Server.answer, hfailure] at hread
    exact nomatch hread
  | none =>
    have hanswers := answers_read d (.read ps) localId s
    simp only [Server.answer, hfailure, Except.ok.injEq] at hread
    rw [hread] at hanswers
    cases hentry : s.entries.get? localId with
    | none => exact nomatch hanswers.notFound_iff.mpr hentry
    | some e =>
      obtain ⟨r', hr', htells⟩ := hanswers.record e hentry
      obtain rfl := Output.record.inj hr'
      exact ⟨.read ps, e, htells⟩

/-- Whatever a record tells of an entry passes the checks. -/
theorem Tells.warning?_eq_none (h : Tells d o e r) (p : Property) : Merge.warning? p r = none := by
  have hchecked : ∀ v, r.get p = .set v → p.check v = .ok () := by
    -- Only what was asked for and is supported is set, and of that the record keeps valid values.
    intro v hv
    by_cases hp : p = .id
    · subst hp
      obtain rfl := Remote.set.inj (h.id.symm.trans hv)
      rfl
    · cases hasked : o.requests p with
      | false => exact nomatch (h.unset p hp hasked).symm.trans hv
      | true =>
        by_cases hmem : p ∈ d.supported
        · obtain ⟨hset, hok⟩ := h.set p hp hasked hmem
          obtain rfl := Remote.set.inj (hset.symm.trans hv)
          exact hok
        · exact nomatch (h.unsupported p hp hasked hmem).symm.trans hv
  unfold Merge.warning?
  cases hget : r.get p with
  | unset => rfl
  | unsupported => rfl
  | set v => simp only [hchecked v hget]

/-- Records that directories have returned are merged without warnings. -/
theorem warnings_merge_of_returns (engine : Merge.Engine) {rs : List Record}
    (h : ∀ r ∈ rs, ∃ d : Directory, d.Returns r) : (engine.merge rs).warnings = [] := by
  refine List.eq_nil_iff_forall_not_mem.mpr fun w hw => ?_
  obtain ⟨r, hr, hwarning⟩ := (Merge.mem_warnings_merge engine rs w).mp hw
  obtain ⟨d, hreturns⟩ := h r hr
  obtain ⟨o, e, htells⟩ := hreturns.tells
  exact nomatch (htells.warning?_eq_none w.property).symm.trans hwarning

/-- A read is answered with a record of the entry that is stored for the user, or without one if there
    is none, as long as the server does not fail.  The record says of each property what the entry, the
    data model and the read say of it, and nothing that would be warned of in a merge. -/
theorem reading_spec (d : Directory) (ps : Option (List Property)) (localId : String) :
    (∀ s₀ s : Server, s.failure = none →
      ∃ x, ((d.work ⟨.read ps, localId⟩ () s₀).2.2.finish () s).2.2 = .returned (.ok x) ∧
        Answers d (.read ps) localId s.entries x) ∧
    (∀ (e : Entry) (p : Property), e.value p = .null ↔
      p = .firstName ∧ e.firstName = none ∨ p = .lastName ∧ e.lastName = none ∨
        p = .nickname ∧ e.nickname = none) ∧
    (∀ (c : Caller Directory) (s : Server) (patience : Nat), c.host = d → d.Lets s →
      s.failure = none → s.latency ≤ patience →
      ∃ x, (c.call patience ⟨.read ps, localId⟩).2 =
          some ⟨c.next, c.now + s.latency, .returned (.ok x)⟩ ∧
        Answers d (.read ps) localId s.entries x) ∧
    ∀ (engine : Merge.Engine) (rs : List Record), (∀ r ∈ rs, ∃ d : Directory, d.Returns r) →
      (engine.merge rs).warnings = [] :=
  ⟨fun s₀ _ hfailure => exists_ending d ps localId s₀ hfailure, value_eq_null_iff,
    fun _ _ _ hhost hlets hfailure hpatience => hlets.call hhost hfailure ps localId hpatience,
    fun engine _ h => warnings_merge_of_returns engine h⟩

/-- Of a user whose nickname is missing, the nickname and the emails are asked for, and the data model
    has no emails. -/
theorem reading_spec_partial :
    let e : Entry := { localId := "jdoe", persistentId := "1", firstName := some "John" }
    let s : Server := Server.insert {} e
    let d : Directory :=
      { id := ⟨"ldap"⟩, supported := [.firstName, .nickname], access := concurrently s }
    ∃ r, (({ host := d } : Caller Directory).call 0
        ⟨.read (some [.nickname, .emails]), "jdoe"⟩).2 = some ⟨0, 0, .returned (.ok (.record r))⟩ ∧
      r.get .firstName = .unset ∧ r.get .emails = .unsupported ∧ r.get .nickname = .set .null := by
  intro e s d
  obtain ⟨-, -, hcall, -⟩ := reading_spec d (some [.nickname, .emails]) "jdoe"
  obtain ⟨x, hx, hanswers⟩ := hcall { host := d } s 0 rfl (.concurrent rfl) rfl (Nat.le_refl 0)
  obtain ⟨r, rfl, htells⟩ := hanswers.record e (by decide)
  exact ⟨r, hx, htells.unset .firstName (by decide) (by decide),
    htells.unsupported .emails (by decide) (by decide) (by decide),
    (htells.set .nickname (by decide) (by decide) (by decide)).1⟩

end Directory

end Federation
