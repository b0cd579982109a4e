import Federation.Proofs.Domain.Alike
import Federation.Proofs.Provider.Profile

/-!
# Directories and passwords

Of two passwords, one is stored in one directory where the other is stored in another one, and the
two directories are otherwise alike.  They stay so whatever they are asked for, and they answer
alike: no answer says anything about a password.

## Key results

- `Operation.Alike`, `Entry.Alike`, `Server.Alike`, `Directory.Alike`: what is the same but for the
  two passwords
- `Server.Alike.answer`: servers answer alike
- `Provider.mirrors`: and so directories do alike, with whatever connections
-/

namespace Federation

variable {a b : String}

/-- Two operations are the same, or one stores the one password and the other the other one. -/
inductive Operation.Alike (a b : String) : Operation → Operation → Prop
  | same (o : Operation) : Alike a b o o
  | secret : Alike a b (.changePassword a) (.changePassword b)

/-- What is shown of an operation does not tell the passwords apart. -/
theorem Operation.Alike.shown {o o' : Operation} (h : Operation.Alike a b o o') :
    o'.name = o.name ∧ o'.inspect = o.inspect := by
  cases h <;> exact ⟨rfl, rfl⟩

/-- Whether a change of a password is supported does not depend on the password. -/
theorem Operation.Alike.supports {o o' : Operation} (h : Operation.Alike a b o o')
    (c : Capabilities) : c.supports o' = c.supports o := by
  cases h <;> rfl

/-- Two requests are about the same user. -/
structure Request.Alike (a b : String) (q r : Request) : Prop where
  operation : Operation.Alike a b q.operation r.operation
  localId : r.localId = q.localId

namespace Table

variable {κ ν : Type} [DecidableEq κ] {R : ν → ν → Prop} {t u : Table κ ν}

/-- Two tables have the same keys in the same order, and values that are alike. -/
def Alike (R : ν → ν → Prop) (t u : Table κ ν) : Prop :=
  List.Forall₂ (fun x y => y.1 = x.1 ∧ R x.2 y.2) t.entries u.entries

/-- Lists that agree on their keys agree on where a key is found. -/
private theorem rel_lookUp {es fs : List (κ × ν)}
    (h : List.Forall₂ (fun x y => y.1 = x.1 ∧ R x.2 y.2) es fs) (k : κ) :
    Option.Rel R (lookUp k es) (lookUp k fs) := by
  induction h with
  | nil => exact .none
  | cons hx _ ih =>
    unfold lookUp
    rw [hx.1]
    split
    · exact .some hx.2
    · exact ih

/-- Lists that agree on their keys still do when related values are put under one key. -/
private theorem rel_put {es fs : List (κ × ν)} {v w : ν}
    (h : List.Forall₂ (fun x y => y.1 = x.1 ∧ R x.2 y.2) es fs) (k : κ) (hv : R v w) :
    List.Forall₂ (fun x y => y.1 = x.1 ∧ R x.2 y.2) (put k v es) (put k w fs) := by
  induction h with
  | nil => exact .cons ⟨rfl, hv⟩ .nil
  | cons hx hs ih =>
    unfold put
    rw [hx.1]
    split
    · exact .cons ⟨rfl, hv⟩ hs
    · exact .cons hx ih

/-- Tables that are alike have related values under each key. -/
theorem Alike.get? (h : Alike R t u) (k : κ) : Option.Rel R (t.get? k) (u.get? k) :=
  rel_lookUp h k

/-- Tables that are alike stay so when related values are inserted. -/
theorem Alike.insert (h : Alike R t u) (k : κ) {v w : ν} (hv : R v w) :
    Alike R (t.insert k v) (u.insert k w) :=
  rel_put h k hv

end Table

namespace Directory

/-! ## Entries and servers -/

/-- Two entries are the same, or they differ in that they hold the one password and the other. -/
inductive Entry.Alike (a b : String) (e : Entry) : Entry → Prop
  | same : Alike a b e e
  | secret (h : e.password = some a) : Alike a b e { e with password := some b }

/-- A record does not tell the password of its entry. -/
theorem Entry.Alike.record {e f : Entry} (h : Entry.Alike a b e f) (provider : ProviderId)
    (supported : List Property) (o : Operation) :
    f.record provider supported o = e.record provider supported o := by
  cases h with
  | same => rfl
  | secret h =>
    -- A record is made of the properties of a user, and the password is none of them.
    unfold Entry.record
    congr 1

/-- One after the other password is stored. -/
theorem Entry.Alike.change {e f : Entry} (h : Entry.Alike a b e f) {p q : String}
    (ho : Operation.Alike a b (.changePassword p) (.changePassword q)) :
    Entry.Alike a b { e with password := some p } { f with password := some q } := by
  have hf : { f with password := some q } = { e with password := some q } := by
    cases h <;> rfl
  rw [hf]
  cases ho with
  | same => exact .same
  | secret => exact .secret rfl

/-- Two servers differ only in the passwords that are stored. -/
structure Server.Alike (a b : String) (s t : Server) : Prop where
  rest : t = { s with entries := t.entries }
  entries : Table.Alike (Entry.Alike a b) s.entries t.entries

namespace Server

variable {s t : Server}

/-- A server that is like another differs from it in the entries only. -/
theorem Alike.exists_eq (h : Alike a b s t) :
    ∃ es, t = { s with entries := es } ∧ Table.Alike (Entry.Alike a b) s.entries es :=
  ⟨t.entries, h.rest, h.entries⟩

/-- A server is like itself. -/
theorem alike_self (s : Server) : Alike a b s s :=
  ⟨rfl, List.forall₂_same.mpr fun _ _ => ⟨rfl, .same⟩⟩

/-- A call that comes in is counted alike. -/
theorem Alike.enter (h : Alike a b s t) : Alike a b s.enter t.enter := by
  obtain ⟨es, rfl, hentries⟩ := h.exists_eq
  exact ⟨rfl, hentries⟩

/-- A call that goes is counted alike. -/
theorem Alike.leave (h : Alike a b s t) : Alike a b s.leave t.leave := by
  obtain ⟨es, rfl, hentries⟩ := h.exists_eq
  exact ⟨rfl, hentries⟩

/-- Servers that are alike answer alike, and stay alike. -/
theorem Alike.answer (h : Alike a b s t) {o o' : Operation} (ho : Operation.Alike a b o o')
    (provider : ProviderId) (supported : List Property) (localId : String) :
    Alike a b (s.answer provider supported o localId).1 (t.answer provider supported o' localId).1 ∧
      (t.answer provider supported o' localId).2 = (s.answer provider supported o localId).2 := by
  have hentry := h.entries.get? localId
  have hfailure : t.failure = s.failure := by
    obtain ⟨es, rfl, -⟩ := h.exists_eq
    rfl
  -- Whatever is done, it is done to the entry of the user.
  have hchange : ∀ p q, Operation.Alike a b (.changePassword p) (.changePassword q) →
      Alike a b (s.changePassword provider localId p).1 (t.changePassword provider localId q).1 ∧
        (t.changePassword provider localId q).2 = (s.changePassword provider localId p).2 := by
    intro p q hpq
    unfold changePassword entry?
    generalize s.entries.get? localId = e, t.entries.get? localId = f at hentry
    cases hentry with
    | none => exact ⟨h, rfl⟩
    | some hef =>
      obtain ⟨es, rfl, hentries⟩ := h.exists_eq
      exact ⟨⟨rfl, hentries.insert localId (hef.change hpq)⟩, rfl⟩
  unfold Server.answer
  rw [hfailure]
  cases s.failure with
  | some message => exact ⟨h, rfl⟩
  | none =>
    -- Two different passwords come from a change of a password; anything else is the same
    -- operation.
    cases ho with
    | secret => exact hchange a b .secret
    | same =>
      cases o with
      | changePassword p => exact hchange p p (.same _)
      | read ps =>
        refine ⟨h, congrArg Except.ok ?_⟩
        unfold Server.read entry?
        generalize s.entries.get? localId = e, t.entries.get? localId = f at hentry
        cases hentry with
        | none => rfl
        | some hef => exact congrArg Output.record (hef.record provider supported _)

/-- What may be done to a server from outside. -/
inductive Change where
  | insert (e : Entry)
  | fail (message : Option String)
  | delay (latency : Nat)

/-- The server to which something is done from outside. -/
def Change.apply : Change → Server → Server
  | insert e, s => s.insert e
  | fail message, s => { s with failure := message }
  | delay latency, s => { s with latency := latency }

/-- What changes a server from outside changes those that are alike alike. -/
theorem Alike.apply (h : Alike a b s t) (x : Change) : Alike a b (x.apply s) (x.apply t) := by
  obtain ⟨es, rfl, hentries⟩ := h.exists_eq
  cases x with
  | insert e => exact ⟨rfl, hentries.insert e.localId .same⟩
  | fail | delay => exact ⟨rfl, hentries⟩

/-- The work of a call goes alike, whichever of the two passwords it brings. -/
theorem alike_work (provider : ProviderId) (supported : List Property) {q r : Request}
    (h : Request.Alike a b q r) :
    Work.Alike (Alike a b) (work provider supported q.operation q.localId)
      (work provider supported r.operation r.localId) := by
  intro u s t hs
  refine ⟨rfl, hs.enter, ?_, fun _ {s t} hs => ?_, fun hs => hs.leave⟩
  · obtain ⟨es, rfl, -⟩ := hs.exists_eq
    rfl
  · rw [h.localId]
    obtain ⟨hserver, hanswer⟩ := hs.answer h.operation provider supported q.localId
    exact ⟨rfl, hserver.leave, congrArg Ending.returned hanswer⟩

end Server

/-! ## Directories -/

/-- The connections to servers that are alike, by which calls go on alike. -/
inductive Access.Alike (a b : String) : Access → Access → Prop
  | concurrent {p q : Pool Server Output} (h : Pool.Alike (Server.Alike a b) p q) :
      Alike a b (.concurrent p) (.concurrent q)
  | serialized {k l : Domain Unit Server Output} (h : Domain.Alike (Server.Alike a b) k l) :
      Alike a b (.serialized k) (.serialized l)

/-- Calls that differ in a password only go alike in both modes of access. -/
theorem Access.mirrors (a b : String) :
    Host.Mirrors (κ := Access) (Work.Alike (Server.Alike a b)) (Access.Alike a b) where
  -- Each step is that of the pool or that of the domain, according to the mode.
  settle now k l h := by
    cases h with
    | concurrent h => exact .concurrent ((Pool.mirrors _).settle now h)
    | serialized h => exact .serialized ((Domain.mirrors _).settle now h)
  next? {k l} h := by
    cases h with
    | concurrent h => exact (Pool.mirrors _).next? h
    | serialized h => exact (Domain.mirrors _).next? h
  load {k l} h := by
    cases h with
    | concurrent h => exact (Pool.mirrors _).load h
    | serialized h => exact (Domain.mirrors _).load h
  submit id q r k l hq h := by
    cases h with
    | concurrent h => exact .concurrent ((Pool.mirrors _).submit id hq h)
    | serialized h =>
      exact .serialized ((Domain.mirrors _).submit id (q := (.async, q)) (r := (.async, r))
        ⟨rfl, hq⟩ h)
  ripen now k l h := by
    cases h with
    | concurrent h => exact .concurrent ((Pool.mirrors _).ripen now h)
    | serialized h => exact .serialized ((Domain.mirrors _).ripen now h)
  due? {k l} h id := by
    cases h with
    | concurrent h => exact (Pool.mirrors _).due? h id
    | serialized h => exact (Domain.mirrors _).due? h id
  abort id k l h := by
    cases h with
    | concurrent h => exact .concurrent ((Pool.mirrors _).abort id h)
    | serialized h => exact .serialized ((Domain.mirrors _).abort id h)
  ended? {k l} h id := by
    cases h with
    | concurrent h => exact (Pool.mirrors _).ended? h id
    | serialized h => exact (Domain.mirrors _).ended? h id

/-- Two directories differ only in the passwords that are stored, and in those that are to be. -/
structure Alike (a b : String) (d e : Directory) : Prop where
  rest : e = { d with access := e.access }
  access : Access.Alike a b d.access e.access

variable {d e : Directory}

/-- Directories that are alike differ in what they have behind their access only. -/
theorem Alike.exists_eq (h : Alike a b d e) :
    ∃ x, e = { d with access := x } ∧ Access.Alike a b d.access x :=
  ⟨e.access, h.rest, h.access⟩

/-- Directories that are alike do alike, as long as the calls differ in a password only. -/
theorem mirrors (a b : String) :
    Host.Mirrors (κ := Directory) (Request.Alike a b) (Alike a b) where
  settle now d e h := by
    obtain ⟨x, rfl, hx⟩ := h.exists_eq
    exact ⟨rfl, (Access.mirrors a b).settle now hx⟩
  next? {d e} h := (Access.mirrors a b).next? h.access
  load {d e} h := (Access.mirrors a b).load h.access
  submit id q r d e hq h := by
    obtain ⟨x, rfl, hx⟩ := h.exists_eq
    exact ⟨rfl, (Access.mirrors a b).submit id (Server.alike_work d.id d.supported hq) hx⟩
  ripen now d e h := by
    obtain ⟨x, rfl, hx⟩ := h.exists_eq
    exact ⟨rfl, (Access.mirrors a b).ripen now hx⟩
  due? {d e} h id := (Access.mirrors a b).due? h.access id
  abort id d e h := by
    obtain ⟨x, rfl, hx⟩ := h.exists_eq
    exact ⟨rfl, (Access.mirrors a b).abort id hx⟩
  ended? {d e} h id := (Access.mirrors a b).ended? h.access id

/-- Of an access one sees its server and its mode, and both are alike. -/
theorem Access.Alike.shown {x y : Access} (h : Access.Alike a b x y) :
    Server.Alike a b x.server y.server ∧ y.mode = x.mode := by
  cases h with
  | concurrent hp => exact ⟨hp.shared, rfl⟩
  | serialized hk =>
    refine ⟨hk.shared, ?_⟩
    obtain ⟨s, l, q, rfl, -⟩ := hk.exists_eq
    rfl

/-- What is done to a server regardless of the passwords may be done to both. -/
theorem Access.Alike.mapServer {x y : Access} (h : Access.Alike a b x y) {f g : Server → Server}
    (hf : Server.Alike a b (f x.server) (g y.server)) :
    Access.Alike a b (x.mapServer f) (y.mapServer g) := by
  cases h with
  | concurrent hp => exact .concurrent ⟨hf, hp.calls, hp.ended⟩
  | serialized hk =>
    obtain ⟨s, l, q, rfl, -, hlease, hqueue⟩ := hk.exists_eq
    exact .serialized ⟨rfl, hf, hlease, hqueue⟩

/-- What is seen of a directory besides its answers. -/
theorem Alike.shown (h : Alike a b d e) :
    e.id = d.id ∧ Server.Alike a b d.server e.server ∧ e.domainStats? = d.domainStats? := by
  obtain ⟨x, rfl, hx⟩ := h.exists_eq
  refine ⟨rfl, hx.shown.1, ?_⟩
  unfold domainStats?
  dsimp only
  -- A pool has no counters to show, and the counters of a domain do not depend on passwords.
  generalize d.access = y at hx ⊢
  cases hx with
  | concurrent hp => rfl
  | serialized hk =>
    obtain ⟨s, l, q, rfl, -⟩ := hk.exists_eq
    rfl

/-- Directories stay alike when their servers are changed alike. -/
theorem Alike.mapServer (h : Alike a b d e) {f g : Server → Server}
    (hf : Server.Alike a b (f d.server) (g e.server)) :
    Alike a b (d.mapServer f) (e.mapServer g) := by
  obtain ⟨x, rfl, hx⟩ := h.exists_eq
  exact ⟨rfl, hx.mapServer hf⟩

end Directory

/-! ## Providers -/

/-- Two directories as members of a federation. -/
inductive Provider.Alike (a b : String) : Provider → Provider → Prop
  | directory {d e : Directory} (h : Directory.Alike a b d e) :
      Alike a b (.directory d) (.directory e)

/-- Providers that are alike do alike, as long as the calls differ in a password only. -/
theorem Provider.mirrors (a b : String) :
    Host.Mirrors (κ := Provider) (Request.Alike a b) (Provider.Alike a b) where
  settle now k l h := by
    obtain ⟨h⟩ := h
    exact .directory ((Directory.mirrors a b).settle now h)
  next? {k l} h := by
    obtain ⟨h⟩ := h
    exact (Directory.mirrors a b).next? h
  load {k l} h := by
    obtain ⟨h⟩ := h
    exact (Directory.mirrors a b).load h
  submit id q r k l hq h := by
    obtain ⟨h⟩ := h
    exact .directory ((Directory.mirrors a b).submit id hq h)
  ripen now k l h := by
    obtain ⟨h⟩ := h
    exact .directory ((Directory.mirrors a b).ripen now h)
  due? {k l} h id := by
    obtain ⟨h⟩ := h
    exact (Directory.mirrors a b).due? h id
  abort id k l h := by
    obtain ⟨h⟩ := h
    exact .directory ((Directory.mirrors a b).abort id h)
  ended? {k l} h id := by
    obtain ⟨h⟩ := h
    exact (Directory.mirrors a b).ended? h id

/-- The users of two directories that are alike have the same identifiers. -/
theorem Provider.Alike.shown {p q : Provider} (h : Provider.Alike a b p q) :
    q.id = p.id ∧ (∀ external, q.localId external = p.localId external) ∧
      ∀ r, q.localIdFrom r = p.localIdFrom r := by
  obtain ⟨h⟩ := h
  obtain ⟨x, rfl, -⟩ := h.exists_eq
  exact ⟨rfl, fun _ => rfl, fun _ => rfl⟩

/-- What changes a directory from outside keeps the providers alike. -/
theorem Provider.Alike.apply {p q : Provider} (h : Provider.Alike a b p q)
    (x : Directory.Server.Change) :
    Provider.Alike a b (p.mapDirectory (Directory.mapServer x.apply))
      (q.mapDirectory (Directory.mapServer x.apply)) := by
  obtain ⟨h⟩ := h
  exact .directory (h.mapServer (h.shown.2.1.apply x))

/-- No password has been told to a directory that has not been called. -/
theorem Provider.alike_of_isFresh {d : Directory} (h : (Provider.directory d).IsFresh) :
    Provider.Alike a b (.directory d) (.directory d) := by
  refine .directory ⟨rfl, ?_⟩
  obtain ⟨id, capabilities, rule, supported, access⟩ := d
  -- Without calls there is nothing that could have brought a password.
  cases access with
  | concurrent pool =>
    obtain ⟨hcalls, -⟩ := h
    refine .concurrent ⟨Directory.Server.alike_self _, ?_, rfl⟩
    rw [hcalls]
    exact .nil
  | serialized domain =>
    obtain ⟨hlease, hqueue, -⟩ := h
    refine .serialized ⟨rfl, Directory.Server.alike_self _, ?_, ?_⟩
    · rw [hlease]
      exact .none
    · rw [hqueue]
      exact .nil

end Federation
