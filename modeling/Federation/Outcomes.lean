import Federation.Fault

/-! # Outcomes by provider

The result of one piece of work done for several providers: one result for each of them, in the
order of the targets.  A provider has at most one entry, which is never overwritten, and a failure
stays with its provider unless the set is collapsed.

* `insert_eq_ok_iff` — an insertion succeeds exactly for a provider without an entry.
* `get?_map` — transforming the values leaves failures and order alone. -/

namespace Federation

/-- One result for each provider, in target order. -/
structure Outcomes (α : Type) where
  entries : List (ProviderId × Except Fault α) := []

namespace Outcomes

variable {α β : Type}

/-- The set without entries. -/
def empty : Outcomes α := ⟨[]⟩

/-- Whether a provider has an entry. -/
def contains (s : Outcomes α) (p : ProviderId) : Bool := s.entries.any fun e => e.1 = p

/-- The result of a provider. -/
def get? (s : Outcomes α) (p : ProviderId) : Option (Except Fault α) :=
  (s.entries.find? fun e => e.1 = p).map Prod.snd

/-- Add the result of a provider.  This fails if it already has one. -/
def insert (s : Outcomes α) (p : ProviderId) (r : Except Fault α) : Except Fault (Outcomes α) :=
  if s.contains p then .error (.internal s!"provider '{p}' already has an outcome")
  else .ok ⟨s.entries ++ [(p, r)]⟩

/-- Add the result of a provider, unless it already has one. -/
def insertNew (s : Outcomes α) (p : ProviderId) (r : Except Fault α) : Outcomes α :=
  match s.insert p r with
  | .ok t => t
  | .error _ => s

/-- The set of the given results, in which the first result of a provider counts. -/
def ofList (es : List (ProviderId × Except Fault α)) : Outcomes α :=
  es.foldl (fun s e => s.insertNew e.1 e.2) empty

/-- The number of entries. -/
def size (s : Outcomes α) : Nat := s.entries.length

/-- Whether there are no entries. -/
def isEmpty (s : Outcomes α) : Bool := s.entries.isEmpty

/-- The providers, in target order. -/
def providers (s : Outcomes α) : List ProviderId := s.entries.map Prod.fst

/-- The value of an entry that succeeded. -/
def success? (e : ProviderId × Except Fault α) : Option (ProviderId × α) :=
  match e.2 with
  | .ok a => some (e.1, a)
  | .error _ => none

/-- The fault of an entry that failed. -/
def failure? (e : ProviderId × Except Fault α) : Option (ProviderId × Fault) :=
  match e.2 with
  | .ok _ => none
  | .error f => some (e.1, f)

/-- The entries that succeeded, in target order. -/
def successes (s : Outcomes α) : List (ProviderId × α) := s.entries.filterMap success?

/-- The entries that failed, in target order. -/
def failures (s : Outcomes α) : List (ProviderId × Fault) := s.entries.filterMap failure?

/-- Whether nothing failed. -/
def isAllSuccess (s : Outcomes α) : Bool := s.entries.all fun e => (failure? e).isNone

/-- The set with its values transformed. -/
def map (f : α → β) (s : Outcomes α) : Outcomes β :=
  ⟨s.entries.map fun e => (e.1, e.2.map f)⟩

/-- One result for the whole set: the values in target order, or what the collected faults amount
    to. -/
def collapse (s : Outcomes α) : Except Fault (List (ProviderId × α)) :=
  match (FaultList.ofList (s.failures.map Prod.snd)).toFault? with
  | some f => .error f
  | none => .ok s.successes

theorem insert_eq_ok_iff (s t : Outcomes α) (p : ProviderId) (r : Except Fault α) :
    s.insert p r = .ok t ↔ s.contains p = false ∧ t = ⟨s.entries ++ [(p, r)]⟩ := by
  unfold insert
  split
  · next h => simp [h]
  · next h => simp [h, eq_comm (a := t)]

theorem get?_map (f : α → β) (s : Outcomes α) (p : ProviderId) :
    (s.map f).get? p = (s.get? p).map (Except.map f) := by
  simp only [get?, map]
  induction s.entries with
  | nil => rfl
  | cons e es ih => by_cases h : e.1 = p <;> simp_all

theorem providers_map (f : α → β) (s : Outcomes α) : (s.map f).providers = s.providers := by
  simp [providers, map, Function.comp_def]

end Outcomes

end Federation
