import Federation.Proofs.Lists
import Federation.Proofs.Outcomes

/-!
# What becomes of what is put into a set of outcomes

A set of outcomes is filled by insertions, whether or not their provider has an entry already, and
its values may be transformed in between.  What is in it in the end is what was put in first for
each provider, after all transformations that came later.  Nothing that was taken is lost or
overwritten.

## Key results

- `insertNew_of_contains`, `entries_insertNew`: what one insertion does
- `History.get?_set`, `History.providers_set`: what any insertions and transformations come to
- `map_successes`, `map_failures`: the entries are split into those that succeeded and those that
  failed
- `history_spec`: all of it together
-/

namespace Federation.Outcomes

variable {α β : Type}

/-! ## One insertion -/

/-- A set contains a provider if it is one of its providers. -/
theorem contains_iff {s : Outcomes α} {p : ProviderId} :
    s.contains p = true ↔ p ∈ s.providers := by
  simp [contains, providers]

/-- An insertion fails only for a provider that has an entry. -/
theorem insert_fails_iff {s : Outcomes α} {p : ProviderId} {r : Except Fault α} :
    (∃ f, s.insert p r = .error f) ↔ p ∈ s.providers := by
  rw [← contains_iff, insert]
  split <;> simp_all

/-- A provider that has an entry keeps it, and so does everybody else. -/
theorem insertNew_of_contains {s : Outcomes α} {p : ProviderId} (h : p ∈ s.providers)
    (r : Except Fault α) : s.insertNew p r = s := by
  obtain ⟨f, hf⟩ := insert_fails_iff.mpr h
  rw [insertNew, hf]

/-- A new entry is the last one. -/
theorem entries_insertNew {s : Outcomes α} {p : ProviderId} (h : p ∉ s.providers)
    (r : Except Fault α) : (s.insertNew p r).entries = s.entries ++ [(p, r)] := by
  have hnew : s.contains p = false := Bool.eq_false_iff.mpr (mt contains_iff.mp h)
  rw [insertNew, (s.insert_eq_ok_iff _ p r).mpr ⟨hnew, rfl⟩]

/-- There is no result for a provider without an entry. -/
theorem get?_eq_none_iff {s : Outcomes α} {p : ProviderId} :
    s.get? p = none ↔ p ∉ s.providers := by
  rw [← contains_iff, contains, Bool.not_eq_true, List.any_eq_false, get?, Option.map_eq_none_iff,
    List.find?_eq_none]

/-- The result of a provider is that of its first insertion. -/
theorem get?_insertNew (s : Outcomes α) (p : ProviderId) (r : Except Fault α) (q : ProviderId) :
    (s.insertNew p r).get? q = (s.get? q).or (if p = q then some r else none) := by
  by_cases h : p ∈ s.providers
  · rw [insertNew_of_contains h]
    -- The result that `p` has is found first, whatever else is put in.
    split
    · next hq =>
      obtain ⟨x, hx⟩ :=
        Option.ne_none_iff_exists'.mp fun hnone => get?_eq_none_iff.mp hnone (hq ▸ h)
      rw [hx, Option.some_or]
    · rw [Option.or_none]
  · rw [get?, entries_insertNew h, List.find?_append, Option.map_or, List.find?_singleton, get?]
    by_cases hq : p = q <;> simp [hq]

/-- A provider that is new is the last one, and any other one stays in its place. -/
theorem providers_insertNew (s : Outcomes α) (p : ProviderId) (r : Except Fault α) :
    (s.insertNew p r).providers = if p ∈ s.providers then s.providers else s.providers ++ [p] := by
  split
  · next h => rw [insertNew_of_contains h]
  · next h => rw [providers, entries_insertNew h, List.map_append, List.map_singleton, providers]

/-! ## Successes and failures -/

/-- The entries that succeeded, in their order. -/
theorem map_successes (s : Outcomes α) :
    (s.successes.map fun e => (e.1, .ok e.2)) = s.entries.filter fun e => e.2.isOk := by
  unfold successes
  induction s.entries with
  | nil => rfl
  | cons e es ih =>
    rcases e with ⟨p, f | a⟩
    · exact ih
    · exact congrArg ((p, .ok a) :: ·) ih

/-- The entries that failed, in their order. -/
theorem map_failures (s : Outcomes α) :
    (s.failures.map fun e => (e.1, .error e.2)) = s.entries.filter fun e => !e.2.isOk := by
  unfold failures
  induction s.entries with
  | nil => rfl
  | cons e es ih =>
    rcases e with ⟨p, f | a⟩
    · exact congrArg ((p, .error f) :: ·) ih
    · exact ih

/-- Every entry is either a success or a failure. -/
theorem length_successes_add_failures (s : Outcomes α) :
    s.successes.length + s.failures.length = s.size := by
  have hsuccesses := congrArg List.length s.map_successes
  have hfailures := congrArg List.length s.map_failures
  rw [List.length_map] at hsuccesses hfailures
  rw [hsuccesses, hfailures, size, ← List.length_eq_length_filter_add]

/-- Mapping the values of a set maps those of its successes. -/
theorem successes_map (f : α → β) (s : Outcomes α) :
    (s.map f).successes = s.successes.map fun e => (e.1, f e.2) := by
  rw [successes, map, List.filterMap_map, successes, List.map_filterMap]
  refine List.filterMap_congr fun e _ => ?_
  rcases e with ⟨p, _ | a⟩ <;> rfl

/-- Mapping the values of a set leaves its failures alone. -/
theorem failures_map (f : α → β) (s : Outcomes α) : (s.map f).failures = s.failures := by
  rw [failures, map, List.filterMap_map, failures]
  refine List.filterMap_congr fun e _ => ?_
  rcases e with ⟨p, _ | a⟩ <;> rfl

/-! ## Any insertions and transformations -/

/-- What is done to a set from the beginning. -/
inductive History : Type → Type 1 where
  /-- Nothing. -/
  | empty {α : Type} : History α
  /-- One more result is put in, for a provider with or without an entry. -/
  | insert {α : Type} (h : History α) (p : ProviderId) (r : Except Fault α) : History α
  /-- The values are transformed. -/
  | map {α β : Type} (h : History α) (f : α → β) : History β

namespace History

/-- The set that it comes to. -/
def set : {α : Type} → History α → Outcomes α
  | _, .empty => Outcomes.empty
  | _, .insert h p r => h.set.insertNew p r
  | _, .map h f => h.set.map f

/-- Everything that was put in, be it taken or not, with its values transformed by what came after
    it. -/
def given : {α : Type} → History α → List (ProviderId × Except Fault α)
  | _, .empty => []
  | _, .insert h p r => h.given ++ [(p, r)]
  | _, .map h f => h.given.map fun e => (e.1, e.2.map f)

/-- A provider has the result that was put in first for it. -/
theorem get?_set (h : History α) (p : ProviderId) :
    h.set.get? p = (h.given.find? fun e => e.1 = p).map Prod.snd := by
  induction h with
  | empty => rfl
  | insert h q r ih =>
    rw [set, get?_insertNew, ih, given, List.find?_append, Option.map_or, List.find?_singleton]
    by_cases hq : q = p <;> simp [hq]
  | map h f ih =>
    rw [set, get?_map, ih, given, List.find?_map, Option.map_map, Option.map_map]
    rfl

/-- The providers stand in the order in which something was first put in for them. -/
theorem providers_set (h : History α) : h.set.providers = (h.given.map Prod.fst).eraseDups := by
  induction h with
  | empty => rfl
  | insert h p r ih =>
    rw [set, providers_insertNew, ih, given, List.map_append, List.map_singleton,
      List.eraseDups_append]
    -- A provider that has an entry already is not listed again.
    by_cases hp : p ∈ h.given.map Prod.fst <;> simp [hp, List.removeAll, List.eraseDups_cons]
  | map h f ih =>
    rw [set, providers_map, ih, given, List.map_map]
    rfl

end History

/-- Whatever is put into a set and however its values are transformed: an insertion fails exactly if
    its provider has an entry, and then it changes nothing; otherwise it adds an entry at the end.
    A provider has the result that was put in first for it, and the providers stand in the order in
    which this was, each once.  The entries are split into those that succeeded and those that
    failed, each in this order.  Transforming the values leaves the providers and all faults as they
    are. -/
theorem history_spec (h : History α) :
    (∀ p r, ((∃ f, h.set.insert p r = .error f) ↔ p ∈ h.set.providers) ∧
      (p ∈ h.set.providers → (h.insert p r).set = h.set) ∧
      (p ∉ h.set.providers → (h.insert p r).set.entries = h.set.entries ++ [(p, r)])) ∧
    (∀ p, h.set.get? p = (h.given.find? fun e => e.1 = p).map Prod.snd) ∧
    (h.set.providers.Nodup ∧ h.set.providers = (h.given.map Prod.fst).eraseDups) ∧
    ((h.set.successes.map fun e => (e.1, .ok e.2)) = (h.set.entries.filter fun e => e.2.isOk) ∧
      (h.set.failures.map fun e => (e.1, .error e.2)) = h.set.entries.filter fun e => !e.2.isOk) ∧
    h.set.successes.length + h.set.failures.length = h.set.size ∧
    (h.set.isAllSuccess = true ↔ h.set.failures.length = 0) ∧
    ∀ {β : Type} (f : α → β),
      (h.map f).set.providers = h.set.providers ∧ (h.map f).set.failures = h.set.failures ∧
      (h.map f).set.successes = h.set.successes.map fun e => (e.1, f e.2) := by
  refine ⟨fun p r => ⟨insert_fails_iff, ?kept, ?added⟩, h.get?_set, ⟨?once, h.providers_set⟩,
    ⟨h.set.map_successes, h.set.map_failures⟩, h.set.length_successes_add_failures, ?all,
    fun f => ⟨providers_map f h.set, failures_map f h.set, successes_map f h.set⟩⟩
  case kept => exact fun hp => insertNew_of_contains hp r
  case added => exact fun hp => entries_insertNew hp r
  case once =>
    rw [h.providers_set]
    exact nodup_eraseDups _
  case all => rw [isAllSuccess_iff, List.length_eq_zero_iff]

/-- Of what is put in for a provider only the first counts, and only for this a transformation that
    comes later. -/
example :
    let first : History Nat :=
      (History.empty.insert ⟨"ldap"⟩ (.ok 1)).insert ⟨"okta"⟩ (.error .cancelled)
    let later : History String := (first.map toString).insert ⟨"ldap"⟩ (.ok "2")
    (later.insert ⟨"hr"⟩ (.ok "3")).set.entries =
      [(⟨"ldap"⟩, .ok "1"), (⟨"okta"⟩, .error .cancelled), (⟨"hr"⟩, .ok "3")] := by
  decide

end Federation.Outcomes
