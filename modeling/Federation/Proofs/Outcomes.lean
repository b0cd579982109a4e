import Federation.Outcomes
import Federation.Proofs.Fault

/-! # What a set of outcomes collapses to

Collapsing gathers the faults of a set into a `FaultList`, where a collection counts as its
members, and succeeds if the list stays empty.  A failed provider whose fault is the collection of
nothing adds nothing to the list.

## Key results

- `collapse_cases`: the three shapes of the gathered faults decide the result.
- `collapse_spec`: exactly the sets whose failures are all collections of nothing collapse to
  their values, and otherwise the fault holds every cause in target order.
- `collapse_hides_failure`: a failed provider that is dropped from a success. -/

namespace Federation.Outcomes

variable {α : Type}

/-- The faults that the failures of a set contribute, in target order. -/
def faults (s : Outcomes α) : List Fault := s.failures.flatMap fun e => FaultList.members e.2

/-- All have succeeded if there is no failure. -/
theorem isAllSuccess_iff (s : Outcomes α) : s.isAllSuccess = true ↔ s.failures = [] := by
  simp [isAllSuccess, failures, List.filterMap_eq_nil_iff]

/-- Where nothing failed, the entries are the values. -/
theorem entries_of_isAllSuccess {s : Outcomes α} (h : s.isAllSuccess = true) :
    s.entries = s.successes.map fun e => (e.1, .ok e.2) := by
  rw [isAllSuccess, List.all_eq_true] at h
  unfold successes
  revert h
  induction s.entries with
  | nil => exact fun _ => rfl
  | cons e es ih =>
    intro h
    rw [List.forall_mem_cons] at h
    rcases e with ⟨p, _ | a⟩
    · exact absurd h.1 (by simp [failure?])
    · simpa [success?] using ih h.2

/-- There is no fault if every failure is the collection of nothing. -/
theorem faults_eq_nil_iff (s : Outcomes α) :
    s.faults = [] ↔ ∀ e ∈ s.failures, e.2 = .collection [] := by
  simp only [faults, List.flatMap_eq_nil_iff, FaultList.members_eq_nil_iff]

/-- Gathering the faults loses no cause. -/
theorem leaves_faults (s : Outcomes α) :
    s.faults.flatMap Fault.leaves = s.failures.flatMap fun e => e.2.leaves := by
  simp only [faults, List.flatMap_assoc, FaultList.leaves_members]

/-- No fault, one fault or several faults decide what a set collapses to. -/
theorem collapse_cases (s : Outcomes α) :
    (s.faults = [] ∧ s.collapse = .ok s.successes) ∨
    (∃ f, s.faults = [f] ∧ s.collapse = .error f) ∨
    (2 ≤ s.faults.length ∧ s.collapse = .error (.collection s.faults)) := by
  have gathered : (FaultList.ofList (s.failures.map Prod.snd)).faults = s.faults := by
    simp [faults, List.flatMap_map]
  unfold collapse FaultList.toFault?
  rw [gathered]
  rcases s.faults with _ | ⟨f, _ | ⟨g, fs⟩⟩
  · exact .inl ⟨rfl, rfl⟩
  · exact .inr (.inl ⟨f, rfl, rfl⟩)
  · exact .inr (.inr ⟨by simp, rfl⟩)

/-- A set collapses to its values, in target order, exactly if each of its failures is the
    collection of nothing; this is the same as that nothing failed if there is no such failure.
    Otherwise it collapses to the only fault there is or to the collection of all of them, which
    has the causes of the failures in target order. -/
theorem collapse_spec (s : Outcomes α) :
    ((∃ xs, s.collapse = .ok xs) ↔ ∀ e ∈ s.failures, e.2 = .collection []) ∧
    ((∀ e ∈ s.failures, e.2 ≠ .collection []) →
      ((∃ xs, s.collapse = .ok xs) ↔ s.isAllSuccess = true)) ∧
    (∀ xs, s.collapse = .ok xs → xs = s.successes ∧
      (s.isAllSuccess = true → s.entries = xs.map fun e => (e.1, .ok e.2))) ∧
    (∀ f, s.collapse = .error f →
      (s.faults = [f] ∨ 2 ≤ s.faults.length ∧ f = .collection s.faults) ∧
      f.leaves = s.failures.flatMap fun e => e.2.leaves) := by
  -- A set collapses in one of three ways, according to how many faults there are.
  have ok_iff : (∃ xs, s.collapse = .ok xs) ↔ ∀ e ∈ s.failures, e.2 = .collection [] := by
    rw [← faults_eq_nil_iff]
    rcases collapse_cases s with ⟨none, h⟩ | ⟨f, one, h⟩ | ⟨many, h⟩
    · simp [none, h]
    · simp [one, h]
    · have : s.faults ≠ [] := fun e => by simp [e] at many
      simp [this, h]
  refine ⟨ok_iff, fun solid => ?same, fun xs h => ?values, fun f h => ?fault⟩
  case same =>
    rw [ok_iff, isAllSuccess_iff, List.eq_nil_iff_forall_not_mem]
    exact ⟨fun hollow e he => solid e he (hollow e he), fun none e he => absurd he (none e)⟩
  case values =>
    have values : xs = s.successes := by
      rcases collapse_cases s with ⟨-, h'⟩ | ⟨f, -, h'⟩ | ⟨-, h'⟩ <;> rw [h] at h' <;> cases h'
      rfl
    exact ⟨values, fun all => values ▸ entries_of_isAllSuccess all⟩
  case fault =>
    rw [← leaves_faults]
    rcases collapse_cases s with ⟨-, h'⟩ | ⟨g, one, h'⟩ | ⟨many, h'⟩ <;> rw [h] at h' <;> cases h'
    · exact ⟨.inl one, by simp [one]⟩
    · exact ⟨.inr ⟨many, rfl⟩, by simp⟩

/-- A set with one value and one failure, the collection of nothing, collapses to the value. -/
theorem collapse_hides_failure :
    (ofList [(⟨"ldap"⟩, .ok 1), (⟨"okta"⟩, .error (.collection []))] : Outcomes Nat).collapse =
        .ok [(⟨"ldap"⟩, 1)] ∧
      (ofList [(⟨"ldap"⟩, .ok 1), (⟨"okta"⟩, .error (.collection []))] : Outcomes Nat).isAllSuccess =
        false :=
  ⟨rfl, by decide⟩

end Federation.Outcomes
