import Federation.Config
import Federation.Proofs.Lists
import Mathlib.Data.List.DropRight

/-!
# Configurations that make sense

A configuration is checked provider by provider, and the check stops at the first problem.  All the
same, whether there is one does not depend on the order: each provider has to make sense by itself,
and no two may have one name.  Since names are not repeated, the views of a configuration agree: the
one that looks for the first entry of a name, and the one in which the last entry of a name counts.

## Key results

- `Text.isBlank_iff_trim`: a text is blank if nothing is left of it without the white space at its
  ends
- `providerProblem?_eq_none_iff`, `validate_eq_ok_iff`: when a configuration makes sense
- `provider?_of_mem`, `rank?_priority`, `strategy_mergeEngine`: what its views tell
- `validate_spec`: both together
-/

namespace Federation

/-! ## Blank texts -/

namespace Text

/-- A text without the white space at its ends. -/
def trim (s : String) : List Char := (s.toList.dropWhile isBlankChar).rdropWhile isBlankChar

/-- A text is blank if nothing is left when blanks are taken off. -/
theorem isBlank_iff_trim (s : String) : isBlank s = true ↔ trim s = [] := by
  rw [isBlank_iff, trim, List.rdropWhile_eq_nil_iff]
  constructor
  · intro h c hc
    exact h c ((List.dropWhile_sublist _).subset hc)
  · intro h
    -- The first character that is not dropped would not be white space.
    refine List.dropWhile_eq_nil_iff.mp (List.eq_nil_iff_length_eq_zero.mpr ?_)
    refine Nat.eq_zero_of_not_pos fun hpos => ?_
    exact List.dropWhile_get_zero_not _ s.toList hpos (h _ (List.get_mem _ _))

end Text

/-! ## Ranks that are given one by one -/

namespace Merge

/-- Of the ranks that are given to a provider one by one, the last counts. -/
theorem Priority.rank?_foldl {α : Type} (provider : α → ProviderId) (rank : α → Int) (xs : List α)
    (p : ProviderId) :
    (xs.foldl (fun t x => t.withRank (provider x) (rank x)) ({} : Priority)).rank? p =
      (xs.reverse.find? fun x => provider x = p).map rank := by
  induction xs using List.reverseRecOn with
  | nil => rfl
  | append_singleton xs x ih =>
    rw [List.foldl_concat, rank?_withRank, ih, List.reverse_concat, List.find?_cons]
    by_cases hx : provider x = p
    · simp [hx]
    · simp [hx, Ne.symm hx]

/-- A rank that is only given to who has none leaves the ranks that were given before. -/
theorem Priority.rank?_unlessRanked (t : Priority) (q : ProviderId) (n : Int) (p : ProviderId) :
    (if t.ranks.contains q then t else t.withRank q n).rank? p =
      (t.rank? p).or (if p = q then some n else none) := by
  have hcontains : t.ranks.contains q = (t.rank? q).isSome := rfl
  by_cases hp : p = q
  · subst hp
    cases hknown : t.rank? p with
    | some r => simp [hcontains, hknown]
    | none => simp [hcontains, hknown, rank?_withRank]
  · rw [if_neg hp, Option.or_none]
    split
    · rfl
    · rw [rank?_withRank, if_neg hp]

/-- The rank of a provider by its position in a list is that of its first place. -/
theorem Priority.rank?_ofOrder (ps : List ProviderId) (p : ProviderId) :
    (ofOrder ps).rank? p = (ps.idxOf? p).map Int.ofNat := by
  -- Ranks that were given before stay, and the next one is the number of places before.
  suffices h : ∀ (n : Nat) (t : Priority),
      ((ps.zipIdx n).foldl (fun t e => if t.ranks.contains e.1 then t else t.withRank e.1 e.2)
        t).rank? p = (t.rank? p).or ((ps.idxOf? p).map fun i => Int.ofNat (i + n)) from
    h 0 {}
  induction ps with
  | nil => simp
  | cons q ps ih =>
    intro n t
    have hrest : ((ps.idxOf? p).map fun i => Int.ofNat (i + (n + 1))) =
        ((ps.idxOf? p).map (· + 1)).map fun i => Int.ofNat (i + n) := by
      rw [Option.map_map]
      exact Option.map_congr fun i _ => congrArg Int.ofNat (by show _ = i + 1 + n; omega)
    rw [List.zipIdx_cons, List.foldl_cons, ih, rank?_unlessRanked, List.idxOf?_cons, hrest,
      Option.or_assoc]
    by_cases hq : q = p <;> simp [hq, Ne.symm]

end Merge

namespace Config

/-! ## The check -/

/-- The check of one provider, and of those after it. -/
theorem providerProblem?_cons_eq_none_iff {seen : List ProviderId} {e : ProviderConfig}
    {es : List ProviderConfig} :
    providerProblem? seen (e :: es) = none ↔
      Text.isBlank e.id.name = false ∧ e.id ∉ seen ∧ e.deadlineMs ≠ some 0 ∧
        providerProblem? (seen ++ [e.id]) es = none := by
  rw [providerProblem?]
  cases hblank : Text.isBlank e.id.name <;> by_cases hseen : e.id ∈ seen <;>
    by_cases hzero : e.deadlineMs = some 0 <;> simp [hseen, hzero]

/-- Providers have no problem exactly if none has one by itself, no two of them have one name, and
    none has a name that was seen before. -/
theorem providerProblem?_eq_none_iff {seen : List ProviderId} {es : List ProviderConfig} :
    providerProblem? seen es = none ↔
      (∀ e ∈ es, Text.isBlank e.id.name = false ∧ e.deadlineMs ≠ some 0) ∧
        (es.map ProviderConfig.id).Nodup ∧ ∀ e ∈ es, e.id ∉ seen := by
  induction es generalizing seen with
  | nil => simp [providerProblem?]
  | cons e es ih =>
    rw [providerProblem?_cons_eq_none_iff, ih]
    -- The names that come after `e` must be new to `seen`, and other than that of `e`.
    simp only [List.mem_append, List.mem_singleton, not_or, List.forall_mem_cons, List.map_cons,
      List.nodup_cons, List.mem_map, not_exists, not_and, forall_and]
    grind

/-- A configuration is without a problem if its providers are, its default deadline is not zero, and
    only lists are to be united. -/
theorem problem?_eq_none_iff {c : Config} :
    c.problem? = none ↔
      providerProblem? [] c.providers = none ∧ c.defaultDeadlineMs ≠ some 0 ∧
        ∀ p ∈ c.merge.unionProperties, p.kind = .textList := by
  unfold problem?
  cases providerProblem? [] c.providers with
  | some p => simp
  | none => by_cases hzero : c.defaultDeadlineMs = some 0 <;> simp [hzero]

/-- A configuration makes sense if there is no problem with it. -/
theorem validate_eq_ok_iff_problem? {c : Config} : c.validate = .ok () ↔ c.problem? = none := by
  unfold validate
  cases c.problem? <;> simp

/-- When a configuration makes sense. -/
theorem validate_eq_ok_iff {c : Config} :
    c.validate = .ok () ↔
      (∀ e ∈ c.providers, Text.isBlank e.id.name = false ∧ e.deadlineMs ≠ some 0) ∧
        (c.providers.map ProviderConfig.id).Nodup ∧ c.defaultDeadlineMs ≠ some 0 ∧
        ∀ p ∈ c.merge.unionProperties, p.kind = .textList := by
  rw [validate_eq_ok_iff_problem?, problem?_eq_none_iff, providerProblem?_eq_none_iff]
  simp [and_assoc]

/-- A configuration that makes sense names each provider once. -/
theorem nodup_of_validate {c : Config} (h : c.validate = .ok ()) :
    (c.providers.map ProviderConfig.id).Nodup :=
  (validate_eq_ok_iff.mp h).2.1

/-! ## The views -/

/-- Nothing is found of a provider that is not in the list. -/
theorem provider?_eq_none_iff {c : Config} {p : ProviderId} :
    c.provider? p = none ↔ p ∉ c.providers.map ProviderConfig.id := by
  simp [provider?]

/-- The configuration of a provider is its entry. -/
theorem provider?_of_mem {c : Config} (h : (c.providers.map ProviderConfig.id).Nodup)
    {e : ProviderConfig} (he : e ∈ c.providers) : c.provider? e.id = some e :=
  find?_eq_of_nodup h he

/-- The rank of a provider is its priority, or else its place in the list. -/
theorem rank?_priority {c : Config} (h : (c.providers.map ProviderConfig.id).Nodup) {i : Nat}
    {e : ProviderConfig} (he : c.providers[i]? = some e) :
    c.priority.rank? e.id = some (e.priority.getD i) := by
  have hkeys : (c.providers.zipIdx.reverse.map fun x => x.1.id).Nodup := by
    have hmap : (c.providers.zipIdx.map fun x => x.1.id) =
        (c.providers.zipIdx.map Prod.fst).map ProviderConfig.id := by
      rw [List.map_map]
      rfl
    rw [List.map_reverse, List.nodup_reverse, hmap, List.zipIdx_map_fst]
    exact h
  have hmem : (e, i) ∈ c.providers.zipIdx.reverse :=
    List.mem_reverse.mpr (List.mem_zipIdx_iff_getElem?.mpr he)
  rw [priority, Merge.Priority.rank?_foldl (fun x : ProviderConfig × Nat => x.1.id),
    find?_eq_of_nodup hkeys hmem]
  rfl

/-- A provider that is not in the list has no rank. -/
theorem rank?_priority_eq_none {c : Config} {p : ProviderId}
    (h : p ∉ c.providers.map ProviderConfig.id) : c.priority.rank? p = none := by
  rw [priority, Merge.Priority.rank?_foldl (fun x : ProviderConfig × Nat => x.1.id),
    Option.map_eq_none_iff, List.find?_eq_none]
  intro x hx hid
  rw [decide_eq_true_iff] at hid
  have hmem : x.1 ∈ c.providers := List.fst_mem_of_mem_zipIdx (List.mem_reverse.mp hx)
  exact h (hid ▸ List.mem_map_of_mem hmem)

/-- The ranks of a configuration. -/
theorem rank?_priority_eq_some_iff {c : Config} (h : (c.providers.map ProviderConfig.id).Nodup)
    {p : ProviderId} {rank : Int} :
    c.priority.rank? p = some rank ↔
      ∃ (i : Nat) (e : ProviderConfig), c.providers[i]? = some e ∧ e.id = p ∧
        rank = e.priority.getD i := by
  constructor
  · intro hrank
    by_cases hp : p ∈ c.providers.map ProviderConfig.id
    · obtain ⟨e, he, rfl⟩ := List.mem_map.mp hp
      obtain ⟨i, hi⟩ := List.mem_iff_getElem?.mp he
      exact ⟨i, e, hi, rfl, Option.some.inj (hrank.symm.trans (rank?_priority h hi))⟩
    · rw [rank?_priority_eq_none hp] at hrank
      exact nomatch hrank
  · rintro ⟨i, e, he, rfl, rfl⟩
    exact rank?_priority h he

/-- The engine of a configuration has its ranks. -/
theorem priority_mergeEngine (c : Config) : c.mergeEngine.priority = c.priority := by
  unfold mergeEngine
  generalize c.merge.unionProperties = ps
  -- Strategies are chosen one by one, and no choice changes the ranks.
  induction ps using List.reverseRecOn with
  | nil => rfl
  | append_singleton ps p ih => rw [List.foldl_concat, Merge.Engine.withStrategy, ih]

/-- The lists of the properties that are named are united. -/
theorem strategy_mergeEngine (c : Config) (p : Property) :
    c.mergeEngine.strategy p = if p ∈ c.merge.unionProperties then .union else .firstSet := by
  unfold mergeEngine
  generalize c.merge.unionProperties = ps
  induction ps using List.reverseRecOn with
  | nil => rfl
  | append_singleton ps q ih =>
    rw [List.foldl_concat, Merge.Engine.strategy_withStrategy, ih]
    by_cases hq : p = q <;> simp [hq]

/-- A configuration makes sense exactly if no name is blank, no name is repeated, no deadline is zero,
    and only lists are to be united.  Then its views agree: an entry is found by its name, and its
    rank is the priority that is given for it, or else its place in the list; there is nothing to be
    found of providers that are not in the list; and lists are united exactly of the properties of
    which this is said. -/
theorem validate_spec (c : Config) :
    (c.validate = .ok () ↔
      (∀ e ∈ c.providers, Text.trim e.id.name ≠ []) ∧
      (c.providers.map ProviderConfig.id).Nodup ∧
      (∀ e ∈ c.providers, e.deadlineMs ≠ some 0) ∧ c.defaultDeadlineMs ≠ some 0 ∧
      ∀ p ∈ c.merge.unionProperties, p.kind = .textList) ∧
    (c.validate = .ok () →
      (∀ (i : Nat) e, c.providers[i]? = some e →
        c.provider? e.id = some e ∧ c.priority.rank? e.id = some (e.priority.getD i)) ∧
      (∀ p, p ∉ c.providers.map ProviderConfig.id →
        c.provider? p = none ∧ c.priority.rank? p = none) ∧
      ∀ p, c.mergeEngine.strategy p = .union ↔ p ∈ c.merge.unionProperties) := by
  refine ⟨?check, fun hvalid => ⟨fun i e he => ?listed, fun p hp => ?unlisted, fun p => ?united⟩⟩
  case check =>
    have hblank : ∀ e : ProviderConfig,
        Text.isBlank e.id.name = false ↔ Text.trim e.id.name ≠ [] := by
      intro e
      rw [← Bool.not_eq_true, Text.isBlank_iff_trim]
    rw [validate_eq_ok_iff]
    -- What was said entry by entry is now said of the whole list.
    simp only [hblank, forall_and]
    tauto
  case listed =>
    have hnodup := nodup_of_validate hvalid
    exact ⟨provider?_of_mem hnodup (List.mem_of_getElem? he), rank?_priority hnodup he⟩
  case unlisted => exact ⟨provider?_eq_none_iff.mpr hp, rank?_priority_eq_none hp⟩
  case united =>
    rw [strategy_mergeEngine]
    split <;> simp [*]

/-- A priority that is given may be the place of another provider in the list. -/
theorem validate_spec_tied :
    let c : Config :=
      { providers := [{ id := ⟨"ldap"⟩ }, { id := ⟨"hr"⟩, priority := some 0 }]
        merge := { unionProperties := [.emails] } }
    c.validate = .ok () ∧ c.priority.rank? ⟨"ldap"⟩ = some 0 ∧ c.priority.rank? ⟨"hr"⟩ = some 0 ∧
      c.priority.rank? ⟨"crm"⟩ = none ∧ c.mergeEngine.strategy .emails = .union := by
  intro c
  have hvalid : c.validate = .ok () := by decide
  obtain ⟨hlisted, hunlisted, hunited⟩ := (validate_spec c).2 hvalid
  exact ⟨hvalid, (hlisted 0 _ rfl).2, (hlisted 1 _ rfl).2, (hunlisted ⟨"crm"⟩ (by decide)).2,
    (hunited .emails).mpr (by decide)⟩

end Config

end Federation
