import Mathlib.Data.List.Forall2
import Mathlib.Data.List.Nodup

/-!
# Lists that go along with each other

Facts about lists of which one gives the keys, the reasons or the results of the other, about the
order of elements in a list, and about lists that are gathered without repetitions.

## Key results

- `map_eq_of_forall₂`: lists that agree in their keys
- `filterMap_eq_of_forall₂`, `map_filter_eq_of_forall₂`: lists that agree in what is taken from them
- `exists_of_mem_right`: every element of such a list has a partner
- `rel_getElem?`, `rel_set`, `rel_find?`: related lists are used alike
- `append_filter_not`: what leaves a list that is not repeated goes to what was left out of it
- `perm_append_filter`: a list that is not repeated consists of a part of it and of the rest
- `not_sublist_swap`: of two elements that are not repeated, one stands before the other
- `eq_of_mem_of_nodup`: keys that are not repeated determine what they stand for
- `find?_eq_of_nodup`: an element is found by a key that is not repeated
- `idxOf?_eq_some_iff_of_nodup`: an element that is not repeated has one place
- `map_set_of_eq`: an element may be replaced by one that looks the same
- `count_le_one_or`: what occurs twice after one more element
- `foldl_distinct`: adding what is new, one by one, keeps the first place of everything
-/

namespace Federation

variable {α β γ : Type} {R : α → β → Prop} {xs : List α} {ys : List β}

/-- Where related elements have the same image, the lists have the same images. -/
theorem map_eq_of_forall₂ {f : α → γ} {g : β → γ}
    (h : List.Forall₂ (fun x y => g y = f x ∧ R x y) xs ys) : ys.map g = xs.map f := by
  induction h with
  | nil => rfl
  | cons hx _ ih => rw [List.map_cons, List.map_cons, hx.1, ih]

/-- Lists that agree in what is taken from them. -/
theorem filterMap_eq_of_forall₂ {f : α → Option γ} {g : β → Option γ}
    (h : List.Forall₂ (fun x y => g y = f x) xs ys) : ys.filterMap g = xs.filterMap f := by
  induction h with
  | nil => rfl
  | cons hx _ ih => rw [List.filterMap_cons, List.filterMap_cons, hx, ih]

/-- Lists that agree in what is chosen from them. -/
theorem map_filter_eq_of_forall₂ {xs ys : List α} {f : α → β} {p : α → Bool}
    (h : List.Forall₂ (fun x y => p y = p x ∧ f y = f x) xs ys) :
    (ys.filter p).map f = (xs.filter p).map f := by
  induction h with
  | nil => rfl
  | cons hx _ ih =>
    rw [List.filter_cons, List.filter_cons, hx.1]
    split
    · rw [List.map_cons, List.map_cons, hx.2, ih]
    · exact ih

/-- An element of the first list is related to one of the second. -/
theorem exists_of_mem_left {x : α} (h : List.Forall₂ R xs ys) (hx : x ∈ xs) : ∃ y ∈ ys, R x y := by
  induction h with
  | nil => exact absurd hx List.not_mem_nil
  | @cons a b xs ys hab _ ih =>
    rcases List.mem_cons.mp hx with rfl | hx
    · exact ⟨b, List.mem_cons_self, hab⟩
    · obtain ⟨y, hy, hxy⟩ := ih hx
      exact ⟨y, List.mem_cons_of_mem b hy, hxy⟩

/-- An element of the second list is one to which one of the first is related. -/
theorem exists_of_mem_right {y : β} (h : List.Forall₂ R xs ys) (hy : y ∈ ys) :
    ∃ x ∈ xs, R x y :=
  exists_of_mem_left h.flip hy

/-- Elements that go along with each other are both in their lists. -/
theorem forall₂_mem (h : List.Forall₂ R xs ys) :
    List.Forall₂ (fun x y => x ∈ xs ∧ y ∈ ys ∧ R x y) xs ys := by
  induction h with
  | nil => exact .nil
  | cons hab _ ih =>
    refine .cons ⟨List.mem_cons_self, List.mem_cons_self, hab⟩ (ih.imp fun x y h => ?_)
    exact ⟨List.mem_cons_of_mem _ h.1, List.mem_cons_of_mem _ h.2.1, h.2.2⟩

/-! ## Related lists -/

/-- What stands at a place goes along with what stands there in the other list. -/
theorem rel_getElem? (h : List.Forall₂ R xs ys) (i : Nat) : Option.Rel R xs[i]? ys[i]? := by
  induction h generalizing i with
  | nil => exact .none
  | cons hx _ ih =>
    cases i with
    | zero => exact .some hx
    | succ i => exact ih i

/-- Related lists stay related when related elements are put in the same place. -/
theorem rel_set (h : List.Forall₂ R xs ys) {x : α} {y : β} (hxy : R x y) (i : Nat) :
    List.Forall₂ R (xs.set i x) (ys.set i y) := by
  induction h generalizing i with
  | nil => exact .nil
  | cons hx hs ih =>
    cases i with
    | zero => exact .cons hxy hs
    | succ i => exact .cons hx (ih i)

/-- Related lists are numbered in the same way. -/
theorem rel_zipIdx (h : List.Forall₂ R xs ys) (n : Nat) :
    List.Forall₂ (fun x y => R x.1 y.1 ∧ y.2 = x.2) (xs.zipIdx n) (ys.zipIdx n) := by
  induction h generalizing n with
  | nil => exact .nil
  | cons hx _ ih => exact .cons ⟨hx, rfl⟩ (ih (n + 1))

/-- The first elements with a property that related elements share are related. -/
theorem rel_find? {p : α → Bool} {q : β → Bool} (hpq : ∀ {x y}, R x y → q y = p x)
    (h : List.Forall₂ R xs ys) : Option.Rel R (xs.find? p) (ys.find? q) := by
  induction h with
  | nil => exact .none
  | cons hx _ ih =>
    rw [List.find?_cons, List.find?_cons, hpq hx]
    split
    · exact .some hx
    · exact ih

/-! ## Order -/

/-- An element of a joined list is in the first part or in the second one. -/
theorem append_eq_append_cons {xs ys before after : List α} {x : α}
    (h : xs ++ ys = before ++ x :: after) :
    (∃ rest, xs = before ++ x :: rest) ∨ ∃ rest, before = xs ++ rest ∧ ys = rest ++ x :: after := by
  rcases List.append_eq_append_iff.mp h with ⟨rest, hbefore, hys⟩ | ⟨rest, hxs, hrest⟩
  · exact .inr ⟨rest, hbefore, hys⟩
  · cases rest with
    | nil => exact .inr ⟨[], by simpa using hxs.symm, hrest.symm⟩
    | cons y rest =>
      obtain ⟨rfl, -⟩ := List.cons.inj hrest
      exact .inl ⟨rest, hxs⟩

/-- It makes no difference whether an element is taken out before or after all are mapped. -/
theorem map_eraseIdx (f : α → β) (xs : List α) (i : Nat) :
    (xs.eraseIdx i).map f = (xs.map f).eraseIdx i := by
  rw [List.eraseIdx_eq_take_drop_succ, List.eraseIdx_eq_take_drop_succ, List.map_append,
    List.map_take, List.map_drop]

/-- An element of a list without repetitions is taken out by its place or by its name. -/
theorem filter_ne_getElem? [DecidableEq α] {xs : List α} (h : xs.Nodup) (i : Nat) :
    (xs.filter fun x => !decide (xs[i]? = some x)) = xs.eraseIdx i := by
  -- Beyond the end nothing is taken out, neither by place nor by name.
  by_cases hi : i < xs.length
  · rw [← h.erase_getElem i hi, h.erase_eq_filter]
    refine List.filter_congr fun x _ => ?_
    rw [List.getElem?_eq_getElem hi]
    by_cases hx : xs[i] = x
    · simp [hx]
    · simp [hx, Ne.symm hx]
  · rw [List.eraseIdx_of_length_le (Nat.le_of_not_lt hi), List.filter_eq_self]
    intro x _
    simp [List.getElem?_eq_none (Nat.le_of_not_lt hi)]

/-- Elements of the second part of a list that are left out of it go to what was left out before. -/
theorem append_filter_not [DecidableEq α] {xs ys zs out : List α}
    (h : xs ++ ys = zs.filter (· ∉ out)) (hnodup : (xs ++ ys).Nodup) (p : α → Bool) :
    (xs ++ ys.filter fun y => !p y) = zs.filter (· ∉ out ++ ys.filter p) := by
  -- The first part has nothing in common with the second, so it keeps all its elements.
  have hxs : xs.filter (· ∉ ys.filter p) = xs := by
    refine List.filter_eq_self.mpr fun x hx => decide_eq_true fun hmem => ?_
    exact List.disjoint_of_nodup_append hnodup hx (List.mem_filter.mp hmem).1
  have hys : ys.filter (· ∉ ys.filter p) = ys.filter fun y => !p y := by
    refine List.filter_congr fun y hy => ?_
    simp [List.mem_filter, hy]
  have hzs : zs.filter (· ∉ out ++ ys.filter p) =
      (zs.filter (· ∉ out)).filter (· ∉ ys.filter p) := by
    rw [List.filter_filter]
    refine List.filter_congr fun z _ => ?_
    simp only [List.mem_append, not_or, Bool.decide_and, Bool.and_comm]
  rw [hzs, ← h, List.filter_append, hxs, hys]

/-- A list that is not repeated consists of a part of it and of what is not in that part. -/
theorem perm_append_filter [BEq α] [LawfulBEq α] {xs ys : List α} (hxs : xs.Nodup) (hys : ys.Nodup)
    (h : ∀ x ∈ ys, x ∈ xs) : xs.Perm (ys ++ xs.filter (· ∉ ys)) := by
  have hnodup : (ys ++ xs.filter (· ∉ ys)).Nodup :=
    List.nodup_append.mpr ⟨hys, hxs.filter _, fun y hy x hx he => by
      simpa [← he, hy] using (List.mem_filter.mp hx).2⟩
  refine (List.perm_ext_iff_of_nodup hxs hnodup).mpr fun x => ?_
  rw [List.mem_append, List.mem_filter, decide_eq_true_iff]
  constructor
  · exact fun hx => or_iff_not_imp_left.mpr fun hnot => ⟨hx, hnot⟩
  · exact fun hx => hx.elim (h x) And.left

/-- Of two elements of a list without repetitions, only one stands before the other. -/
theorem not_sublist_swap {xs : List α} {x y : α} (h : xs.Nodup) (hxy : [x, y].Sublist xs) :
    ¬[y, x].Sublist xs := by
  intro hyx
  induction xs with
  | nil => exact nomatch hxy
  | cons z xs ih =>
    obtain ⟨hz, hxs⟩ := List.nodup_cons.mp h
    -- The first element of the list is one of the two, or neither; it does not occur again.
    cases hxy with
    | cons _ hxy =>
      cases hyx with
      | cons _ hyx => exact ih hxs hxy hyx
      | cons_cons _ _ => exact hz (hxy.subset (by simp))
    | cons_cons _ _ =>
      cases hyx with
      | cons _ hyx => exact hz (hyx.subset (by simp))
      | cons_cons _ hx => exact hz (hx.subset (by simp))

/-- Of two elements of a list, one stands before the other. -/
theorem sublist_pair_or {xs : List α} {x y : α} (hx : x ∈ xs) (hy : y ∈ xs) (hne : x ≠ y) :
    [x, y].Sublist xs ∨ [y, x].Sublist xs := by
  induction xs with
  | nil => exact absurd hx List.not_mem_nil
  | cons z xs ih =>
    -- hx' | Whichever of the two is met first stands before the other.
    rcases List.mem_cons.mp hx with rfl | hx'
    · have hy' : y ∈ xs := (List.mem_cons.mp hy).resolve_left hne.symm
      exact .inl ((List.singleton_sublist.mpr hy').cons_cons x)
    · rcases List.mem_cons.mp hy with rfl | hy'
      · exact .inr ((List.singleton_sublist.mpr hx').cons_cons y)
      · exact (ih hx' hy').imp (·.cons z) (·.cons z)

/-- Where no key occurs twice, a key has one value. -/
theorem eq_of_mem_of_nodup {es : List (α × β)} {a : α} {x y : β}
    (h : (es.map Prod.fst).Nodup) (hx : (a, x) ∈ es) (hy : (a, y) ∈ es) : x = y :=
  (Prod.mk.inj (List.inj_on_of_nodup_map h hx hy rfl)).2

/-- An element is found by its key if keys are not repeated. -/
theorem find?_eq_of_nodup [DecidableEq β] {f : α → β} {x : α} (h : (xs.map f).Nodup)
    (hx : x ∈ xs) : xs.find? (fun y => f y = f x) = some x := by
  cases hfind : xs.find? fun y => f y = f x with
  | none =>
    rw [List.find?_eq_none] at hfind
    exact absurd (decide_eq_true rfl) (hfind x hx)
  | some y =>
    have hy := List.find?_some hfind
    rw [decide_eq_true_iff] at hy
    exact congrArg some (List.inj_on_of_nodup_map h (List.mem_of_find?_eq_some hfind) hx hy)

/-- In a list without repetitions, what stands at a place stands there first. -/
theorem idxOf?_eq_some_iff_of_nodup [DecidableEq α] (h : xs.Nodup) {x : α} {i : Nat} :
    xs.idxOf? x = some i ↔ xs[i]? = some x := by
  rw [List.idxOf?_eq_some_iff, List.getElem?_eq_some_iff]
  constructor
  · exact fun ⟨hi, hx, _⟩ => ⟨hi, hx⟩
  · rintro ⟨hi, hx⟩
    refine ⟨hi, hx, fun j hj hxj => ?_⟩
    have hji : j = i := h.getElem_inj_iff.mp (hxj.trans hx.symm)
    omega

/-- An element may be replaced by one that looks the same. -/
theorem map_set_of_eq {f : α → β} {x y : α} {i : Nat} (hx : xs[i]? = some x) (hy : f y = f x) :
    (xs.set i y).map f = xs.map f := by
  refine List.ext_getElem? fun k => ?_
  rw [List.getElem?_map, List.getElem?_map]
  by_cases hk : i = k
  · subst hk
    rw [List.getElem?_set_self (List.getElem?_eq_some_iff.mp hx).1, hx, Option.map_some,
      Option.map_some, hy]
  · rw [List.getElem?_set_ne hk]

/-- What is not repeated occurs twice after one more element only if it is this element. -/
theorem count_le_one_or [DecidableEq α] {xs : List α} (h : xs.Nodup) (x? : Option α) (x : α) :
    (x?.toList ++ xs).count x ≤ 1 ∨
      (x?.toList ++ xs).count x = 2 ∧ x? = some x ∧ x ∈ xs := by
  have hone : xs.count x ≤ 1 := List.nodup_iff_count_le_one.mp h x
  rw [List.count_append]
  -- Only the new element can raise the count, and only if it is `x`.
  by_cases hx : x? = some x
  · subst hx
    have hself : (some x).toList.count x = 1 := List.count_singleton_self
    by_cases hmem : x ∈ xs
    · exact .inr ⟨by rw [hself, List.count_eq_one_of_mem h hmem], rfl, hmem⟩
    · have hzero : xs.count x = 0 := List.count_eq_zero_of_not_mem hmem
      exact .inl (by omega)
  · have hnone : x?.toList.count x = 0 :=
      List.count_eq_zero_of_not_mem fun hmem => hx (Option.mem_toList.mp hmem)
    exact .inl (by omega)

section Distinct

variable [BEq α] [LawfulBEq α]

/-- Adding the elements that are not there yet, one by one, adds each new element once, in the
    order of their first places. -/
theorem foldl_distinct (xs seen : List α) :
    xs.foldl (fun seen x => if seen.contains x then seen else seen ++ [x]) seen =
      seen ++ (xs.filter fun x => !seen.contains x).eraseDups := by
  -- Induction on the elements, with those that were seen as the accumulator.
  induction xs generalizing seen with
  | nil => simp
  | cons x xs ih =>
    rw [List.foldl_cons, ih]
    by_cases hx : x ∈ seen
    · rw [if_pos (List.contains_iff_mem.mpr hx), List.filter_cons_of_neg (by simp [hx])]
    -- The element is new, so from now on it is left out as well.
    · have hfilter : (xs.filter fun y => !(seen ++ [x]).contains y) =
          (xs.filter fun y => !seen.contains y).filter fun y => !y == x := by
        rw [List.filter_filter]
        refine List.filter_congr fun y _ => ?_
        by_cases hy : y = x <;> simp [hy]
      rw [if_neg (by simp [hx]), hfilter, List.filter_cons_of_pos (by simp [hx]),
        List.eraseDups_cons, List.append_assoc, List.singleton_append]

/-- What is kept of a list is without repetitions: after its head there is a shorter list without
    the head. -/
theorem nodup_eraseDups : ∀ xs : List α, xs.eraseDups.Nodup
  | [] => List.nodup_nil
  | x :: xs => by
    rw [List.eraseDups_cons, List.nodup_cons]
    exact ⟨by simp, nodup_eraseDups _⟩
termination_by xs => xs.length
decreasing_by exact Nat.lt_succ_of_le (List.length_filter_le _ _)

/-- What a part of a list adds to the elements before it stands together. -/
theorem infix_eraseDups (before xs after : List α) :
    (xs.filter fun x => !before.contains x).eraseDups <:+:
      (before ++ (xs ++ after)).eraseDups := by
  rw [List.eraseDups_append, List.removeAll, List.filter_append, List.eraseDups_append,
    ← List.append_assoc]
  exact List.infix_append _ _ _

end Distinct

end Federation
