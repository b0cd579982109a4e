import Federation.Merge.Priority
import Mathlib

/-!
# The merge order

`Priority.order` sorts records with `List.mergeSort`.  Here the order is described without a
sorting algorithm: records stand by their place, which is the rank of their provider or, without
a rank, a place behind all ranks, and records of one place stand as they were given.  Exactly one
list is in merge order.

## Key results

- `filter_order`: sorting keeps the records of each place in their order
- `IsMergeOrder.eq`: two lists in merge order are equal
- `isMergeOrder_iff`: `order` yields the list in merge order and no other one is
- `order_eq_of_perm`: different ranks make the order of what is given irrelevant
-/

namespace Federation.Merge.Priority

/-- The place of a record: the rank of its provider, or behind all ranks. -/
def place (t : Priority) (r : Record) : WithTop Int :=
  match t.rank? r.provider with
  | some i => i
  | none => ⊤

/-- A list of records holds the given records by their place, and those of one place as they were
    given. -/
structure IsMergeOrder (t : Priority) (rs ordered : List Record) : Prop where
  perm : ordered.Perm rs
  sorted : ordered.Pairwise fun r s => t.place r ≤ t.place s
  stable : ∀ k, ordered.filter (fun r => t.place r = k) = rs.filter fun r => t.place r = k

/-- One record may stand before another exactly if its place is not behind the other's. -/
theorem precedes_iff (t : Priority) (r s : Record) :
    t.precedes r s = true ↔ t.place r ≤ t.place s := by
  unfold precedes place
  cases t.rank? r.provider <;> cases t.rank? s.provider <;> simp [before]

/-- Two ranks that come before each other are the same. -/
theorem before_antisymm {a b : Option Int} (h : before a b = true) (k : before b a = true) :
    a = b := by
  cases a <;> cases b <;> simp_all [before]
  omega

/-- Sorting keeps the records of one place in their order. -/
theorem filter_order (t : Priority) (rs : List Record) (k : WithTop Int) :
    ((t.order rs).filter fun r => t.place r = k) = rs.filter fun r => t.place r = k := by
  have trans : ∀ a b c, t.precedes a b → t.precedes b c → t.precedes a c :=
    fun _ _ _ => before_trans
  have total : ∀ a b, t.precedes a b || t.precedes b a := fun _ _ => before_total _ _
  -- The records of one place are sorted already, so `mergeSort` leaves them a sublist.
  have sorted : (rs.filter fun r => t.place r = k).Pairwise fun r s => t.precedes r s := by
    refine List.Pairwise.imp_of_mem (R := fun _ _ => True) ?_
      (List.pairwise_of_forall fun _ _ => trivial)
    intro r s hr hs _
    simp only [List.mem_filter, decide_eq_true_eq] at hr hs
    exact (precedes_iff t r s).mpr (by rw [hr.2, hs.2])
  have sub : (rs.filter fun r => t.place r = k).Sublist (t.order rs) :=
    List.sublist_mergeSort trans total sorted List.filter_sublist
  have sub := sub.filter fun r => decide (t.place r = k)
  rw [List.filter_filter] at sub
  simp only [Bool.and_self] at sub
  exact (sub.eq_of_length ((t.order_perm rs).filter _).length_eq.symm).symm

/-- `order` yields a list in merge order. -/
theorem isMergeOrder_order (t : Priority) (rs : List Record) : t.IsMergeOrder rs (t.order rs) where
  perm := t.order_perm rs
  sorted := (t.pairwise_order rs).imp fun h => (precedes_iff t _ _).mp h
  stable := t.filter_order rs

/-- Lists sorted by place that hold the same records at each place are equal. -/
private theorem eq_of_filter_eq {t : Priority} {ls ms : List Record}
    (hl : ls.Pairwise fun r s => t.place r ≤ t.place s)
    (hm : ms.Pairwise fun r s => t.place r ≤ t.place s)
    (h : ∀ k, ls.filter (fun r => t.place r = k) = ms.filter fun r => t.place r = k) :
    ls = ms := by
  -- A record is in a list if it is among those of its place.
  have mem : ∀ {r : Record} {as bs : List Record},
      as.filter (fun s => t.place s = t.place r) = bs.filter (fun s => t.place s = t.place r) →
      r ∈ as → r ∈ bs := by
    intro r as bs e hr
    have : r ∈ as.filter fun s => t.place s = t.place r := by simpa using hr
    rw [e] at this
    exact List.mem_of_mem_filter this
  -- Induction on the lists: they agree in their heads, and so do their tails.
  induction ls generalizing ms with
  | nil =>
    cases ms with
    | nil => rfl
    | cons s ms => exact absurd (mem (h _).symm List.mem_cons_self) List.not_mem_nil
  | cons r ls ih =>
    cases ms with
    | nil => exact absurd (mem (h _) List.mem_cons_self) List.not_mem_nil
    | cons s ms =>
      rw [List.pairwise_cons] at hl hm
      -- Each head is at the least place of its list, so the heads are of one place.
      have rs : t.place r ≤ t.place s := by
        rcases List.mem_cons.mp (mem (h _).symm List.mem_cons_self) with rfl | hs
        · exact le_refl _
        · exact hl.1 s hs
      have sr : t.place s ≤ t.place r := by
        rcases List.mem_cons.mp (mem (h _) List.mem_cons_self) with rfl | hr
        · exact le_refl _
        · exact hm.1 r hr
      have hp : t.place s = t.place r := le_antisymm sr rs
      have heads := h (t.place r)
      rw [List.filter_cons_of_pos (by simp), List.filter_cons_of_pos (by simpa using hp)] at heads
      obtain ⟨rfl, -⟩ := List.cons.inj heads
      refine congrArg (r :: ·) (ih hl.2 hm.2 fun k => ?_)
      have hk := h k
      rw [List.filter_cons, List.filter_cons] at hk
      split at hk
      · exact (List.cons.inj hk).2
      · exact hk

/-- Two lists in merge order are equal. -/
theorem IsMergeOrder.eq {t : Priority} {rs ls ms : List Record} (hl : t.IsMergeOrder rs ls)
    (hm : t.IsMergeOrder rs ms) : ls = ms :=
  eq_of_filter_eq hl.sorted hm.sorted fun k => (hl.stable k).trans (hm.stable k).symm

/-- `order` yields the list in merge order, and no other list is. -/
theorem isMergeOrder_iff (t : Priority) (rs ordered : List Record) :
    t.IsMergeOrder rs ordered ↔ ordered = t.order rs := by
  constructor
  · intro h
    exact h.eq (t.isMergeOrder_order rs)
  · rintro rfl
    exact t.isMergeOrder_order rs

/-- Where no two records have the same rank, it does not matter in which order they are given. -/
theorem order_eq_of_perm {t : Priority} {rs ss : List Record} (h : rs.Perm ss)
    (ranks : (rs.map fun r => t.rank? r.provider).Nodup) : t.order rs = t.order ss := by
  have hperm : (t.order rs).Perm (t.order ss) :=
    (t.order_perm rs).trans (h.trans (t.order_perm ss).symm)
  refine hperm.eq_of_pairwise (fun r s hr hs hrs hsr => ?_) (t.pairwise_order rs)
    (t.pairwise_order ss)
  -- Of two records of which either may stand before the other, the rank is the same.
  have hrank : t.rank? r.provider = t.rank? s.provider := before_antisymm hrs hsr
  have hr := (t.order_perm rs).mem_iff.mp hr
  have hs := h.mem_iff.mpr ((t.order_perm ss).mem_iff.mp hs)
  exact List.inj_on_of_nodup_map ranks hr hs hrank

end Federation.Merge.Priority
