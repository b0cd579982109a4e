import Federation.Merge.Engine
import Federation.Proofs.Merge.Order

/-!
# What matters of ranks

A merge sees the ranks of the providers only through the order into which they bring the records.
So ranks may be replaced by others that compare in the same way, however far apart these are, and
records may be given in any other order, as long as those of equal rank are given in the same order
among themselves.

## Key results

- `Matches.place_le_iff`: ranks that match put records before each other in the same way
- `order_eq_of_matches`: ranks that match bring records into the same order
- `merge_eq_of_matches`: the merged user depends on nothing else
-/

namespace Federation.Merge

namespace Priority

/-- Two priorities rank the same providers, and compare any two of them in the same way. -/
structure Matches (t u : Priority) : Prop where
  ranked : ∀ p, (t.rank? p).isSome = (u.rank? p).isSome
  compared : ∀ p q i j i' j', t.rank? p = some i → t.rank? q = some j →
    u.rank? p = some i' → u.rank? q = some j' → (i ≤ j ↔ i' ≤ j')

/-- The same records are given in another order, in which those of equal rank stand as before.  All
    records of providers without a rank count as equal. -/
structure Reorders (t : Priority) (rs ss : List Record) : Prop where
  perm : ss.Perm rs
  ties : ∀ rank, ss.filter (fun r => t.rank? r.provider = rank) =
    rs.filter fun r => t.rank? r.provider = rank

variable {t u : Priority} {rs ss : List Record}

/-- Records are at the same place exactly if their providers have the same rank, or none. -/
theorem place_eq_iff (t : Priority) (r s : Record) :
    t.place r = t.place s ↔ t.rank? r.provider = t.rank? s.provider := by
  unfold place
  cases t.rank? r.provider <;> cases t.rank? s.provider <;> simp

/-- Where ranks match, the same records are not placed behind others. -/
theorem Matches.place_le_iff (h : t.Matches u) (r s : Record) :
    t.place r ≤ t.place s ↔ u.place r ≤ u.place s := by
  have hr := h.ranked r.provider
  have hs := h.ranked s.provider
  have hcompared := h.compared r.provider s.provider
  unfold place
  cases htr : t.rank? r.provider with
  | none =>
    cases hur : u.rank? r.provider with
    | some j => simp [htr, hur] at hr
    | none =>
      -- A record without a rank stands before no record with one.
      cases hts : t.rank? s.provider <;> cases hus : u.rank? s.provider <;> simp_all
  | some i =>
    cases hur : u.rank? r.provider with
    | none => simp [htr, hur] at hr
    | some i' =>
      cases hts : t.rank? s.provider with
      | none =>
        cases hus : u.rank? s.provider <;> simp_all
      | some j =>
        cases hus : u.rank? s.provider with
        | none => simp [hts, hus] at hs
        | some j' =>
          have hle : i ≤ j ↔ i' ≤ j' := hcompared i j i' j' htr hts hur hus
          simpa using hle

/-- Where ranks match, the same records are placed alike. -/
theorem Matches.place_eq_iff (h : t.Matches u) (r s : Record) :
    t.place r = t.place s ↔ u.place r = u.place s := by
  rw [le_antisymm_iff, le_antisymm_iff, h.place_le_iff, h.place_le_iff]

/-- Ranks that match bring records into the same order, if those of equal rank are given in the
    same order. -/
theorem order_eq_of_matches (hranks : t.Matches u) (hgiven : t.Reorders rs ss) :
    t.order rs = u.order ss := by
  apply (u.isMergeOrder_iff ss (t.order rs)).mp
  refine ⟨(t.order_perm rs).trans hgiven.perm.symm, ?sorted, ?stable⟩
  case sorted =>
    have hsorted := (t.isMergeOrder_order rs).sorted
    exact hsorted.imp fun hle => (hranks.place_le_iff _ _).mp hle
  case stable =>
    intro k
    -- Either some record has the place `k`, and then it has a place in the other order as well ...
    by_cases hk : ∃ r, u.place r = k
    · obtain ⟨r, rfl⟩ := hk
      have hplace (s : Record) : (u.place s = u.place r) = (t.place s = t.place r) :=
        propext (hranks.place_eq_iff s r).symm
      have hrank (s : Record) :
          (t.place s = t.place r) = (t.rank? s.provider = t.rank? r.provider) :=
        propext (place_eq_iff t s r)
      simp only [hplace]
      rw [filter_order]
      simp only [hrank]
      exact (hgiven.ties _).symm
    -- ... or no record has, and there is nothing to be compared.
    · have hnone (xs : List Record) : xs.filter (fun r => u.place r = k) = [] := by
        apply List.filter_eq_nil_iff.mpr
        intro r _ hr
        exact hk ⟨r, of_decide_eq_true hr⟩
      rw [hnone, hnone]

end Priority

/-- The merged user depends on the ranks and on the order in which records are given only through
    the merge order.  It stays the same if the ranks are replaced by others that match, and if the
    records are given in another order in which those of equal rank stand as before. -/
theorem merge_eq_of_matches (strategies : Table Property Strategy) {t u : Priority}
    {rs ss : List Record} (hranks : t.Matches u) (hgiven : t.Reorders rs ss) :
    ({ priority := t, strategies := strategies } : Engine).merge rs =
      ({ priority := u, strategies := strategies } : Engine).merge ss := by
  have horder : t.order rs = u.order ss := Priority.order_eq_of_matches hranks hgiven
  simp only [Engine.merge, horder]
  rfl

/-- Of five providers, two share the least rank there is, one has the greatest, and two have none.
    The same user is merged by ranks that are close to each other, from the same records in another
    order. -/
theorem merge_eq_of_matches_extremes :
    let said (e : String × String) : Record :=
      (Record.blank ⟨⟨e.1⟩, "jdoe"⟩).answer .nickname (.text e.2)
    let least : Int := -9223372036854775808
    let greatest : Int := 9223372036854775807
    let ranked (i j : Int) : Priority :=
      (({} : Priority).withRank ⟨"ldap"⟩ i).withRank ⟨"okta"⟩ i |>.withRank ⟨"google"⟩ j
    let rs := [("github", "jd"), ("google", "janed"), ("ldap", "jane"), ("okta", "j"),
      ("slack", "doe")].map said
    let ss := [("ldap", "jane"), ("github", "jd"), ("slack", "doe"), ("okta", "j"),
      ("google", "janed")].map said
    (ranked least greatest).Matches (ranked 0 1) ∧ (ranked least greatest).Reorders rs ss ∧
      ({ priority := ranked least greatest } : Engine).merge rs =
        ({ priority := ranked 0 1 } : Engine).merge ss := by
  intro said least greatest ranked rs ss
  have hrank (i j : Int) (p : ProviderId) : (ranked i j).rank? p =
      if p = ⟨"google"⟩ then some j
      else if p = ⟨"okta"⟩ then some i
      else if p = ⟨"ldap"⟩ then some i else none := by
    simp only [ranked, Priority.rank?_withRank]
    rfl
  -- Both give ranks to the same providers and compare them in the same way.
  have hranks : (ranked least greatest).Matches (ranked 0 1) := by
    refine ⟨fun p => ?_, fun p q i j i' j' => ?_⟩
    · rw [hrank, hrank]
      split_ifs <;> rfl
    · simp only [hrank]
      split_ifs <;> grind
  have hgiven : (ranked least greatest).Reorders rs ss := by
    refine ⟨List.Perm.map said (by decide), fun rank => ?_⟩
    -- The providers have one of two ranks, or none.
    by_cases hleast : rank = some least
    · subst hleast
      rfl
    by_cases hgreatest : rank = some greatest
    · subst hgreatest
      rfl
    by_cases hnone : rank = none
    · subst hnone
      rfl
    have hempty (es : List (String × String)) : (es.map said).filter
        (fun r => (ranked least greatest).rank? r.provider = rank) = [] := by
      apply List.filter_eq_nil_iff.mpr
      intro r _
      rw [hrank]
      grind
    rw [hempty, hempty]
  exact ⟨hranks, hgiven, merge_eq_of_matches Table.empty hranks hgiven⟩

end Federation.Merge
