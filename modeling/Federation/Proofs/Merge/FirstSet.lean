import Federation.Merge.Engine
import Federation.Proofs.Merge.Order
import Mathlib.Data.List.Forall2

/-!
# Properties that the first value decides

A property that is not united is resolved from the records in merge order alone: the first record
with a usable value wins, and the later ones that disagree with it are listed as overridden.  A
value is usable if it passes the check of its property; what a record says otherwise (nothing, that
the property is unsupported, or a value that does not pass) makes no difference.

## Key results

- `forall₂_candidates`: the candidates are the usable records, one by one
- `get_merge_firstSet`: which value wins, where it comes from and whom it overrides
-/

namespace Federation.Merge

/-- Whether a record reports a value of a property that passes its check. -/
def isUsable (p : Property) (r : Record) : Bool :=
  (r.get p).value?.any fun v => (p.check v).isOk

/-- A record has a usable value of a property if it says one that passes the check. -/
theorem isUsable_iff (p : Property) (r : Record) :
    isUsable p r = true ↔ ∃ v, r.get p = .set v ∧ p.check v = .ok () := by
  unfold isUsable
  cases hr : r.get p with
  | unset => simp [Remote.value?]
  | unsupported => simp [Remote.value?]
  | set v => cases hv : p.check v <;> simp [Remote.value?, Except.isOk, Except.toBool, hv]

/-- A record with a usable value is a candidate with that value. -/
private theorem candidate?_of_isUsable {p : Property} {r : Record} (h : isUsable p r = true) :
    ∃ c, candidate? p r = some c ∧ r.get p = .set c.value ∧ c.provider = r.provider := by
  obtain ⟨v, hr, hv⟩ := (isUsable_iff p r).mp h
  exact ⟨⟨r.provider, v⟩, by simp [candidate?, hr, hv], hr, rfl⟩

/-- A record without a usable value is no candidate. -/
private theorem candidate?_of_not_isUsable {p : Property} {r : Record}
    (h : isUsable p r = false) : candidate? p r = none := by
  have h : ¬∃ v, r.get p = .set v ∧ p.check v = .ok () := by
    rw [← isUsable_iff, h]; exact Bool.false_ne_true
  unfold candidate?
  split
  · next v hr =>
    split
    · next hv => exact absurd ⟨v, hr, hv⟩ h
    · rfl
  · rfl

/-- The candidates are the records with a usable value, one by one. -/
theorem forall₂_candidates (p : Property) (rs : List Record) :
    List.Forall₂ (fun r c => r.get p = .set c.value ∧ c.provider = r.provider)
      (rs.filter (isUsable p)) (candidates p rs) := by
  induction rs with
  | nil => exact .nil
  | cons r rs ih =>
    unfold candidates at ih ⊢
    cases hr : isUsable p r with
    | true =>
      obtain ⟨c, hc, hrc⟩ := candidate?_of_isUsable hr
      rw [List.filter_cons_of_pos hr, List.filterMap_cons_some hc]
      exact .cons hrc ih
    | false =>
      rw [List.filter_cons_of_neg (by simp [hr]),
        List.filterMap_cons_none (candidate?_of_not_isUsable hr)]
      exact ih

/-- The candidates that disagree with a value come from the records that do. -/
private theorem map_provider_filter_ne {p : Property} {rs : List Record} {cs : List Candidate}
    (h : List.Forall₂ (fun r c => r.get p = .set c.value ∧ c.provider = r.provider) rs cs)
    (v : Value) :
    (cs.filter fun d => d.value ≠ v).map Candidate.provider =
      (rs.filter fun r => r.get p ≠ .set v).map Record.provider := by
  induction h with
  | nil => rfl
  | @cons r c _ _ hrc _ ih =>
    obtain ⟨hr, hc⟩ := hrc
    by_cases hv : c.value = v
    · simpa [hr, hv] using ih
    · simpa [hr, hv, hc] using ih

/-- What the first of some records with a usable value decides. -/
private theorem resolveFirst_candidates {p : Property} {ordered rest : List Record} {w : Record}
    (h : ordered.filter (isUsable p) = w :: rest) :
    ∃ v, w.get p = .set v ∧
      resolveFirst (!p.isLocal) (candidates p ordered) =
        .resolved v (.provider w.provider)
          (if p = .id then [] else
            (rest.filter fun r => r.get p ≠ .set v).map Record.provider) := by
  have hc := forall₂_candidates p ordered
  rw [h] at hc
  -- The first candidate comes from the first record with a usable value.
  cases hcs : candidates p ordered with
  | nil => rw [hcs] at hc; exact nomatch hc
  | cons c cs =>
    rw [hcs] at hc
    obtain ⟨⟨hw, hcw⟩, hrest⟩ := List.forall₂_cons.mp hc
    refine ⟨c.value, hw, ?_⟩
    rw [resolveFirst, hcw, map_provider_filter_ne hrest]
    cases p <;> rfl

/-- A property whose strategy is `firstSet`, or is `union` although the property has no lists, is
    resolved from the records with a usable value in merge order.  If there is none, it is not
    reported.  Otherwise the first one wins, and the providers of the later ones with another value
    are overridden, unless the property is the identifier. -/
theorem get_merge_firstSet (e : Engine) (rs : List Record) (p : Property)
    (h : e.strategy p = .firstSet ∨ (e.strategy p = .union ∧ p.kind ≠ .textList)) :
    ∃ ordered,
      (∀ other, e.priority.IsMergeOrder rs other ↔ other = ordered) ∧
      (ordered.filter (isUsable p) = [] → (e.merge rs).get p = .notReported) ∧
      ∀ w rest, ordered.filter (isUsable p) = w :: rest →
        ∃ v, w.get p = .set v ∧
          (e.merge rs).get p =
            .resolved v (.provider w.provider)
              (if p = .id then [] else
                (rest.filter fun r => r.get p ≠ .set v).map Record.provider) := by
  -- Either strategy comes to the same for such a property.
  have hres : ∀ cs, e.resolve p cs = resolveFirst (!p.isLocal) cs := by
    intro cs
    unfold Engine.resolve
    rw [if_neg]
    rintro ⟨hs, hk⟩
    rcases h with h | ⟨_, h⟩
    · exact nomatch h.symm.trans hs
    · exact h hk
  refine ⟨e.priority.order rs, e.priority.isMergeOrder_iff rs, ?_, ?_⟩
  · intro hnil
    have hc := forall₂_candidates p (e.priority.order rs)
    rw [hnil, List.forall₂_nil_left_iff] at hc
    rw [Engine.get_merge, hres, hc, resolveFirst]
  · intro w rest hw
    rw [Engine.get_merge, hres]
    exact resolveFirst_candidates hw

/-- Of three providers that report a nickname, the last, which has no rank, agrees with the
    first. -/
theorem get_merge_firstSet_nickname :
    let said (p nickname : String) : Record :=
      (Record.blank ⟨⟨p⟩, "jdoe"⟩).answer .nickname (.text nickname)
    let e : Engine := { priority := .ofOrder [⟨"ldap"⟩, ⟨"google"⟩] }
    e.strategy .nickname = .firstSet ∧
      (e.merge [said "ldap" "jd", said "google" "janed", said "github" "jd"]).get .nickname =
        .resolved (.text "jd") (.provider ⟨"ldap"⟩) [⟨"google"⟩] := by
  intro said e
  have h : e.strategy .nickname = .firstSet := rfl
  refine ⟨h, ?_⟩
  let rs := [said "ldap" "jd", said "google" "janed", said "github" "jd"]
  obtain ⟨ordered, hordered, -, hfirst⟩ := get_merge_firstSet e rs .nickname (.inl h)
  -- A provider without a rank comes last, so the records are merged as they were given.
  have horder : e.priority.order rs = rs := Priority.order_stable (by decide)
  obtain rfl := (hordered rs).mp ((e.priority.isMergeOrder_iff rs rs).mpr horder.symm)
  obtain ⟨v, hv, hget⟩ := hfirst (said "ldap" "jd") (rs.drop 1) rfl
  obtain rfl := Remote.set.inj hv
  exact hget

end Federation.Merge
