import Federation.Proofs.Merge.FirstSet

/-!
# Which properties are supported

A record can say four things about a property: nothing, that the property is unsupported, a value
that passes the check, and a value that does not.  The last is left out of the support with a
warning, so it does not count as support, although its provider has not declared the property
unsupported.

## Key results

- `mem_warnings_merge`: there is a warning for each value that does not pass, and for nothing else
- `isSupported_merge_iff`: which records make a property supported
- `isSupported_merge_spec`: how far being supported is from not being declared unsupported
-/

namespace Federation.Merge

/-- Whether a record reports a value of a property that does not pass its check. -/
def isMalformed (p : Property) (r : Record) : Bool :=
  (r.get p).value?.any fun v => !(p.check v).isOk

/-- A record that does not declare a property unsupported leaves it unset, has a usable value, or
    has a malformed one. -/
theorem ne_unsupported_iff (p : Property) (r : Record) :
    r.get p ≠ .unsupported ↔
      (r.get p = .unset ∨ isUsable p r = true) ∨ isMalformed p r = true := by
  unfold isUsable isMalformed
  cases r.get p with
  | unset => simp [Remote.value?]
  | unsupported => simp [Remote.value?]
  | set v => cases (p.check v).isOk <;> simp [Remote.value?]

/-- A record gives rise to a warning about a property exactly if its value is malformed. -/
theorem exists_warning?_iff (p : Property) (r : Record) :
    (∃ w, warning? p r = some w) ↔ isMalformed p r = true := by
  unfold warning? isMalformed
  cases r.get p with
  | unset => simp [Remote.value?]
  | unsupported => simp [Remote.value?]
  | set v =>
    cases hv : p.check v with
    | ok => simp [Remote.value?, hv, Except.isOk, Except.toBool]
    | error e => simp [Remote.value?, hv, Except.isOk, Except.toBool]

/-- A warning is about the property that was checked. -/
theorem property_of_warning? {p : Property} {r : Record} {w : MergeWarning}
    (h : warning? p r = some w) : w.property = p := by
  unfold warning? at h
  split at h
  · split at h
    · exact nomatch h
    · exact (Option.some.inj h) ▸ rfl
  · exact nomatch h

/-- The warnings of a merge are those of its records, property by property. -/
theorem mem_warnings_merge (e : Engine) (rs : List Record) (w : MergeWarning) :
    w ∈ (e.merge rs).warnings ↔ ∃ r ∈ rs, warning? w.property r = some w := by
  simp only [Engine.merge, warnings, List.mem_flatMap, List.mem_filterMap,
    (e.priority.order_perm rs).mem_iff]
  constructor
  · rintro ⟨p, -, r, hr, hw⟩
    obtain rfl := property_of_warning? hw
    exact ⟨r, hr, hw⟩
  · rintro ⟨r, hr, hw⟩
    exact ⟨w.property, w.property.mem_all, r, hr, hw⟩

/-- A property is supported exactly if some record leaves it unset or has a usable value. -/
theorem isSupported_merge_iff (e : Engine) (rs : List Record) (p : Property) :
    (e.merge rs).isSupported p = true ↔ ∃ r ∈ rs, r.get p = .unset ∨ isUsable p r = true := by
  have hcs : candidates p (e.priority.order rs) ≠ [] ↔
      ∃ r ∈ e.priority.order rs, isUsable p r = true := by
    have hlength := (forall₂_candidates p (e.priority.order rs)).length_eq
    rw [Ne, ← List.length_eq_zero_iff, ← hlength, List.length_eq_zero_iff, List.filter_eq_nil_iff]
    simp
  have hunset : (e.priority.order rs).filter (fun r => (r.get p).isUnset) ≠ [] ↔
      ∃ r ∈ e.priority.order rs, r.get p = .unset := by
    rw [Ne, List.filter_eq_nil_iff]
    simp only [not_forall, not_not, exists_prop]
    refine exists_congr fun r => and_congr_right fun _ => ?_
    cases r.get p <;> simp [Remote.isUnset]
  -- The merged user knows of providers that set the property, and of those that were not asked.
  have hsplit : (e.merge rs).isSupported p = true ↔
      candidates p (e.priority.order rs) ≠ [] ∨
        (e.priority.order rs).filter (fun r => (r.get p).isUnset) ≠ [] := by
    simp [LogicalUser.isSupported, Support.isSupported, Engine.merge, support]
  rw [hsplit, hcs, hunset]
  simp only [(e.priority.order_perm rs).mem_iff]
  constructor
  · rintro (⟨r, hr, h⟩ | ⟨r, hr, h⟩)
    · exact ⟨r, hr, .inr h⟩
    · exact ⟨r, hr, .inl h⟩
  · rintro ⟨r, hr, h | h⟩
    · exact .inr ⟨r, hr, h⟩
    · exact .inl ⟨r, hr, h⟩

/-- A property is supported exactly if some record leaves it unset or has a value that passes the
    check.  So some record does not declare it unsupported exactly if it is supported or there is a
    warning about it; without a warning, the two come to the same. -/
theorem isSupported_merge_spec (e : Engine) (rs : List Record) (p : Property) :
    ((e.merge rs).isSupported p = true ↔
      ∃ r ∈ rs, r.get p = .unset ∨ ∃ v, r.get p = .set v ∧ p.check v = .ok ()) ∧
    ((∃ r ∈ rs, r.get p ≠ .unsupported) ↔
      (e.merge rs).isSupported p = true ∨ ∃ w ∈ (e.merge rs).warnings, w.property = p) := by
  -- There is a warning exactly if some value is malformed, which is the one case that support
  -- leaves out.
  have hwarned : (∃ w ∈ (e.merge rs).warnings, w.property = p) ↔
      ∃ r ∈ rs, isMalformed p r = true := by
    simp only [mem_warnings_merge, ← exists_warning?_iff]
    constructor
    · rintro ⟨w, ⟨r, hr, hw⟩, rfl⟩
      exact ⟨r, hr, w, hw⟩
    · rintro ⟨r, hr, w, hw⟩
      obtain rfl := property_of_warning? hw
      exact ⟨w, ⟨r, hr, hw⟩, rfl⟩
  refine ⟨?_, ?_⟩
  · simp only [isSupported_merge_iff, isUsable_iff]
  · rw [isSupported_merge_iff, hwarned]
    simp only [ne_unsupported_iff]
    constructor
    · rintro ⟨r, hr, h | h⟩
      · exact .inl ⟨r, hr, h⟩
      · exact .inr ⟨r, hr, h⟩
    · rintro (⟨r, hr, h⟩ | ⟨r, hr, h⟩)
      · exact ⟨r, hr, .inl h⟩
      · exact ⟨r, hr, .inr h⟩

/-- The only provider reports a text where a flag is expected: it has not declared the property
    unsupported, but the property is not supported. -/
theorem not_isSupported_malformed :
    let r : Record := (Record.blank ⟨⟨"ldap"⟩, "jdoe"⟩).answer .isSuspended (.text "yes")
    r.get .isSuspended ≠ .unsupported ∧
      (({} : Engine).merge [r]).isSupported .isSuspended = false := by
  intro r
  refine ⟨nofun, Bool.eq_false_iff.mpr fun h => ?_⟩
  obtain ⟨s, hs, h⟩ := (isSupported_merge_iff _ _ _).mp h
  obtain rfl := List.mem_singleton.mp hs
  rcases h with h | h
  · exact nomatch h
  · exact nomatch (show false = true from h)

end Federation.Merge
