import Federation.Merge.Tally
import Federation.Proofs.Lists
import Federation.Proofs.Merge.Support

/-!
# What becomes of each report

A merge reads every property of every record once.  What it reads is put down in one of four places:
the provider is listed as having set the property, as not supporting it, or as not having been asked,
or there is a warning about its value.  So nothing is lost and nothing is counted twice.

## Key results

- `foldl_read`: the tally of a property after any number of records
- `foldl_addProperty`: the draft of a user after any number of properties
- `mergeObserved_eq`: the loop yields the merged user, and the observer is told of its warnings
- `merge_eq_of_perm`: records of different ranks may be given in any order
- `filter_warnings_merge`, `forall₂_warnings`: the warnings about a property, record by record
- `perm_of_reports`: the four kinds of report make up all records
- `mergeObserved_spec`: the account of a merge
-/

namespace Federation.Merge

/-- One more record goes to the tally of those before it. -/
private theorem read_tally (p : Property) (rs : List Record) (r : Record)
    (ws told : List MergeWarning) :
    Tally.read p
        ⟨support p rs, candidates p rs, ws ++ warnings p rs, told ++ warnings p rs⟩ r =
      ⟨support p (rs ++ [r]), candidates p (rs ++ [r]), ws ++ warnings p (rs ++ [r]),
        told ++ warnings p (rs ++ [r])⟩ := by
  rw [candidates_append, warnings_append]
  unfold Tally.read support
  rw [candidates_append]
  cases hr : r.get p with
  | unset => simp [candidates, candidate?, warnings, warning?, hr, Remote.isUnset,
      Remote.isUnsupported]
  | unsupported => simp [candidates, candidate?, warnings, warning?, hr, Remote.isUnset,
      Remote.isUnsupported]
  | set v =>
    cases hv : p.check v <;>
      simp [candidates, candidate?, warnings, warning?, hr, hv, Remote.isUnset,
        Remote.isUnsupported]

/-- After any number of records, the tally of a property holds what they say about it. -/
theorem foldl_read (p : Property) (rs : List Record) (ws told : List MergeWarning) :
    rs.foldl (Tally.read p) { warnings := ws, told := told } =
      ⟨support p rs, candidates p rs, ws ++ warnings p rs, told ++ warnings p rs⟩ := by
  -- Records are read from the left, so the induction takes the last one off.
  induction rs using List.reverseRecOn with
  | nil => simp [support, candidates, warnings]
  | append_singleton rs r ih => rw [List.foldl_concat, ih, read_tally]

/-- After any number of properties, each of them is resolved, and the observer was told of the
    warnings about them. -/
theorem foldl_addProperty (e : Engine) (ordered : List Record) (ps : List Property) :
    ps.foldl (e.addProperty ordered) (.start ordered) =
      { user :=
          { get := fun q => if q ∈ ps then e.resolve q (candidates q ordered) else .notReported
            support := fun q => if q ∈ ps then support q ordered else {}
            warnings := ps.flatMap fun q => warnings q ordered
            accounts := ordered.map Record.account }
        told := ps.flatMap fun q => warnings q ordered } := by
  -- Induction on the properties from the end: the last one is added to what the others have come
  -- to.
  induction ps using List.reverseRecOn with
  | nil => rfl
  | append_singleton ps p ih =>
    rw [List.foldl_concat, ih, Engine.addProperty, foldl_read]
    have hget (q : Property) :
        (if q = p then e.resolve p (candidates p ordered)
          else if q ∈ ps then e.resolve q (candidates q ordered) else .notReported) =
        if q ∈ ps ++ [p] then e.resolve q (candidates q ordered) else .notReported := by
      by_cases hq : q = p <;> simp [hq]
    have hsupport (q : Property) :
        (if q = p then support p ordered else if q ∈ ps then support q ordered else {}) =
        if q ∈ ps ++ [p] then support q ordered else {} := by
      by_cases hq : q = p <;> simp [hq]
    simp only [hget, hsupport, List.flatMap_append, List.flatMap_singleton]

/-- The loop yields the merged user, and the observer is told of the user's warnings. -/
theorem mergeObserved_eq (e : Engine) (rs : List Record) :
    e.mergeObserved rs = (e.merge rs, (e.merge rs).warnings) := by
  unfold Engine.mergeObserved
  simp only [foldl_addProperty, Property.mem_all, if_true]
  rfl

/-- Where no two records have the same rank, the merged user does not depend on their order. -/
theorem merge_eq_of_perm (e : Engine) {rs ss : List Record} (h : rs.Perm ss)
    (ranks : (rs.map fun r => e.priority.rank? r.provider).Nodup) : e.merge rs = e.merge ss := by
  unfold Engine.merge
  rw [Priority.order_eq_of_perm h ranks]

/-- The warnings of a merge about one property are those that its records give rise to. -/
theorem filter_warnings_merge (e : Engine) (rs : List Record) (p : Property) :
    ((e.merge rs).warnings.filter fun w => w.property = p) = warnings p (e.priority.order rs) := by
  have about (q : Property) : (warnings q (e.priority.order rs)).filter (fun w => w.property = p) =
      if q = p then warnings q (e.priority.order rs) else [] := by
    have hq : ∀ w ∈ warnings q (e.priority.order rs), w.property = q := by
      intro w hw
      obtain ⟨r, -, hr⟩ := List.mem_filterMap.mp hw
      exact property_of_warning? hr
    split
    · next h => exact List.filter_eq_self.mpr fun w hw => by simpa [h] using hq w hw
    · next h => exact List.filter_eq_nil_iff.mpr fun w hw => by simpa [hq w hw] using h
  show (Property.all.flatMap fun q => warnings q (e.priority.order rs)).filter _ = _
  simp only [List.filter_flatMap, about]
  cases p <;> simp [Property.all]

/-- The warnings about a property go along with the records whose value does not pass the check. -/
theorem forall₂_warnings (p : Property) (rs : List Record) :
    List.Forall₂
      (fun r w => w.provider = r.provider ∧ ∃ v, r.get p = .set v ∧ p.check v = .error w.mismatch)
      (rs.filter (isMalformed p)) (warnings p rs) := by
  induction rs with
  | nil => exact .nil
  | cons r rs ih =>
    unfold warnings at ih ⊢
    -- Each record has either no warning and a value that passes, or one warning and a value that
    -- does not.
    cases hw : warning? p r with
    | none =>
      have hr : isMalformed p r = false := by
        rw [Bool.eq_false_iff, Ne, ← exists_warning?_iff, hw]
        exact nofun
      rw [List.filter_cons_of_neg (by simp [hr]), List.filterMap_cons_none hw]
      exact ih
    | some w =>
      rw [List.filter_cons_of_pos ((exists_warning?_iff p r).mp ⟨w, hw⟩),
        List.filterMap_cons_some hw]
      refine .cons ?_ ih
      unfold warning? at hw
      split at hw
      · next v hr =>
        split at hw
        · exact nomatch hw
        · next m hv =>
          obtain rfl := Option.some.inj hw
          exact ⟨rfl, v, hr, hv⟩
      · exact nomatch hw

/-- Of two conditions that exclude each other, the elements that fulfil one and those that fulfil
    the other are the elements that fulfil either. -/
private theorem filter_append_filter_perm {α : Type} {f g : α → Bool}
    (h : ∀ x, f x = true → g x = false) (xs : List α) :
    (xs.filter f ++ xs.filter g).Perm (xs.filter fun x => f x || g x) := by
  induction xs with
  | nil => exact .nil
  | cons x xs ih =>
    cases hf : f x with
    | true => simpa [List.filter_cons, hf, h x hf] using ih
    | false =>
      cases hg : g x with
      | true => simpa [List.filter_cons, hf, hg] using List.perm_middle.trans (ih.cons x)
      | false => simpa [List.filter_cons, hf, hg] using ih

/-- Records with a usable value, those that declare a property unsupported, those that leave it
    unset and those with a malformed value make up all records. -/
theorem perm_of_reports (p : Property) (rs : List Record) :
    (rs.filter (isUsable p) ++ rs.filter (fun r => r.get p = .unsupported) ++
      rs.filter (fun r => r.get p = .unset) ++ rs.filter (isMalformed p)).Perm rs := by
  -- Take in one kind of report after the other; no two of them overlap.
  have hunsupported := filter_append_filter_perm (f := isUsable p)
    (g := fun r => r.get p = .unsupported)
    (fun r h => by obtain ⟨v, hv, -⟩ := (isUsable_iff p r).mp h; simp [hv]) rs
  have hunset := filter_append_filter_perm
    (f := fun r => isUsable p r || decide (r.get p = .unsupported))
    (g := fun r => r.get p = .unset)
    (fun r => by cases hr : r.get p <;> simp [isUsable, hr, Remote.value?]) rs
  have hmalformed := filter_append_filter_perm
    (f := fun r => isUsable p r || decide (r.get p = .unsupported) || decide (r.get p = .unset))
    (g := isMalformed p)
    (fun r => by cases hr : r.get p <;> simp [isUsable, isMalformed, hr, Remote.value?]) rs
  have hall : ∀ r ∈ rs, (isUsable p r || decide (r.get p = .unsupported) ||
      decide (r.get p = .unset) || isMalformed p r) = true := by
    intro r _
    have h := ne_unsupported_iff p r
    grind
  rw [List.filter_eq_self.mpr hall] at hmalformed
  exact ((hunsupported.append_right _).trans hunset).append_right _ |>.trans hmalformed

/-- The account of a merge.  The loop yields the merged user, and the observer is told of exactly
    the user's warnings, in their order.  The warnings stand by property, and those about one
    property in merge order.  For each property, every record is in one of four lists, each of them
    in merge order: the provider is listed as having set the property if its value passes the check,
    as not supporting it or as not having been asked if that is what the record says, and there is
    a warning, which carries the reason, if its value does not pass. -/
theorem mergeObserved_spec (e : Engine) (rs : List Record) :
    ∃ ordered user, (∀ other, e.priority.IsMergeOrder rs other ↔ other = ordered) ∧
      e.mergeObserved rs = (user, user.warnings) ∧ e.merge rs = user ∧
      user.sources = ordered.map Record.provider ∧
      user.warnings = Property.all.flatMap (fun p => user.warnings.filter fun w => w.property = p) ∧
      ∀ p,
        let warned := user.warnings.filter fun w => w.property = p
        (user.support p).setBy = (ordered.filter (isUsable p)).map Record.provider ∧
        (user.support p).unsupportedBy =
          (ordered.filter fun r => r.get p = .unsupported).map Record.provider ∧
        (user.support p).unsetBy = (ordered.filter fun r => r.get p = .unset).map Record.provider ∧
        List.Forall₂
          (fun r w =>
            w.provider = r.provider ∧ ∃ v, r.get p = .set v ∧ p.check v = .error w.mismatch)
          (ordered.filter (isMalformed p)) warned ∧
        ((user.support p).setBy ++ (user.support p).unsupportedBy ++ (user.support p).unsetBy ++
          warned.map MergeWarning.provider).Perm user.sources := by
  let ordered := e.priority.order rs
  have hsources : (e.merge rs).sources = ordered.map Record.provider := List.map_map ..
  refine ⟨ordered, e.merge rs, e.priority.isMergeOrder_iff rs, mergeObserved_eq e rs, rfl, hsources,
    ?_, fun p => ?_⟩
  · simp only [filter_warnings_merge]
    rfl
  -- Each of the four lists is a filter of the records in merge order.
  have hset : ((e.merge rs).support p).setBy = (ordered.filter (isUsable p)).map Record.provider :=
    map_eq_of_forall₂ ((forall₂_candidates p ordered).imp fun _ _ h => h.symm)
  have hunsupported : ((e.merge rs).support p).unsupportedBy =
      (ordered.filter fun r => r.get p = .unsupported).map Record.provider :=
    congrArg (List.map Record.provider) (List.filter_congr fun r _ => by
      cases r.get p <;> simp [Remote.isUnsupported])
  have hunset : ((e.merge rs).support p).unsetBy =
      (ordered.filter fun r => r.get p = .unset).map Record.provider :=
    congrArg (List.map Record.provider) (List.filter_congr fun r _ => by
      cases r.get p <;> simp [Remote.isUnset])
  have hwarned := forall₂_warnings p ordered
  simp only [filter_warnings_merge]
  refine ⟨hset, hunsupported, hunset, hwarned, ?_⟩
  rw [hset, hunsupported, hunset, map_eq_of_forall₂ hwarned, hsources, ← List.map_append,
    ← List.map_append, ← List.map_append]
  exact (perm_of_reports p ordered).map _

end Federation.Merge
