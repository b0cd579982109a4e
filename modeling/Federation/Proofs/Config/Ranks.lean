import Federation.Proofs.Config.Validity
import Federation.Proofs.Merge.FirstSet
import Federation.Proofs.Merge.Ranks

/-!
# Configured ranks

A provider in a configuration that makes sense has one rank: the priority that is given for it, or
else its place in the list.  Two providers may have the same rank.  Then the list does not decide
between them; their records are merged in the order in which they are given to the merge.  That is
the order of the list only if the records are given in it.

## Key results

- `primary_resolve`: a value comes from the first candidate, whatever the strategy is
- `merge_ties`: which of two providers of equal rank comes first, and whose value counts
- `merge_ties_against_list`: the list does not decide
-/

namespace Federation

namespace Merge

/-- The value of a property comes from its first candidate, whether lists are united or not. -/
theorem Engine.primary_resolve (e : Engine) (p : Property) (cs : List Candidate) :
    ((e.resolve p cs).provenance?.bind Provenance.primary?) = cs.head?.map Candidate.provider := by
  unfold Engine.resolve
  split
  · cases cs <;> rfl
  · cases cs <;> rfl

/-- Records of one place are merged in the order in which they are given. -/
theorem Priority.sublist_order {t : Priority} {rs : List Record} {r s : Record}
    (hplace : t.place r = t.place s) (hgiven : [r, s].Sublist rs) : [r, s].Sublist (t.order rs) := by
  have hself : [r, s].filter (fun x => t.place x = t.place s) = [r, s] := by simp [hplace]
  have hfilter := hgiven.filter fun x => decide (t.place x = t.place s)
  rw [hself, ← filter_order] at hfilter
  exact hfilter.trans List.filter_sublist

/-- Each provider is a source once if each has at most one record. -/
theorem Engine.nodup_sources_merge (e : Engine) {rs : List Record}
    (h : (rs.map Record.provider).Nodup) : (e.merge rs).sources.Nodup := by
  rw [e.sources_merge]
  exact ((e.priority.order_perm rs).map Record.provider).nodup_iff.mpr h

/-- The value of a property comes from a record with a usable value, or from one before it. -/
theorem Engine.primary_merge (e : Engine) {rs : List Record} {p : Property} {r : Record}
    (hr : r ∈ rs) (husable : isUsable p r = true) :
    ∃ w, (((e.merge rs).get p).provenance?.bind Provenance.primary?) = some w ∧
      (w = r.provider ∨ [w, r.provider].Sublist (e.merge rs).sources) := by
  have hmem : r ∈ (e.priority.order rs).filter (isUsable p) :=
    List.mem_filter.mpr ⟨(e.priority.order_perm rs).mem_iff.mpr hr, husable⟩
  have hsources : (((e.priority.order rs).filter (isUsable p)).map Record.provider).Sublist
      (e.merge rs).sources := by
    rw [e.sources_merge]
    exact List.filter_sublist.map Record.provider
  have hproviders : (candidates p (e.priority.order rs)).map Candidate.provider =
      ((e.priority.order rs).filter (isUsable p)).map Record.provider :=
    map_eq_of_forall₂ ((forall₂_candidates p _).imp fun _ _ h => h.symm)
  rw [Engine.get_merge, Engine.primary_resolve, ← List.head?_map, hproviders]
  generalize (e.priority.order rs).filter (isUsable p) = usable at hmem hsources
  -- The value is that of the first usable record, which is this one or stands before it.
  cases usable with
  | nil => exact absurd hmem List.not_mem_nil
  | cons w rest =>
    refine ⟨w.provider, rfl, ?_⟩
    rcases List.mem_cons.mp hmem with rfl | hrest
    · exact .inl rfl
    · right
      have hpair : [w, r].Sublist (w :: rest) := (List.singleton_sublist.mpr hrest).cons_cons w
      exact (hpair.map Record.provider).trans hsources

end Merge

namespace Config

/-- Records of the same rank have their place in the merge order as they were given. -/
theorem place_eq_of_tie {c : Config} (h : (c.providers.map ProviderConfig.id).Nodup) {i j : Nat}
    {a b : ProviderConfig} (ha : c.providers[i]? = some a) (hb : c.providers[j]? = some b)
    (htie : a.priority.getD i = b.priority.getD j) {r s : Record} (hra : r.provider = a.id)
    (hsb : s.provider = b.id) :
    c.mergeEngine.priority.place r = c.mergeEngine.priority.place s := by
  rw [Merge.Priority.place_eq_iff, priority_mergeEngine, hra, hsb, rank?_priority h ha,
    rank?_priority h hb, htie]

/-- Two providers are in the order of the list. -/
theorem sublist_ids {c : Config} {i j : Nat} {a b : ProviderConfig}
    (ha : c.providers[i]? = some a) (hb : c.providers[j]? = some b) (hij : i < j) :
    [a.id, b.id].Sublist (c.providers.map ProviderConfig.id) := by
  obtain ⟨hi, rfl⟩ := List.getElem?_eq_some_iff.mp ha
  have hmem : b ∈ c.providers.drop (i + 1) := by
    apply List.mem_of_getElem? (i := j - (i + 1))
    rw [List.getElem?_drop, Nat.add_sub_cancel' hij]
    exact hb
  have hpair : [c.providers[i], b].Sublist c.providers := by
    refine List.Sublist.trans ?_ (List.drop_sublist i c.providers)
    rw [List.drop_eq_getElem_cons hi]
    exact (List.singleton_sublist.mpr hmem).cons_cons _
  exact hpair.map ProviderConfig.id

/-- Two providers of the same rank, be it that of a priority or of a place, stand in the merged user
    as their records were given, and a value of the one whose record was given first wins over the
    other's.  That is the order of the list if the records are given in it. -/
theorem merge_ties {c : Config} (hvalid : c.validate = .ok ()) {rs : List Record}
    (honce : (rs.map Record.provider).Nodup) {i j : Nat} {a b : ProviderConfig}
    (ha : c.providers[i]? = some a) (hb : c.providers[j]? = some b)
    (htie : a.priority.getD i = b.priority.getD j) {r s : Record} (hr : r ∈ rs) (hs : s ∈ rs)
    (hra : r.provider = a.id) (hsb : s.provider = b.id) :
    let user := c.mergeEngine.merge rs
    ([a.id, b.id].Sublist user.sources ↔ [r, s].Sublist rs) ∧
    ([r, s].Sublist rs → ∀ p, Merge.isUsable p r = true →
      ∃ w, ((user.get p).provenance?.bind Provenance.primary?) = some w ∧ w ≠ b.id ∧
        (w = a.id ∨ [w, a.id].Sublist user.sources)) ∧
    ((rs.map Record.provider).Sublist (c.providers.map ProviderConfig.id) → i < j →
      [r, s].Sublist rs) := by
  intro user
  have hids : (c.providers.map ProviderConfig.id).Nodup := nodup_of_validate hvalid
  have hplace := place_eq_of_tie hids ha hb htie hra hsb
  have hsources : user.sources = (c.mergeEngine.priority.order rs).map Record.provider :=
    c.mergeEngine.sources_merge rs
  have hnodup : user.sources.Nodup := c.mergeEngine.nodup_sources_merge honce
  have forward : [r, s].Sublist rs → [a.id, b.id].Sublist user.sources := by
    intro hgiven
    rw [hsources, ← hra, ← hsb]
    exact (Merge.Priority.sublist_order hplace hgiven).map Record.provider
  have backward : [s, r].Sublist rs → [b.id, a.id].Sublist user.sources := by
    intro hgiven
    rw [hsources, ← hra, ← hsb]
    exact (Merge.Priority.sublist_order hplace.symm hgiven).map Record.provider
  -- One record stands before the other, unless they are the same.
  have hgiven : a.id ≠ b.id → [r, s].Sublist rs ∨ [s, r].Sublist rs := by
    intro hne
    refine sublist_pair_or hr hs fun hrs => hne ?_
    rw [← hra, ← hsb, hrs]
  refine ⟨⟨fun hstand => ?_, forward⟩, fun hgiven p husable => ?value, fun hlist hij => ?list⟩
  · have hne : a.id ≠ b.id := by
      intro hab
      rw [hab] at hstand
      exact List.nodup_iff_sublist.mp hnodup _ hstand
    exact (hgiven hne).resolve_right fun h => not_sublist_swap hnodup hstand (backward h)
  case value =>
    have hstand := forward hgiven
    obtain ⟨w, hprimary, hw⟩ := c.mergeEngine.primary_merge hr husable
    rw [hra] at hw
    refine ⟨w, hprimary, ?_, hw⟩
    rintro rfl
    -- The value of `b` would win only if `b` stood at or before the place of `a`.
    rcases hw with hw | hw
    · rw [hw] at hstand
      exact List.nodup_iff_sublist.mp hnodup _ hstand
    · exact not_sublist_swap hnodup hstand hw
  case list =>
    have hlisted : [a.id, b.id].Sublist (c.providers.map ProviderConfig.id) := sublist_ids ha hb hij
    have hne : a.id ≠ b.id := by
      intro hab
      rw [hab] at hlisted
      exact List.nodup_iff_sublist.mp hids _ hlisted
    refine (hgiven hne).resolve_right fun h => ?_
    have hswapped := (h.map Record.provider).trans hlist
    simp only [List.map_cons, List.map_nil, hra, hsb] at hswapped
    exact not_sublist_swap hids hlisted hswapped

/-- A provider without a priority and one whose priority is the first one's place have the same rank.
    The first one stands second in the list, but its record was given first. -/
theorem merge_ties_given :
    let ldap : ProviderConfig := { id := ⟨"ldap"⟩, priority := some 5 }
    let google : ProviderConfig := { id := ⟨"google"⟩ }
    let okta : ProviderConfig := { id := ⟨"okta"⟩, priority := some 1 }
    let c : Config := { providers := [ldap, google, okta] }
    let said (a : ProviderConfig) (nickname : String) : Record :=
      (Record.blank ⟨a.id, "jdoe"⟩).answer .nickname (.text nickname)
    let rs := [said ldap "jd", said okta "j", said google "janed"]
    let user := c.mergeEngine.merge rs
    c.validate = .ok () ∧ (rs.map Record.provider).Nodup ∧
      okta.priority.getD 2 = google.priority.getD 1 ∧
      [okta.id, google.id].Sublist user.sources ∧
      ∃ w, ((user.get .nickname).provenance?.bind Provenance.primary?) = some w ∧ w ≠ google.id ∧
        (w = okta.id ∨ [w, okta.id].Sublist user.sources) := by
  intro ldap google okta c said rs user
  have hvalid : c.validate = .ok () := by cbv
  have honce : (rs.map Record.provider).Nodup := by decide
  -- The record of `okta` was given before that of `google`.
  have hgiven : [said okta "j", said google "janed"].Sublist rs :=
    List.sublist_cons_self _ _
  have hokta : said okta "j" ∈ rs := hgiven.subset List.mem_cons_self
  have hgoogle : said google "janed" ∈ rs := hgiven.subset (List.mem_cons_of_mem _ List.mem_cons_self)
  obtain ⟨hstand, hvalue, -⟩ := merge_ties hvalid honce (i := 2) (j := 1) (a := okta) (b := google)
    rfl rfl rfl hokta hgoogle rfl rfl
  exact ⟨hvalid, honce, rfl, hstand.mpr hgiven, hvalue hgiven .nickname rfl⟩

/-- The list does not decide between providers of the same rank: the first one in it may stand last,
    and its value lose. -/
theorem merge_ties_against_list :
    let ldap : ProviderConfig := { id := ⟨"ldap"⟩ }
    let google : ProviderConfig := { id := ⟨"google"⟩, priority := some 0 }
    let c : Config := { providers := [ldap, google] }
    let rs := [(Record.blank ⟨google.id, "g"⟩).answer .nickname (.text "janed"),
      (Record.blank ⟨ldap.id, "l"⟩).answer .nickname (.text "jd")]
    let user := c.mergeEngine.merge rs
    c.validate = .ok () ∧ (rs.map Record.provider).Perm (c.providers.map ProviderConfig.id) ∧
      ldap.priority.getD 0 = google.priority.getD 1 ∧
      user.sources = [google.id, ldap.id] ∧
      user.get .nickname = .resolved (.text "janed") (.provider google.id) [ldap.id] := by
  intro ldap google c rs user
  -- Both records have the same rank, so they are merged as they were given.
  have horder : c.mergeEngine.priority.order rs = rs := by
    apply Merge.Priority.order_stable
    decide
  have hvalid : c.validate = .ok () := by cbv
  refine ⟨hvalid, by decide, rfl, ?sources, ?nickname⟩
  case sources =>
    rw [Merge.Engine.sources_merge, horder]
    rfl
  case nickname =>
    rw [Merge.Engine.get_merge, horder]
    rfl

end Config

end Federation
