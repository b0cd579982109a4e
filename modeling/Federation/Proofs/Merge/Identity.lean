import Federation.Proofs.Merge.Support
import Federation.Proofs.Record

/-!
# The identifiers of a merged user

A record tells its identifier twice: as that of its account, and as a property.  The two agree in
every record that was built, whatever statements it was built from.  So the merge can rely on the
property: no record is left out of it, the first record decides it, and nobody disagrees, because
identifiers of different directories are no disagreement.

## Key results

- `candidates_id`: every record is a candidate for the identifier
- `Engine.get_merge_id`: the first record decides the identifier
- `Engine.localId?_merge`: the identifier inside a provider is that of its first record
- `identity_spec`: what a record says when it is built, and what the merge makes of its identifier
-/

namespace Federation.Merge

/-- A record tells the identifier of its account as a property. -/
def IsIdentified (r : Record) : Prop := r.get .id = .set (.text r.localId)

variable {rs : List Record} {r : Record}

/-- A record that is built from statements reports the identifier of its account. -/
theorem isIdentified_ofStatements (a : Account) (ss : List Record.Statement) :
    IsIdentified (Record.ofStatements a ss) := by
  rw [IsIdentified, Record.ofStatements_eq, Record.get_id_ofReports, Record.localId,
    Record.account_ofReports]

/-- Every record is a candidate for the identifier. -/
theorem candidates_id (h : ∀ r ∈ rs, IsIdentified r) :
    candidates .id rs = rs.map fun r => ⟨r.provider, .text r.localId⟩ := by
  rw [candidates, ← List.filterMap_eq_map]
  refine List.filterMap_congr fun r hr => ?_
  have hid : r.get .id = .set (.text r.localId) := h r hr
  rw [candidate?, hid]
  rfl

/-- Nobody is warned about the identifier of such a record. -/
theorem warning?_id (h : IsIdentified r) : warning? .id r = none := by
  have hid : r.get .id = .set (.text r.localId) := h
  rw [warning?, hid]
  rfl

/-- Nobody is warned about an identifier. -/
theorem Engine.property_ne_id_of_mem_warnings (e : Engine) (h : ∀ r ∈ rs, IsIdentified r)
    {w : MergeWarning} (hw : w ∈ (e.merge rs).warnings) : w.property ≠ .id := by
  intro hproperty
  obtain ⟨r, hr, hwarning⟩ := (mem_warnings_merge e rs w).mp hw
  rw [hproperty, warning?_id (h r hr)] at hwarning
  cases hwarning

/-- The first record decides the identifier, whatever the strategies are. -/
theorem Engine.get_merge_id (e : Engine) (h : ∀ r ∈ rs, IsIdentified r) :
    (e.merge rs).get .id =
      match e.priority.order rs with
      | [] => .notReported
      | r :: _ => .resolved (.text r.localId) (.provider r.provider) [] := by
  have hordered : ∀ r ∈ e.priority.order rs, IsIdentified r :=
    fun r hr => h r ((e.priority.order_perm rs).mem_iff.mp hr)
  -- The identifier is no list, so no strategy makes a union of it.
  rw [Engine.get_merge, Engine.resolve, candidates_id hordered,
    if_neg fun hunion => nomatch hunion.2]
  cases e.priority.order rs <;> rfl

/-- The identifier inside a provider is that of its first record. -/
theorem Engine.localId?_merge (e : Engine) (rs : List Record) (p : ProviderId) :
    (e.merge rs).localId? p =
      ((e.priority.order rs).find? fun r => r.provider = p).map Record.localId := by
  rw [LogicalUser.localId?, Engine.merge, List.find?_map, Option.map_map]
  rfl

/-- Every source has a first record, and is known by its identifier. -/
theorem Engine.localId?_merge_of_mem (e : Engine) {p : ProviderId}
    (hp : p ∈ (e.merge rs).sources) :
    ∃ r, (e.priority.order rs).find? (fun r => r.provider = p) = some r ∧
      (e.merge rs).localId? p = some r.localId := by
  rw [sources_merge] at hp
  obtain ⟨s, hs, hprovider⟩ := List.mem_map.mp hp
  obtain ⟨r, hr⟩ := Option.isSome_iff_exists.mp
    (List.find?_isSome (p := fun r : Record => r.provider = p) |>.mpr
      ⟨s, hs, decide_eq_true hprovider⟩)
  exact ⟨r, hr, by rw [localId?_merge, hr]; rfl⟩

/-- A record that is built from statements has the identifier of its account, whatever they say of
    it.  Of every other property it says what the last statement about it says, and nothing if there
    is none; and the properties of which it says something are listed in canonical order.

    When such records are merged, nobody is warned about identifiers, and nobody disagrees about
    them.  The identifier is that of the first record in merge order, and inside a provider it is
    that of the provider's first record. -/
theorem identity_spec (e : Engine) (rs : List Record) :
    (∀ a ss, (Record.ofStatements a ss).account = a ∧
      (Record.ofStatements a ss).get .id = .set (.text a.localId) ∧
      (∀ p, p ≠ .id → (Record.ofStatements a ss).get p =
        ((ss.reverse.find? fun s => s.property = p).map Record.Statement.state).getD .unset) ∧
      (∀ p state, (p, state) ∈ (Record.ofStatements a ss).reported ↔
        (Record.ofStatements a ss).get p = state ∧ state ≠ .unset) ∧
      ((Record.ofStatements a ss).reported.map Prod.fst).Sublist Property.all) ∧
    ((∀ r ∈ rs, ∃ a ss, r = Record.ofStatements a ss) → rs ≠ [] →
      (∀ w ∈ (e.merge rs).warnings, w.property ≠ .id) ∧
      ((e.merge rs).get .id).isContested = false ∧
      ∃ first rest, (∀ other, e.priority.IsMergeOrder rs other ↔ other = first :: rest) ∧
        (e.merge rs).text? .id = some first.localId ∧
        ∀ p ∈ (e.merge rs).sources, ∃ r, (first :: rest).find? (fun r => r.provider = p) = some r ∧
          (e.merge rs).localId? p = some r.localId) := by
  refine ⟨fun a ss => ⟨?account, ?id, fun p hp => Record.get_ofStatements hp a ss,
    fun p state => ?reported, Record.map_fst_reported_sublist _⟩, fun hbuilt hne => ?merged⟩
  case account => rw [Record.ofStatements_eq, Record.account_ofReports]
  case id => rw [Record.ofStatements_eq, Record.get_id_ofReports]
  case reported =>
    rw [Record.mem_reported]
    cases state <;> simp [Remote.isUnset]
  case merged =>
    have hidentified : ∀ r ∈ rs, IsIdentified r := by
      intro r hr
      obtain ⟨a, ss, rfl⟩ := hbuilt r hr
      exact isIdentified_ofStatements a ss
    have hid := e.get_merge_id hidentified
    have horder := e.priority.isMergeOrder_iff rs
    -- There is a first record in merge order, since there is a record at all.
    cases hordered : e.priority.order rs with
    | nil =>
      have hperm := e.priority.order_perm rs
      rw [hordered] at hperm
      exact absurd hperm.nil_eq.symm hne
    | cons first rest =>
      rw [hordered] at hid horder
      refine ⟨fun w hw => e.property_ne_id_of_mem_warnings hidentified hw, by rw [hid]; rfl, first,
        rest, horder, ?text, fun p hp => ?provider⟩
      case text =>
        rw [LogicalUser.text?, LogicalUser.value?, hid]
        rfl
      case provider =>
        rw [← hordered]
        exact e.localId?_merge_of_mem hp

/-- Nothing comes of what is said of an identifier, and neither of a strategy for it.  Of two
    records of one provider the first counts. -/
theorem identity_spec_overruled :
    let rs : List Record :=
      [.ofStatements ⟨⟨"google"⟩, "g"⟩ [.answer .id .null],
        .ofStatements ⟨⟨"google"⟩, "h"⟩ [.report .id .unset],
        .ofStatements ⟨⟨"ldap"⟩, "l"⟩ [.unsupported .id, .answer .id (.text "g")]]
    let e : Engine :=
      ({ priority := .ofOrder [⟨"google"⟩, ⟨"ldap"⟩] } : Engine).withStrategy .id .union
    let user := e.merge rs
    (∀ r ∈ rs, ∃ a ss, r = .ofStatements a ss) ∧ rs ≠ [] ∧
      (∀ w ∈ user.warnings, w.property ≠ .id) ∧ (user.get .id).isContested = false ∧
      user.text? .id = some "g" ∧ user.localId? ⟨"google"⟩ = some "g" ∧
      user.localId? ⟨"ldap"⟩ = some "l" := by
  intro rs e user
  have hbuilt : ∀ r ∈ rs, ∃ a ss, r = .ofStatements a ss := by
    simp only [rs, List.forall_mem_cons]
    exact ⟨⟨_, _, rfl⟩, ⟨_, _, rfl⟩, ⟨_, _, rfl⟩, by simp⟩
  have hne : rs ≠ [] := List.cons_ne_nil _ _
  have horder : e.priority.order rs = rs := Priority.order_stable (by decide)
  obtain ⟨hwarned, hcontested, first, rest, hordered, htext, hlocal⟩ :=
    (identity_spec e rs).2 hbuilt hne
  obtain ⟨rfl, rfl⟩ := List.cons.inj
    ((hordered rs).mp ((e.priority.isMergeOrder_iff rs rs).mpr horder.symm))
  -- The records keep their order, so the first one of `google` is the first of all.
  have hsources : user.sources = [⟨"google"⟩, ⟨"google"⟩, ⟨"ldap"⟩] := by
    rw [e.sources_merge, horder]
    rfl
  obtain ⟨g, hg, hgoogle⟩ := hlocal ⟨"google"⟩ (by rw [hsources]; decide)
  obtain ⟨l, hl, hldap⟩ := hlocal ⟨"ldap"⟩ (by rw [hsources]; decide)
  obtain rfl := Option.some.inj hg
  obtain rfl := Option.some.inj hl
  exact ⟨hbuilt, hne, hwarned, hcontested, htext, hgoogle, hldap⟩

end Federation.Merge
