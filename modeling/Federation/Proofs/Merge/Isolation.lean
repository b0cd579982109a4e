import Federation.Proofs.Lists
import Federation.Proofs.Merge.Accounting

/-!
# Properties are merged apart from each other

The merge order depends on the accounts of the records only, and each property is resolved from what
the records say about this property.  So what one record says about one property, however malformed
it is, has no effect on any other property; and a value that does not pass its check has none on the
resolution of its own property either.

## Key results

- `forall₂_order`: records that go along with each other do so in merge order as well
- `candidates_congr`, `warnings_congr`, `support_congr`: what a property is resolved from
- `merge_modify_spec`: what is left of a change to one property of one record
-/

namespace Federation.Merge

variable {rs ss : List Record} {p : Property}

/-- Records that go along with each other do so in merge order as well, if they are reported by the
    same providers. -/
theorem Priority.forall₂_order (t : Priority) {R : Record → Record → Prop}
    (hprovider : ∀ r s, R r s → s.provider = r.provider) (h : List.Forall₂ R rs ss) :
    List.Forall₂ R (t.order rs) (t.order ss) := by
  obtain ⟨hlength, hzip⟩ := List.forall₂_iff_zip.mp h
  -- The pairs of records are sorted by their first components, and so by their second ones.
  let zs := (rs.zip ss).mergeSort fun x y => t.precedes x.1 y.1
  have hmem : ∀ z ∈ rs.zip ss, R z.1 z.2 := fun z hz => hzip hz
  have hfst : zs.map Prod.fst = t.order rs := by
    rw [List.map_mergeSort (s := t.precedes) (fun _ _ _ _ => rfl)]
    rw [List.map_fst_zip (Nat.le_of_eq hlength)]
    rfl
  have hsnd : zs.map Prod.snd = t.order ss := by
    rw [List.map_mergeSort (s := t.precedes)]
    · rw [List.map_snd_zip (Nat.le_of_eq hlength.symm)]
      rfl
    · intro x hx y hy
      unfold precedes
      rw [hprovider _ _ (hmem x hx), hprovider _ _ (hmem y hy)]
  rw [← hfst, ← hsnd, List.forall₂_map_left_iff, List.forall₂_map_right_iff, List.forall₂_same]
  intro z hz
  exact hmem z ((List.mergeSort_perm _ _).mem_iff.mp hz)

/-! ## What a property is resolved from -/

/-- Two records of one account say the same about a property. -/
def Concur (p : Property) (r s : Record) : Prop := s.account = r.account ∧ s.get p = r.get p

/-- Records that concur are of the same provider. -/
theorem Concur.provider {r s : Record} (h : Concur p r s) : s.provider = r.provider :=
  congrArg Account.provider h.1

/-- What concurs about a property has the same candidates for its value. -/
theorem candidates_congr (h : List.Forall₂ (Concur p) rs ss) :
    candidates p ss = candidates p rs := by
  apply filterMap_eq_of_forall₂
  exact h.imp fun r s hrs => by unfold candidate?; rw [hrs.2, hrs.provider]

/-- What concurs about a property has the same warnings about it. -/
theorem warnings_congr (h : List.Forall₂ (Concur p) rs ss) : warnings p ss = warnings p rs := by
  apply filterMap_eq_of_forall₂
  exact h.imp fun r s hrs => by unfold warning?; rw [hrs.2, hrs.provider]

/-- What concurs about a property is supported by the same providers. -/
theorem support_congr (h : List.Forall₂ (Concur p) rs ss) : support p ss = support p rs := by
  have hunsupported : (ss.filter fun r => (r.get p).isUnsupported).map Record.provider =
      (rs.filter fun r => (r.get p).isUnsupported).map Record.provider := by
    apply map_filter_eq_of_forall₂
    exact h.imp fun r s hrs => ⟨by rw [hrs.2], hrs.provider⟩
  have hunset : (ss.filter fun r => (r.get p).isUnset).map Record.provider =
      (rs.filter fun r => (r.get p).isUnset).map Record.provider := by
    apply map_filter_eq_of_forall₂
    exact h.imp fun r s hrs => ⟨by rw [hrs.2], hrs.provider⟩
  unfold support
  rw [candidates_congr h, hunsupported, hunset]

/-! ## One record is changed -/

/-- Records of which one is changed go along with what they were. -/
theorem forall₂_modify {R : Record → Record → Prop} {f : Record → Record} (i : Nat)
    (hsame : ∀ r, R r r) (hchanged : ∀ r, rs[i]? = some r → R r (f r)) :
    List.Forall₂ R rs (rs.modify i f) := by
  -- Induction on the records: the change is made to the first of them, or to one after it.
  induction rs generalizing i with
  | nil =>
    rw [List.modify_nil]
    exact .nil
  | cons r rs ih =>
    cases i with
    | zero =>
      rw [List.modify_zero_cons]
      exact .cons (hchanged r rfl) (List.forall₂_same.mpr fun s _ => hsame s)
    | succ i =>
      rw [List.modify_succ_cons]
      exact .cons (hsame r) (ih i hchanged)

/-- A record says the same about every other property as before. -/
theorem concur_report {q : Property} (hq : q ≠ p) (s : Remote Value) (r : Record) :
    Concur q r (r.report p s) := by
  refine ⟨Record.account_report r p s, ?_⟩
  rw [Record.get_report, if_neg fun h => hq h.1]

/-- A record whose value is malformed is no candidate, as if it had left the property unset. -/
theorem candidate?_report_unset {r : Record} {v : Value} {m : Property.Mismatch}
    (hp : p ≠ .id) (hset : r.get p = .set v) (hcheck : p.check v = .error m) :
    candidate? p (r.report p .unset) = candidate? p r := by
  have hunset : (r.report p .unset).get p = .unset := by
    rw [Record.get_report, if_pos ⟨rfl, hp⟩]
  simp only [candidate?, hunset, hset, hcheck]

/-- If one record says something else about one property, this leaves the sources and their accounts
    as they are, and every other property as well: how it is resolved, who supports it, and the
    warnings about it.  If what the record said before was malformed, and it says nothing now, then
    the property itself is resolved as before. -/
theorem merge_modify_spec (e : Engine) (rs : List Record) (i : Nat) {p : Property} (hp : p ≠ .id)
    (state : Remote Value) :
    let u := e.merge rs
    let u' := e.merge (rs.modify i fun r => r.report p state)
    u'.sources = u.sources ∧ u'.accounts = u.accounts ∧
      (∀ q, q ≠ p → u'.get q = u.get q ∧ u'.support q = u.support q ∧
        (u'.warnings.filter fun w => w.property = q) =
          u.warnings.filter fun w => w.property = q) ∧
      ∀ r v m, rs[i]? = some r → r.get p = .set v → p.check v = .error m → state = .unset →
        u'.get p = u.get p := by
  intro u u'
  -- The record stays in its place, since its provider is the same.
  have haccounts : u'.accounts = u.accounts := by
    have hgiven : List.Forall₂ (fun r s => s.account = r.account) rs
        (rs.modify i fun r => r.report p state) :=
      forall₂_modify i (fun _ => rfl) fun r _ => Record.account_report r p state
    have horder := e.priority.forall₂_order (fun _ _ h => congrArg Account.provider h) hgiven
    exact map_eq_of_forall₂ (horder.imp fun _ _ h => ⟨h, trivial⟩)
  refine ⟨congrArg (List.map Account.provider) haccounts, haccounts, fun q hq => ?others, ?own⟩
  case others =>
    have hgiven : List.Forall₂ (Concur q) rs (rs.modify i fun r => r.report p state) :=
      forall₂_modify i (fun _ => ⟨rfl, rfl⟩) fun r _ => concur_report hq state r
    have horder := e.priority.forall₂_order (fun _ _ h => h.provider) hgiven
    refine ⟨?_, support_congr horder, ?_⟩
    · rw [Engine.get_merge, Engine.get_merge, candidates_congr horder]
    · rw [filter_warnings_merge, filter_warnings_merge, warnings_congr horder]
  case own =>
    rintro r v m hr hset hcheck rfl
    -- Neither the malformed value nor its absence makes the record a candidate.
    have hgiven : List.Forall₂
        (fun r s => s.provider = r.provider ∧ candidate? p s = candidate? p r) rs
        (rs.modify i fun r => r.report p .unset) := by
      apply forall₂_modify i (fun _ => ⟨rfl, rfl⟩)
      intro r' hr'
      obtain rfl := Option.some.inj (hr.symm.trans hr')
      exact ⟨congrArg Account.provider (Record.account_report r p .unset),
        candidate?_report_unset hp hset hcheck⟩
    have horder := e.priority.forall₂_order (fun _ _ h => h.1) hgiven
    rw [Engine.get_merge, Engine.get_merge]
    exact congrArg (e.resolve p) (filterMap_eq_of_forall₂ (horder.imp fun _ _ h => h.2))

/-- Of two providers whose emails are united, one reports a text instead of a list.  The text might
    as well not have been reported, and what is said about nicknames is as it was. -/
theorem merge_modify_spec_emails :
    let said (p nickname : String) (emails : Value) : Record :=
      ((Record.blank ⟨⟨p⟩, "jdoe"⟩).answer .nickname (.text nickname)).answer .emails emails
    let e : Engine := Engine.withStrategy { priority := .ofOrder [⟨"ldap"⟩] } .emails .union
    let rs := [said "google" "janed" (.text "j@x"), said "ldap" "jd" (.textList ["a@x", "b@x"])]
    let u := e.merge rs
    let u' := e.merge (rs.modify 0 fun r => r.report .emails .unset)
    Property.emails ≠ .id ∧
      Property.emails.check (.text "j@x") = .error (.wrongKind .emails (.text "j@x")) ∧
      u'.sources = u.sources ∧ u'.accounts = u.accounts ∧
      u'.get .nickname = u.get .nickname ∧ u'.support .nickname = u.support .nickname ∧
      u'.get .emails = u.get .emails := by
  intro said e rs u u'
  have hp : Property.emails ≠ .id := by decide
  obtain ⟨hsources, haccounts, hothers, hown⟩ := merge_modify_spec e rs 0 hp .unset
  obtain ⟨hget, hsupport, -⟩ := hothers .nickname (by decide)
  exact ⟨hp, rfl, hsources, haccounts, hget, hsupport, hown _ _ _ rfl rfl rfl rfl⟩

end Federation.Merge
