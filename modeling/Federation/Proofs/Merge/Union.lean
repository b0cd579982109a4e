import Federation.Proofs.Lists
import Federation.Proofs.Merge.FirstSet

/-!
# Properties whose lists are united

The emails of several records may be united: the lists are put one after the other in merge order,
and of each address only the first occurrence is kept.  A record that reports that there are no
addresses contributes its provider but no address, and one whose value does not pass the check
contributes neither.

## Key results

- `unite_eq`: uniting lists keeps the first occurrences in their concatenation
- `get_merge_union`: what becomes of emails that are united
-/

namespace Federation.Merge

/-- Uniting lists keeps the first occurrence of each item of their concatenation. -/
theorem unite_eq (lists : List (List String)) : unite lists = lists.flatten.eraseDups := by
  unfold unite
  rw [foldl_distinct, List.nil_append]
  exact congrArg List.eraseDups (List.filter_eq_self.mpr fun _ _ => rfl)

/-- The list that a record reports, if it reports a list. -/
private def list? (p : Property) (r : Record) : Option (List String) :=
  (r.get p).value?.bind Value.asTextList?

/-- The lists among the candidates are those of the records with a usable value. -/
private theorem lists_candidates (p : Property) (rs : List Record) :
    (candidates p rs).filterMap (fun c => c.value.asTextList?) =
      (rs.filter (isUsable p)).filterMap (list? p) := by
  have hlist {r : Record} {c : Candidate} (h : r.get p = .set c.value) :
      list? p r = c.value.asTextList? := by rw [list?, h]; rfl
  have along := forall₂_candidates p rs
  generalize candidates p rs = cs at along ⊢
  generalize rs.filter (isUsable p) = usable at along ⊢
  induction along with
  | nil => rfl
  | cons hrc _ ih => rw [List.filterMap_cons, List.filterMap_cons, hlist hrc.1, ih]

/-- The lists of some records, put one after the other, are their addresses. -/
private theorem flatten_lists (rs : List Record) :
    (rs.filterMap (list? .emails)).flatten = rs.flatMap Record.emails := by
  induction rs with
  | nil => rfl
  | cons r rs ih =>
    have hemails : r.emails = (list? .emails r).getD [] := rfl
    rw [List.flatMap_cons, ← ih, List.filterMap_cons, hemails]
    cases list? .emails r <;> rfl

/-- A usable value of the emails is empty or a list. -/
private theorem list?_eq_none_iff {r : Record} (h : isUsable .emails r = true) :
    list? .emails r = none ↔ r.get .emails = .set .null := by
  obtain ⟨v, hr, hv⟩ := (isUsable_iff .emails r).mp h
  have hlist : list? .emails r = v.asTextList? := by rw [list?, hr]; rfl
  rw [hlist, hr]
  rcases (Property.check_eq_ok_iff .emails v).mp hv with ⟨rfl, -⟩ | hkind
  · exact ⟨fun _ => rfl, fun _ => rfl⟩
  · cases v with
    | textList xs => exact ⟨nofun, nofun⟩
    | null | flag _ | text _ => exact nomatch hkind

/-- What the usable records decide of emails that are united. -/
private theorem get_merge_emails {e : Engine} (h : e.strategy .emails = .union)
    (rs usable : List Record) (husable : usable = (e.priority.order rs).filter (isUsable .emails)) :
    (e.merge rs).get .emails =
      if usable = [] then .notReported
      else
        .resolved
          (if usable.filterMap (list? .emails) = [] then .null
            else .textList (usable.flatMap Record.emails).eraseDups)
          (.union (usable.map Record.provider)) [] := by
  have hproviders : (candidates .emails (e.priority.order rs)).map Candidate.provider =
      usable.map Record.provider := by
    rw [husable]
    exact map_eq_of_forall₂ ((forall₂_candidates .emails _).imp fun _ _ h => h.symm)
  have hempty : candidates .emails (e.priority.order rs) = [] ↔ usable = [] := by
    rw [← List.map_eq_nil_iff, hproviders, List.map_eq_nil_iff]
  rw [Engine.get_merge, Engine.resolve, if_pos ⟨h, rfl⟩, resolveUnion]
  simp only [List.isEmpty_iff, hempty, hproviders, lists_candidates, ← husable, unite_eq,
    flatten_lists]

/-- Emails whose strategy is `union` are resolved from the records with a usable value in merge
    order.  If there is none, they are not reported.  Otherwise they come from the providers of all
    of these records, and nobody is overridden.  The value is empty if all of the records report
    that there are no addresses.  If not, it is a list: the addresses of the records, put one after
    the other in merge order, of which each is kept where it first occurs.  So every address is in
    it once, and what a record is the first to report stands together, in the record's order. -/
theorem get_merge_union (e : Engine) (rs : List Record) (h : e.strategy .emails = .union) :
    ∃ ordered usable, (∀ other, e.priority.IsMergeOrder rs other ↔ other = ordered) ∧
      usable = ordered.filter (isUsable .emails) ∧
      ((e.merge rs).get .emails = .notReported ↔ usable = []) ∧
      (usable ≠ [] → ∃ v,
        (e.merge rs).get .emails = .resolved v (.union (usable.map Record.provider)) [] ∧
        (v = .null ↔ ∀ r ∈ usable, r.get .emails = .set .null) ∧
        (¬(∀ r ∈ usable, r.get .emails = .set .null) → ∃ xs, v = .textList xs ∧
          xs = (usable.flatMap Record.emails).eraseDups ∧
          xs.Nodup ∧ (∀ x, x ∈ xs ↔ ∃ r ∈ usable, x ∈ r.emails) ∧
          ∀ before r after, usable = before ++ r :: after →
            (r.emails.filter fun x => x ∉ before.flatMap Record.emails).eraseDups <:+: xs)) := by
  let ordered := e.priority.order rs
  let usable := ordered.filter (isUsable .emails)
  -- No list is left to unite exactly if all records report that there are no addresses.
  have hnull : usable.filterMap (list? .emails) = [] ↔
      ∀ r ∈ usable, r.get .emails = .set .null := by
    rw [List.filterMap_eq_nil_iff]
    exact forall₂_congr fun r hr => list?_eq_none_iff (List.mem_filter.mp hr).2
  rw [get_merge_emails h rs usable rfl]
  refine ⟨ordered, usable, e.priority.isMergeOrder_iff rs, rfl, ?_, fun hne => ?_⟩
  · by_cases hu : usable = []
    · rw [if_pos hu]; exact ⟨fun _ => hu, fun _ => rfl⟩
    · rw [if_neg hu]; exact ⟨nofun, fun hn => absurd hn hu⟩
  rw [if_neg hne]
  refine ⟨_, rfl, ?_, fun hsome => ⟨_, if_neg (mt hnull.mp hsome), rfl, nodup_eraseDups _,
    fun x => ?_, fun before r after hsplit => ?_⟩⟩
  · rw [← hnull]
    by_cases hl : usable.filterMap (list? .emails) = []
    · rw [if_pos hl]; exact ⟨fun _ => hl, fun _ => rfl⟩
    · rw [if_neg hl]; exact ⟨nofun, fun hn => absurd hn hl⟩
  · rw [List.mem_eraseDups, List.mem_flatMap]
  · rw [hsplit, List.flatMap_append, List.flatMap_cons]
    -- What a record is the first to report is what no record before it has.
    have hnew : (r.emails.filter fun x => x ∉ before.flatMap Record.emails) =
        r.emails.filter fun x => !(before.flatMap Record.emails).contains x :=
      List.filter_congr fun x _ => by rw [decide_not, List.contains_eq_mem]
    rw [hnew]
    exact infix_eraseDups _ _ _

/-- Three providers report emails, one of them that there are none; a fourth reports a text.  The
    two lists share an address. -/
theorem get_merge_union_shared :
    let said (p : String) (v : Value) : Record :=
      (Record.blank ⟨⟨p⟩, "jdoe"⟩).answer .emails v
    let e : Engine := Engine.withStrategy { priority := .ofOrder [⟨"ldap"⟩] } .emails .union
    let rs := [said "ldap" (.textList ["a@x", "b@x", "a@x"]), said "google" .null,
      said "okta" (.text "d@x"), said "github" (.textList ["c@x", "b@x"])]
    e.strategy .emails = .union ∧
      (e.merge rs).get .emails =
        .resolved (.textList ["a@x", "b@x", "c@x"])
          (.union [⟨"ldap"⟩, ⟨"google"⟩, ⟨"github"⟩]) [] := by
  intro said e rs
  have h : e.strategy .emails = .union := rfl
  refine ⟨h, ?_⟩
  obtain ⟨ordered, usable, hordered, husable, -, hget⟩ := get_merge_union e rs h
  have horder : e.priority.order rs = rs := Priority.order_stable (by decide)
  obtain rfl := (hordered rs).mp ((e.priority.isMergeOrder_iff rs rs).mpr horder.symm)
  obtain ⟨v, hv, -, hlist⟩ := hget (husable ▸ nofun)
  -- The record of the first provider does not say that there are no emails.
  have hldap : said "ldap" (.textList ["a@x", "b@x", "a@x"]) ∈ usable :=
    husable ▸ List.mem_filter.mpr ⟨List.mem_cons_self, rfl⟩
  obtain ⟨xs, rfl, rfl, -⟩ := hlist fun hall => nomatch hall _ hldap
  subst husable
  exact hv

end Federation.Merge
