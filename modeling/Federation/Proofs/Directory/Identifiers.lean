import Federation.Directory.Basic
import Mathlib.Data.List.DropRight
import Mathlib.Data.List.Forall2

/-!
# Local identifiers, from a text and from a record

A directory finds its identifier of a user from the identifier that a caller has, or from the record
of another directory.  The two ways agree: what is found in a record is what the directory would
take from a caller.  Only identifiers that are linked from another directory cannot be found from a
text.

## Key results

- `toLower_eq_toLower_iff`: characters that are the same but for the case of an ASCII letter
- `host?_eq_some_iff`: the host of an address is what follows its last `@`
- `isHostedBy_iff_isInDomain`: which addresses are in a domain
- `localIdFrom_emailDomain_iff`: which of the emails of a record is found
- `localIds_agree`: what each rule finds in a text and in a record
-/

namespace Federation

/-! ## Letters -/

/-- Two characters are the same but for the case of an ASCII letter. -/
def SameLetter (c d : Char) : Prop :=
  c = d ∨ (c.isUpper = true ∧ d.toNat = c.toNat + 32) ∨ (d.isUpper = true ∧ c.toNat = d.toNat + 32)

/-- The capital letters by their code points. -/
theorem isUpper_iff (c : Char) : c.isUpper = true ↔ 65 ≤ c.toNat ∧ c.toNat ≤ 90 := by
  unfold Char.isUpper
  simp [UInt32.le_iff_toNat_le, ← Char.toNat_val]

/-- A small letter comes 32 code points after its capital. -/
theorem toNat_toLower (c : Char) :
    c.toLower.toNat = if c.isUpper = true then c.toNat + 32 else c.toNat := by
  unfold Char.toLower
  split
  · next h =>
    have hupper : c.isUpper = true := decide_eq_true h
    have hle : c.val.toNat ≤ 90 := ((isUpper_iff c).mp hupper).2
    rw [if_pos hupper]
    -- The sum is far from the end of the code points.
    show (c.val + 32).toNat = c.val.toNat + 32
    rw [UInt32.toNat_add]
    exact Nat.mod_eq_of_lt (Nat.lt_of_le_of_lt (Nat.add_le_add_right hle 32) (by decide))
  · next h =>
    have hupper : ¬c.isUpper = true := fun hc => h (of_decide_eq_true hc)
    rw [if_neg hupper]

/-- Two characters are the same in lower case exactly if they are the same letter. -/
theorem toLower_eq_toLower_iff (c d : Char) : c.toLower = d.toLower ↔ SameLetter c d := by
  rw [← Char.toNat_inj, toNat_toLower, toNat_toLower, SameLetter, ← Char.toNat_inj]
  simp only [isUpper_iff]
  split <;> split <;> omega

namespace Directory

/-! ## Addresses -/

/-- A text with an `@` has a last one. -/
theorem exists_last_at {address : List Char} (h : '@' ∈ address) :
    ∃ before host, address = before ++ '@' :: host ∧ '@' ∉ host := by
  -- It is the first one of the reversed text.
  obtain ⟨xs, ys, hreverse, hnot⟩ := List.eq_append_cons_of_mem (List.mem_reverse.mpr h)
  refine ⟨ys.reverse, xs.reverse, ?_, mt List.mem_reverse.mp hnot⟩
  rw [← List.reverse_reverse address, hreverse, List.reverse_append, List.reverse_cons,
    List.append_assoc, List.singleton_append]

/-- The host is what comes after the last `@`. -/
theorem host?_append {before host : List Char} (h : '@' ∉ host) :
    host? (before ++ '@' :: host) = some host := by
  have hpos : ∀ c ∈ host.reverse, decide (c ≠ '@') = true := by
    intro c hc
    refine decide_eq_true fun hat => h ?_
    rw [← hat]
    exact List.mem_reverse.mp hc
  rw [host?, if_pos (List.mem_append_right _ List.mem_cons_self), List.reverse_append,
    List.reverse_cons, List.append_assoc, List.takeWhile_append_of_pos hpos, List.singleton_append,
    List.takeWhile_cons_of_neg (by decide), List.append_nil, List.reverse_reverse]

/-- The host of an address is what follows its last `@`. -/
theorem host?_eq_some_iff {address host : List Char} :
    host? address = some host ↔ '@' ∉ host ∧ ∃ before, address = before ++ '@' :: host := by
  constructor
  · intro h
    have hmem : '@' ∈ address := by
      by_contra hnot
      rw [host?, if_neg hnot] at h
      exact absurd h (by simp)
    -- The address splits at its last `@`, and at no other place is the rest free of it.
    obtain ⟨before, last, rfl, hnot⟩ := exists_last_at hmem
    obtain rfl := Option.some.inj ((host?_append hnot).symm.trans h)
    exact ⟨hnot, before, rfl⟩
  · rintro ⟨hnot, before, rfl⟩
    exact host?_append hnot

/-- What follows the last `@` of an address is the domain, whatever the case of ASCII letters. -/
def IsInDomain (domain address : String) : Prop :=
  ∃ before host, address.toList = before ++ '@' :: host ∧ '@' ∉ host ∧
    List.Forall₂ SameLetter host domain.toList

/-- The check of an address says whether it is in the domain. -/
theorem isHostedBy_iff_isInDomain {domain address : String} :
    isHostedBy domain address = true ↔ IsInDomain domain address := by
  -- Two texts have the same small letters exactly if they agree letter by letter.
  have hcase : ∀ host : List Char, host.map Char.toLower = domain.toList.map Char.toLower ↔
      List.Forall₂ SameLetter host domain.toList := by
    intro host
    rw [← List.forall₂_eq_eq_eq, List.forall₂_map_left_iff, List.forall₂_map_right_iff]
    simp only [toLower_eq_toLower_iff]
  rw [isHostedBy_iff]
  simp only [host?_eq_some_iff, hcase]
  constructor
  · rintro ⟨host, ⟨hnot, before, haddress⟩, h⟩
    exact ⟨before, host, haddress, hnot, h⟩
  · rintro ⟨before, host, haddress, hnot, h⟩
    exact ⟨host, ⟨hnot, before, haddress⟩, h⟩

/-! ## Rules -/

variable {d : Directory} {domain : String}

/-- What a directory takes from a caller, it takes as it is. -/
theorem localId_eq_ok_iff (h : d.rule = .emailDomain domain) (x y : String) :
    d.localId x = .ok y ↔ isHostedBy domain x = true ∧ x = y := by
  rw [localId, orCannotInfer_eq_ok_iff, h, LocalIdRule.ofExternal?]
  split <;> simp_all

/-- A text is taken if it is an address in the domain. -/
theorem isOk_localId (h : d.rule = .emailDomain domain) (x : String) :
    (d.localId x).isOk = isHostedBy domain x := by
  rw [localId, h, LocalIdRule.ofExternal?]
  cases isHostedBy domain x <;> rfl

/-- The first email that the directory would take from a caller is found in a record. -/
theorem localIdFrom_emailDomain_iff (h : d.rule = .emailDomain domain) {r : Record} {x : String} :
    d.localIdFrom r = .ok x ↔
      ∃ before after, r.get .emails = .set (.textList (before ++ x :: after)) ∧
        (d.localId x).isOk = true ∧ ∀ y ∈ before, (d.localId y).isOk = false := by
  rw [localIdFrom, orCannotInfer_eq_ok_iff, h, LocalIdRule.ofRecord?, List.find?_eq_some_iff_append]
  simp only [isOk_localId h, Bool.not_eq_true']
  constructor
  · rintro ⟨hx, before, after, hemails, hbefore⟩
    have hmem : x ∈ r.emails := by rw [hemails]; exact List.mem_append_right _ List.mem_cons_self
    exact ⟨before, after, hemails ▸ Record.get_emails_of_mem hmem, hx, hbefore⟩
  · rintro ⟨before, after, hget, hx, hbefore⟩
    exact ⟨hx, before, after, Record.emails_eq hget, hbefore⟩

/-- Nothing is found in a record without such an email, be it that no emails are reported. -/
theorem localIdFrom_emailDomain_fails_iff (h : d.rule = .emailDomain domain) {r : Record} :
    (∃ f, d.localIdFrom r = .error f) ↔
      ∀ xs, r.get .emails = .set (.textList xs) → ∀ x ∈ xs, (d.localId x).isOk = false := by
  -- The rule fails when none of the emails is in the domain.
  have hnone : (∃ f, d.localIdFrom r = .error f) ↔ ∀ x ∈ r.emails, isHostedBy domain x = false := by
    simp only [localIdFrom, orCannotInfer_eq_error_iff, h, LocalIdRule.ofRecord?, exists_and_left,
      exists_eq, and_true, List.find?_eq_none, Bool.not_eq_true]
  rw [hnone]
  simp only [isOk_localId h]
  constructor
  · intro hall xs hget
    rw [← Record.emails_eq hget]
    exact hall
  · intro hall x hx
    exact hall r.emails (Record.get_emails_of_mem hx) x hx

/-- A directory finds in a record what it would take from a caller.

    If its identifiers are those that callers have, it takes every text, and finds that of the
    record's account.  If they are the addresses in a domain, it takes those texts of which the part
    after the last `@` is the domain, whatever the case of ASCII letters, and finds the first of the
    reported emails that it would take; so it finds nothing exactly if there is no such email.  If
    they are linked through a property, it takes no text, and finds the text of this property.
    Where nothing is found, this is said, and in which account. -/
theorem localIds_agree (d : Directory) (r : Record) :
    (match d.rule with
    | .asIs => (∀ x, d.localId x = .ok x) ∧ d.localIdFrom r = d.localId r.localId
    | .emailDomain domain =>
      (∀ x, (d.localId x = .ok x ↔ IsInDomain domain x) ∧
        (¬IsInDomain domain x → d.localId x = .error (.cannotInferLocalId d.id x))) ∧
      (∀ x, d.localIdFrom r = .ok x ↔
        ∃ before after, r.get .emails = .set (.textList (before ++ x :: after)) ∧
          (d.localId x).isOk = true ∧ ∀ y ∈ before, (d.localId y).isOk = false) ∧
      ((∃ f, d.localIdFrom r = .error f) ↔
        ∀ xs, r.get .emails = .set (.textList xs) → ∀ x ∈ xs, (d.localId x).isOk = false)
    | .linkedVia p =>
      (∀ x, d.localId x = .error (.cannotInferLocalId d.id x)) ∧
      ∀ x, d.localIdFrom r = .ok x ↔ r.get p = .set (.text x)) ∧
    ∀ f, d.localIdFrom r = .error f →
      f = .cannotInferLocalId d.id (r.provider.name ++ ":" ++ r.localId) := by
  refine ⟨?rules, fun f hf => (orCannotInfer_eq_error_iff.mp hf).2⟩
  -- One case for each rule; what is said where nothing is found is the same for all of them.
  cases hrule : d.rule with
  | asIs =>
    have htaken : ∀ x, d.localId x = .ok x := fun x => by rw [localId, hrule]; rfl
    exact ⟨htaken, by rw [htaken, localIdFrom, hrule]; rfl⟩
  | emailDomain domain =>
    refine ⟨fun x => ⟨?taken, fun hnot => ?refused⟩, fun x => localIdFrom_emailDomain_iff hrule,
      localIdFrom_emailDomain_fails_iff hrule⟩
    case taken => rw [localId_eq_ok_iff hrule, isHostedBy_iff_isInDomain, and_iff_left rfl]
    case refused =>
      have hfalse : isHostedBy domain x = false :=
        Bool.eq_false_iff.mpr (mt isHostedBy_iff_isInDomain.mp hnot)
      rw [localId, hrule, LocalIdRule.ofExternal?, hfalse]
      rfl
  | linkedVia p =>
    refine ⟨fun x => by rw [localId, hrule]; rfl, fun x => ?_⟩
    rw [localIdFrom, orCannotInfer_eq_ok_iff, hrule, LocalIdRule.ofRecord?,
      Record.text?_eq_some_iff]

/-- Only the last `@` counts, and the case of the domain does not. -/
example :
    let d : Directory := { id := ⟨"google"⟩, rule := .emailDomain "Example.COM" }
    let r := (Record.blank ⟨⟨"ldap"⟩, "jdoe"⟩).answer .emails
      (.textList ["jdoe", "jdoe@example.com@home", "j@doe@eXample.com"])
    d.localIdFrom r = .ok "j@doe@eXample.com" := by
  cbv

end Directory

end Federation
