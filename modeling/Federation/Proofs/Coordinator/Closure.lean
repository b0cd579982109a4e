import Federation.Proofs.Coordinator.Saturation

/-!
# What is inferred does not depend on the order

In which round a target is tried, and which source it consults first, depends on the order of the
targets.  But if everything that can be returned suggests at most one local identifier for a target,
it does not matter: in the end, every target has been tried with the identifier that is suggested
for it, and with nothing else.  What is suggested is the least set that is closed under what the
targets return, and the order of the targets has no part in it.

## Key results

- `Inquiry.Suggests`: what is suggested for a target, whatever the order
- `Inquiry.isUnambiguous_of_copies`: at most one identifier is suggested where all take it from
  the record they read
- `Inquiry.Fits.absorb`: what a round of attempts makes of the results
- `Retries.fits`, `Retries.concludes`: what all rounds make of them
- `Concludes.suggests_iff`: with what the targets have been tried in the end
- `Concludes.mem_iff`: what is known of the targets in the end
-/

namespace Federation.Inference

variable {rs rs' : Results} {m m' : Memory} {p target : ProviderId}

/-! ## What a round makes of a result -/

/-- What one new result makes of the known ones: its own target has more, and all others have the
    same. -/
private theorem mem_absorb_cases {new e : ProviderId × Except Fault Output}
    (hkeys : (rs.map Prod.fst).Nodup) (h : e ∈ absorb new rs) :
    (e ∈ rs ∧ e.1 ≠ new.1) ∨
      (e.1 = new.1 ∧ ∃ known, (e.1, known) ∈ rs ∧ e.2 = combine known new.2) := by
  induction rs with
  | nil => exact absurd h List.not_mem_nil
  | cons r rs ih =>
    obtain ⟨hr, hrest⟩ := List.nodup_cons.mp hkeys
    unfold absorb at h
    -- Keys are distinct, so the result is absorbed by one entry at most.
    by_cases hkey : r.1 = new.1
    · rw [if_pos hkey] at h
      rcases List.mem_cons.mp h with rfl | hmem
      · exact .inr ⟨hkey, r.2, List.mem_cons_self, rfl⟩
      · refine .inl ⟨List.mem_cons_of_mem r hmem, fun he => hr ?_⟩
        rw [hkey, ← he]
        exact List.mem_map_of_mem hmem
    · rw [if_neg hkey] at h
      rcases List.mem_cons.mp h with rfl | hmem
      · exact .inl ⟨List.mem_cons_self, hkey⟩
      · rcases ih hrest hmem with ⟨hmem, hne⟩ | ⟨heq, known, hknown, hcombine⟩
        · exact .inl ⟨List.mem_cons_of_mem r hmem, hne⟩
        · exact .inr ⟨heq, known, List.mem_cons_of_mem r hknown, hcombine⟩

/-- A result is as it was before a round, or an attempt of the round was added to it. -/
theorem mem_absorbAll_cases {round : Results} {e : ProviderId × Except Fault Output}
    (hkeys : (rs.map Prod.fst).Nodup) (hround : (round.map Prod.fst).Nodup)
    (h : e ∈ absorbAll round rs) :
    (e ∈ rs ∧ e.1 ∉ round.map Prod.fst) ∨
      ∃ known new, (e.1, known) ∈ rs ∧ (e.1, new) ∈ round ∧ e.2 = combine known new := by
  unfold absorbAll at h
  induction round generalizing rs with
  | nil => exact .inl ⟨h, List.not_mem_nil⟩
  | cons new round ih =>
    obtain ⟨hnew, hrest⟩ := List.nodup_cons.mp hround
    have hkeys' : ((absorb new rs).map Prod.fst).Nodup := by
      rw [map_fst_absorb]
      exact hkeys
    rcases ih hkeys' hrest h with ⟨hmem, hout⟩ | ⟨known, x, hknown, hx, hcombine⟩
    · rcases mem_absorb_cases hkeys hmem with ⟨hmem, hne⟩ | ⟨heq, known, hknown, hcombine⟩
      · refine .inl ⟨hmem, fun hin => ?_⟩
        exact (List.mem_cons.mp hin).elim hne hout
      · exact .inr ⟨known, new.2, hknown, heq ▸ List.mem_cons_self, hcombine⟩
    -- What the rest of the round is added to was not touched by its first attempt.
    · rcases mem_absorb_cases hkeys hknown with ⟨hknown, -⟩ | ⟨heq, -⟩
      · exact .inr ⟨known, x, hknown, List.mem_cons_of_mem new hx, hcombine⟩
      · exact absurd (List.mem_map.mpr ⟨_, hx, heq⟩) hnew

/-! ## What is suggested -/

/-- Whom one asks about a user, and what they answer: at first, and when they are tried with an
    identifier. -/
structure Inquiry where
  IsTarget : ProviderId → Prop
  first : ProviderId → Except Fault Output
  read : ProviderId → String → Except Fault Output
  infer? : ProviderId → Option (Record → Except Fault String)

namespace Inquiry

variable {q : Inquiry} {id : String} {tried tried' : ProviderId → String → Prop}
  {attempted : List (ProviderId × String)}

/-- What targets can return: some return it at first, and others when they are tried with an
    identifier that they find in the record of another one, as they cannot infer theirs. -/
inductive Returns (q : Inquiry) : ProviderId → Output → Prop
  | first {p : ProviderId} {x : Output} (target : q.IsTarget p) (returned : q.first p = .ok x) :
      Returns q p x
  | again {p target : ProviderId} {x y : Output} {r : Record} {f : Fault}
      {infer : Record → Except Fault String} {id : String} (source : Returns q p x)
      (record : x.record? = some r) (other : r.provider ≠ target) (isTarget : q.IsTarget target)
      (failed : q.first target = .error f) (cannot : f.isCannotInfer = true)
      (infers : q.infer? target = some infer) (inferred : infer r = .ok id)
      (returned : q.read target id = .ok y) : Returns q target y

/-- An identifier is suggested for a target: it cannot infer its own, and finds this one in a record
    that another one can return. -/
structure Suggests (q : Inquiry) (target : ProviderId) (id : String) : Prop where
  isTarget : q.IsTarget target
  failed : ∃ f, q.first target = .error f ∧ f.isCannotInfer = true
  inferred : ∃ infer p x r, q.infer? target = some infer ∧ q.Returns p x ∧ x.record? = some r ∧
    r.provider ≠ target ∧ infer r = .ok id

/-- At most one identifier is suggested for each target. -/
def IsUnambiguous (q : Inquiry) : Prop :=
  ∀ target id id', q.Suggests target id → q.Suggests target id' → id = id'

section Copies

variable (first : ∀ p x r, q.IsTarget p → q.first p = .ok x → x.record? = some r → r.localId = id)
  (read : ∀ p id' x r, q.IsTarget p → q.read p id' = .ok x → x.record? = some r →
    r.localId = id')
  (copies : ∀ target f infer r id', q.IsTarget target → q.first target = .error f →
    q.infer? target = some infer → infer r = .ok id' → id' = r.localId)

include first read copies

/-- An identifier that is handed on from record to record stays what it was in the first one. -/
theorem Returns.localId_eq {x : Output} {r : Record} (h : q.Returns p x)
    (hr : x.record? = some r) : r.localId = id := by
  induction h generalizing r with
  | first target returned => exact first _ _ r target returned hr
  | again _ record _ isTarget failed _ infers inferred returned ih =>
    exact ((read _ _ _ r isTarget returned hr).trans
      (copies _ _ _ _ _ isTarget failed infers inferred)).trans (ih record)

variable (id) in
/-- There is but one identifier to suggest where all that answer at first know the user by it, and
    all others take it from a record. -/
theorem isUnambiguous_of_copies : q.IsUnambiguous := by
  have only : ∀ target id', q.Suggests target id' → id' = id := by
    rintro target id' ⟨isTarget, ⟨f, failed, -⟩, infer, p, x, r, infers, source, record, -, found⟩
    exact (copies target f infer r id' isTarget failed infers found).trans
      (source.localId_eq first read copies record)
  intro target id₁ id₂ h₁ h₂
  exact (only target id₁ h₁).trans (only target id₂ h₂).symm

end Copies

/-- What is known of a target, given with what the targets have been tried. -/
inductive Stands (q : Inquiry) (tried : ProviderId → String → Prop) (p : ProviderId)
    (r : Except Fault Output) : Prop
  | untried (h : ∀ id, ¬tried p id) (same : r = q.first p)
  | tried (id : String) (h : tried p id) (more : r = combine (q.first p) (q.read p id))

/-- What is known of a target depends on what it has been tried with only. -/
theorem Stands.congr {r : Except Fault Output} (h : q.Stands tried p r)
    (same : ∀ id, tried' p id ↔ tried p id) : q.Stands tried' p r := by
  cases h with
  | untried h hr => exact .untried (fun id hid => h id ((same id).mp hid)) hr
  | tried id h hr => exact .tried id ((same id).mpr h) hr

/-- What is known of a target is determined if it has been tried with at most one identifier. -/
theorem Stands.eq {r r' : Except Fault Output} (h : q.Stands tried p r) (h' : q.Stands tried p r')
    (unique : ∀ id id', tried p id → tried p id' → id = id') : r = r' := by
  cases h with
  | untried h hr =>
    cases h' with
    | untried _ hr' => rw [hr, hr']
    | tried id h' => exact absurd h' (h id)
  | tried id h hr =>
    cases h' with
    | untried h' => exact absurd h (h' id)
    | tried id' h' hr' => rw [hr, hr', unique id id' h h']

/-- If two results together are a success, the second one is it. -/
theorem eq_of_combine_eq_ok {known new : Except Fault Output} {x : Output}
    (h : combine known new = .ok x) : new = .ok x := by
  cases new with
  | ok y => exact (combine_ok known y).symm.trans h
  | error g => cases known <;> cases h

/-! ## One round -/

/-- The results say what is known of the targets, which have been tried with nothing but what is
    suggested for them. -/
structure Fits (q : Inquiry) (attempted : List (ProviderId × String)) (rs : Results) : Prop where
  suggested : ∀ a ∈ attempted, q.Suggests a.1 a.2
  stands : ∀ e ∈ rs, q.IsTarget e.1 ∧ q.Stands (fun t id => (t, id) ∈ attempted) e.1 e.2

/-- A target that is known to have answered has done so. -/
theorem Fits.returns {x : Output} (h : q.Fits attempted rs) (hx : (p, .ok x) ∈ rs) :
    q.Returns p x := by
  obtain ⟨hp, hstands⟩ := h.stands _ hx
  cases hstands with
  | untried _ hr => exact .first hp hr.symm
  | tried id htried hr =>
    obtain ⟨hp, ⟨f, hf, hcannot⟩, infer, p', y, r, hinfer, hsource, hrecord, hne, hid⟩ :=
      h.suggested _ htried
    exact .again hsource hrecord hne hp hf hcannot hinfer hid (eq_of_combine_eq_ok hr.symm)

/-- A target that cannot infer its identifier could not do so at first. -/
theorem Fits.failed {f : Fault} (h : q.Fits attempted rs) (hf : (p, .error f) ∈ rs)
    (hcannot : f.isCannotInfer = true) : ∃ f, q.first p = .error f ∧ f.isCannotInfer = true := by
  obtain ⟨-, hstands⟩ := h.stands _ hf
  cases hstands with
  | untried _ hr => exact ⟨f, hr.symm, hcannot⟩
  | tried id htried => exact (h.suggested _ htried).failed

/-- There is an attempt only if it is suggested. -/
theorem Fits.suggests {a : ProviderId × String} {source : ProviderId} (h : q.Fits attempted rs)
    (ha : Justified q.infer? (sources rs) rs a source) : q.Suggests a.1 a.2 := by
  obtain ⟨⟨f, hf, hcannot⟩, hne, r, hr, rfl, infer, hinfer, hid⟩ := ha
  obtain ⟨p, x, hx, hrecord⟩ := mem_sources.mp hr
  exact ⟨(h.stands _ hf).1, h.failed hf hcannot, infer, p, x, r, hinfer, h.returns hx, hrecord, hne,
    hid⟩

/-- The results of the attempts of a round are added to what is known of their targets. -/
theorem Fits.absorb {attempts : List (ProviderId × String)} (h : q.Fits m.attempted rs)
    (unambiguous : q.IsUnambiguous) (hkeys : (rs.map Prod.fst).Nodup)
    (planned : plan q.infer? (sources rs) rs m = (m', attempts)) :
    q.Fits m'.attempted (absorbAll (attempts.map fun a => (a.1, q.read a.1 a.2)) rs) := by
  obtain ⟨-, htargets, used, hall, -⟩ := plan_spec planned
  obtain ⟨hattempted, hnew⟩ := plan_attempted planned
  have hsuggested : ∀ a ∈ attempts, q.Suggests a.1 a.2 := by
    intro a ha
    obtain ⟨e, -, -, hjustified⟩ := exists_of_mem_left hall ha
    exact h.suggests hjustified
  have hfst : (attempts.map fun a => (a.1, q.read a.1 a.2)).map Prod.fst =
      attempts.map Prod.fst := by
    rw [List.map_map]
    rfl
  rw [hattempted]
  refine ⟨fun a ha => (List.mem_append.mp ha).elim (h.suggested a) (hsuggested a), fun e he => ?_⟩
  -- A target has not been tried in this round, or with just one identifier.
  rcases mem_absorbAll_cases hkeys (by rw [hfst]; exact hkeys.sublist htargets) he with
    ⟨he, hout⟩ | ⟨known, new, hknown, hmem, hcombine⟩
  · obtain ⟨htarget, hstands⟩ := h.stands e he
    refine ⟨htarget, hstands.congr fun id => ⟨fun hid => ?_, List.mem_append_left _⟩⟩
    rw [hfst] at hout
    exact (List.mem_append.mp hid).resolve_right fun hid => hout (List.mem_map_of_mem hid)
  -- The target was not tried before, since it would have been tried with the same identifier.
  · obtain ⟨⟨t, id⟩, ha, heq⟩ := List.mem_map.mp hmem
    obtain ⟨t', r⟩ := e
    obtain ⟨rfl, rfl⟩ := Prod.mk.inj heq
    obtain rfl : r = combine known (q.read t id) := hcombine
    obtain ⟨htarget, hstands⟩ := h.stands _ hknown
    refine ⟨htarget, ?_⟩
    cases hstands with
    | untried _ hr =>
      obtain rfl : known = q.first t := hr
      exact .tried id (List.mem_append_right _ ha) rfl
    | tried id' htried =>
      obtain rfl := unambiguous t id' id (h.suggested _ htried) (hsuggested _ ha)
      exact absurd htried (hnew _ ha)

end Inquiry

/-! ## All rounds -/

variable {q : Inquiry} {σ : Type} {s s' : σ} {trace : List Attempt} {id : String}
  {round : List (ProviderId × String) → σ → σ × Option (Outcomes Output)}

/-- If every round yields what the targets answer, the results say what is known of them in the
    end. -/
theorem Retries.fits {P : σ → Prop} (h : Retries q.infer? round rs m s trace rs' s')
    (answers : ∀ {attempts s s' o}, P s → (attempts.map Prod.fst).Nodup →
      round attempts s = (s', some o) →
        P s' ∧ o.entries = attempts.map fun a => (a.1, q.read a.1 a.2))
    (hs : P s) (unambiguous : q.IsUnambiguous) (hkeys : (rs.map Prod.fst).Nodup)
    (hfits : q.Fits m.attempted rs) : q.Fits (m.attempted ++ trace.map Attempt.call) rs' := by
  induction h with
  | done =>
    rw [List.map_nil, List.append_nil]
    exact hfits
  | @again rs rs' m m' s s' s'' attempts o trace planned any made answered rest ih =>
    obtain ⟨-, htargets, -, -, -⟩ := plan_spec planned
    obtain ⟨hs', hout⟩ := answers hs (hkeys.sublist htargets) made
    have hkeys' : ((absorbAll o.entries rs).map Prod.fst).Nodup := by
      rw [map_fst_absorbAll]
      exact hkeys
    -- One round adds its own attempts; the rest goes on from there.
    have hround := hfits.absorb unambiguous hkeys planned
    rw [← hout] at hround
    have hrest := ih hs' hkeys' hround
    rw [(plan_attempted planned).1, List.append_assoc] at hrest
    rw [List.map_append, map_call_attemptsOf]
    exact hrest

/-- Rounds have come to their end, and at most one identifier is suggested for each target. -/
structure Concludes (q : Inquiry) (trace : List Attempt) (rs' : Results) : Prop where
  fits : q.Fits (trace.map Attempt.call) rs'
  isTarget : ∀ p, q.IsTarget p → ∃ r, (p, r) ∈ rs'
  unambiguous : q.IsUnambiguous
  /-- Nothing is left to infer. -/
  exhausts : ∀ {target f infer r id}, (target, .error f) ∈ rs' → f.isCannotInfer = true →
    q.infer? target = some infer → r ∈ sources rs' → r.provider ≠ target → infer r = .ok id →
    (target, id) ∈ trace.map Attempt.call

/-- Rounds that fit and have come to their end conclude the inquiry. -/
theorem Retries.concludes (h : Retries q.infer? round rs {} s trace rs' s')
    (hkeys : (rs.map Prod.fst).Nodup) (isTarget : ∀ p, q.IsTarget p → p ∈ rs.map Prod.fst)
    (unambiguous : q.IsUnambiguous) (hfits : q.Fits (trace.map Attempt.call) rs')
    (hdistinct : AreDistinct (sources rs')) : Concludes q trace rs' where
  fits := hfits
  isTarget p hp := by
    have hmem := isTarget p hp
    rw [← (h.keeps hkeys).1.1] at hmem
    obtain ⟨⟨p, r⟩, hr, rfl⟩ := List.mem_map.mp hmem
    exact ⟨r, hr⟩
  unambiguous := unambiguous
  exhausts htarget hcannot hinfer hr hne hid :=
    h.exhausts hkeys hdistinct (.empty _ _) htarget hcannot hinfer hr hne hid

/-- What a target finds in a record that is held in the end, it has been tried with. -/
theorem Concludes.tried {f : Fault} {infer : Record → Except Fault String} {x : Output} {r : Record}
    (h : Concludes q trace rs') (isTarget : q.IsTarget target) (failed : q.first target = .error f)
    (cannot : f.isCannotInfer = true) (infers : q.infer? target = some infer)
    (source : (p, .ok x) ∈ rs') (record : x.record? = some r) (other : r.provider ≠ target)
    (inferred : infer r = .ok id) : (target, id) ∈ trace.map Attempt.call := by
  obtain ⟨known, hknown⟩ := h.isTarget target isTarget
  obtain ⟨-, hstands⟩ := h.fits.stands _ hknown
  cases hstands with
  | untried _ hr =>
    obtain rfl : known = .error f := hr.trans failed
    exact h.exhausts hknown cannot infers (mem_sources.mpr ⟨p, x, source, record⟩) other inferred
  | tried id' htried =>
    -- It has been tried with something that is suggested, and so is this.
    have hsuggests : q.Suggests target id :=
      ⟨isTarget, ⟨f, failed, cannot⟩, infer, p, x, r, infers, h.fits.returns source, record, other,
        inferred⟩
    rw [h.unambiguous target id id' hsuggests (h.fits.suggested _ htried)]
    exact htried

/-- What can be returned is returned. -/
theorem Concludes.mem_of_returns {x : Output} (h : Concludes q trace rs') (hx : q.Returns p x) :
    (p, .ok x) ∈ rs' := by
  -- Induction on why it can be returned.
  induction hx with
  | @first p x target returned =>
    obtain ⟨r, hr⟩ := h.isTarget p target
    obtain ⟨-, hstands⟩ := h.fits.stands _ hr
    cases hstands with
    | untried _ hsame =>
      obtain rfl : r = .ok x := hsame.trans returned
      exact hr
    | tried id htried =>
      obtain ⟨f, hf, -⟩ := (h.fits.suggested _ htried).failed
      exact nomatch returned.symm.trans hf
  | @again p target x y r f infer id source record other isTarget failed cannot infers inferred
      returned ih =>
    have htried := h.tried isTarget failed cannot infers ih record other inferred
    obtain ⟨known, hknown⟩ := h.isTarget target isTarget
    obtain ⟨-, hstands⟩ := h.fits.stands _ hknown
    cases hstands with
    | untried hnone => exact absurd htried (hnone id)
    | tried id' htried' hmore =>
      obtain rfl : id = id' := h.unambiguous target id id' (h.fits.suggested _ htried)
        (h.fits.suggested _ htried')
      obtain rfl : known = .ok y := hmore.trans (by rw [returned, combine_ok])
      exact hknown

/-- In the end, the targets have been tried with what is suggested for them. -/
theorem Concludes.suggests_iff (h : Concludes q trace rs') :
    (target, id) ∈ trace.map Attempt.call ↔ q.Suggests target id := by
  constructor
  · exact fun hid => h.fits.suggested _ hid
  · rintro ⟨hp, ⟨f, hf, hcannot⟩, infer, p, x, r, hinfer, hsource, hrecord, hne, hid⟩
    exact h.tried hp hf hcannot hinfer (h.mem_of_returns hsource) hrecord hne hid

/-- In the end, it is known of each target what is suggested for it. -/
theorem Concludes.mem_iff {r : Except Fault Output} (h : Concludes q trace rs') :
    (p, r) ∈ rs' ↔ q.IsTarget p ∧ q.Stands q.Suggests p r := by
  have hstands : ∀ {r}, (p, r) ∈ rs' → q.IsTarget p ∧ q.Stands q.Suggests p r := by
    intro r hr
    obtain ⟨hp, hstands⟩ := h.fits.stands _ hr
    exact ⟨hp, hstands.congr fun id => h.suggests_iff.symm⟩
  refine ⟨hstands, fun ⟨hp, hr⟩ => ?_⟩
  obtain ⟨r', hmem⟩ := h.isTarget p hp
  rw [hr.eq (hstands hmem).2 (h.unambiguous p)]
  exact hmem

end Federation.Inference
