import Federation.Proofs.Coordinator.Inference

/-!
# When nothing is left to infer

A target consults each source once, and it makes an attempt with whatever it infers there that it has
not been tried with.  So a source that was consulted has nothing more to offer, provided that it has
no other record.  When the rounds have ended, a target that still cannot infer its identifier has
consulted every source, and so it has been tried with whatever any of their records suggests.

## Key results

- `consult_attempted`, `plan_attempted`: what is attempted is new
- `consult_covers`, `plan_covers`: a source that was consulted has nothing more to offer
- `plan_nil_spec`: a target that makes no attempt has consulted all sources
- `Retries.exhausts`: what a target has been tried with that cannot infer its identifier in the end
-/

namespace Federation.Inference

variable {infer? : ProviderId → Option (Record → Except Fault String)} {target : ProviderId}
  {infer : Record → Except Fault String} {records last : List Record} {rest rs rs' : Results}
  {m m' : Memory}

/-- Whatever a target infers from the record of a source that it has consulted has been
    attempted. -/
def Memory.Covers (infer? : ProviderId → Option (Record → Except Fault String))
    (records : List Record) (m : Memory) : Prop :=
  ∀ target infer, infer? target = some infer → ∀ r ∈ records,
    (target, r.provider) ∈ m.consulted → ∀ id, infer r = .ok id → (target, id) ∈ m.attempted

/-- Sources have one record each. -/
def AreDistinct (records : List Record) : Prop :=
  ∀ r ∈ records, ∀ r' ∈ records, r.provider = r'.provider → r = r'

/-! ## What is attempted -/

/-- What a target finds that is to be tried again is new, and it is noted. -/
theorem consult_attempted {id? : Option String}
    (h : consult infer target records m = (m', id?)) :
    m'.attempted = m.attempted ++ (id?.map fun id => (target, id)).toList ∧
      ∀ id, id? = some id → (target, id) ∉ m.attempted := by
  induction records generalizing m with
  | nil =>
    obtain ⟨rfl, rfl⟩ := Prod.mk.inj h
    exact ⟨(List.append_nil _).symm, nofun⟩
  | cons r records ih =>
    -- To consult one more source is no attempt.
    have pass : ∀ {n : Memory}, consult infer target records n = (m', id?) →
        n.attempted = m.attempted →
        m'.attempted = m.attempted ++ (id?.map fun id => (target, id)).toList ∧
          ∀ id, id? = some id → (target, id) ∉ m.attempted := by
      intro n hconsult hn
      rw [← hn]
      exact ih hconsult
    rw [consult] at h
    -- A source is passed over if it was consulted, if nothing follows from it, or if that was
    -- tried.
    by_cases hskip : r.provider = target ∨ (target, r.provider) ∈ m.consulted
    · rw [if_pos hskip] at h
      exact pass h rfl
    · rw [if_neg hskip] at h
      cases hinfer : infer r with
      | error f =>
        rw [hinfer] at h
        exact pass h rfl
      | ok id =>
        rw [hinfer] at h
        dsimp only at h
        by_cases htried : (target, id) ∈ m.attempted
        · rw [if_pos htried] at h
          exact pass h rfl
        · rw [if_neg htried] at h
          obtain ⟨rfl, rfl⟩ := Prod.mk.inj h
          exact ⟨rfl, fun id' hid => Option.some.inj hid ▸ htried⟩

/-- The attempts of a round are new, and they are noted. -/
theorem plan_attempted {attempts : List (ProviderId × String)}
    (h : plan infer? records rest m = (m', attempts)) :
    m'.attempted = m.attempted ++ attempts ∧ ∀ a ∈ attempts, a ∉ m.attempted := by
  induction rest generalizing m attempts with
  | nil =>
    obtain ⟨rfl, rfl⟩ := Prod.mk.inj h
    exact ⟨(List.append_nil _).symm, nofun⟩
  | cons x rest ih =>
    unfold plan at h
    -- Only a target that has a rule, and fails for lack of a name, consults the sources.
    split at h
    · split at h
      · next n id hconsult =>
        obtain ⟨hn, hnew⟩ := consult_attempted hconsult
        cases hplan : plan infer? records rest n with
        | mk m'' attempts' =>
          rw [hplan] at h
          obtain ⟨rfl, rfl⟩ := Prod.mk.inj h
          obtain ⟨hm'', hnew'⟩ := ih hplan
          refine ⟨?_, fun a ha => ?_⟩
          · rw [hm'', hn, List.append_assoc]
            rfl
          · rcases List.mem_cons.mp ha with rfl | ha
            · exact hnew id rfl
            · exact fun hmem => hnew' a ha (hn ▸ List.mem_append_left _ hmem)
      · next n hconsult =>
        obtain ⟨hn, -⟩ := consult_attempted hconsult
        rw [Option.map_none, Option.toList_none, List.append_nil] at hn
        rw [← hn]
        exact ih h
    · exact ih h

/-! ## One target -/

/-- As long as no source has been consulted, nothing is missing. -/
theorem Memory.Covers.empty (infer? : ProviderId → Option (Record → Except Fault String))
    (records : List Record) : Memory.Covers infer? records {} :=
  fun _ _ _ _ _ hused => absurd hused List.not_mem_nil

/-- A target consults one more source and takes up what it infers there. -/
theorem Memory.Covers.consult_one {r : Record} {attempted : List (ProviderId × String)}
    (h : m.Covers infer? last) (hdistinct : AreDistinct last) (hr : r ∈ last)
    (hinfer : infer? target = some infer) (hsub : m.attempted ⊆ attempted)
    (hid : ∀ id, infer r = .ok id → (target, id) ∈ attempted) :
    Memory.Covers infer? last ⟨m.consulted ++ [(target, r.provider)], attempted⟩ := by
  intro t infer' hinfer' r' hr' hused id hid'
  rcases List.mem_append.mp hused with hused | hused
  · exact hsub (h t infer' hinfer' r' hr' hused id hid')
  · obtain ⟨rfl, hprovider⟩ := Prod.mk.inj (List.mem_singleton.mp hused)
    obtain rfl := Option.some.inj (hinfer.symm.trans hinfer')
    obtain rfl := hdistinct r' hr' r hr hprovider
    exact hid id hid'

/-- When the sources are consulted for one target, whatever it infers is attempted, and if it finds
    nothing to attempt, it has consulted all of them. -/
theorem consult_covers {id? : Option String} (hdistinct : AreDistinct last)
    (hrecords : records ⊆ last) (hinfer : infer? target = some infer)
    (hm : m.Covers infer? last) (h : consult infer target records m = (m', id?)) :
    m'.Covers infer? last ∧
      (id? = none → ∀ r ∈ records, r.provider = target ∨ (target, r.provider) ∈ m'.consulted) := by
  induction records generalizing m with
  | nil =>
    obtain ⟨rfl, rfl⟩ := Prod.mk.inj h
    exact ⟨hm, fun _ _ hr => absurd hr List.not_mem_nil⟩
  | cons r records ih =>
    obtain ⟨hr, hrecords⟩ := List.cons_subset.mp hrecords
    -- What is passed over has been consulted, or is the record of the target itself.
    have pass : ∀ {n : Memory}, n.Covers infer? last →
        (r.provider = target ∨ (target, r.provider) ∈ n.consulted) →
        consult infer target records n = (m', id?) →
        m'.Covers infer? last ∧ (id? = none →
          ∀ x ∈ r :: records, x.provider = target ∨ (target, x.provider) ∈ m'.consulted) := by
      intro n hn hpassed hconsult
      obtain ⟨hcovers, hall⟩ := ih hrecords hn hconsult
      refine ⟨hcovers, fun hnone x hx => ?_⟩
      rcases List.mem_cons.mp hx with rfl | hx
      · exact hpassed.imp_right fun hmem => consulted_subset hconsult hmem
      · exact hall hnone x hx
    rw [consult] at h
    by_cases hskip : r.provider = target ∨ (target, r.provider) ∈ m.consulted
    · rw [if_pos hskip] at h
      exact pass hm hskip h
    · rw [if_neg hskip] at h
      have hused : (target, r.provider) ∈ m.consulted ++ [(target, r.provider)] :=
        List.mem_append_right _ (List.mem_singleton.mpr rfl)
      cases hid : infer r with
      | error f =>
        rw [hid] at h
        refine pass (hm.consult_one hdistinct hr hinfer (List.Subset.refl _) ?_) (.inr hused) h
        intro id he
        cases hid.symm.trans he
      | ok id =>
        rw [hid] at h
        dsimp only at h
        have hsame : ∀ id', infer r = .ok id' → id' = id := fun id' he =>
          (Except.ok.inj (hid.symm.trans he)).symm
        by_cases htried : (target, id) ∈ m.attempted
        · rw [if_pos htried] at h
          refine pass (hm.consult_one hdistinct hr hinfer (List.Subset.refl _) ?_) (.inr hused) h
          exact fun id' he => hsame id' he ▸ htried
        -- This is new, so the target is tried with it.
        · rw [if_neg htried] at h
          obtain ⟨rfl, rfl⟩ := Prod.mk.inj h
          refine ⟨hm.consult_one hdistinct hr hinfer (List.subset_append_left _ _) ?_,
            fun hnone => absurd hnone (Option.some_ne_none id)⟩
          exact fun id' he => hsame id' he ▸ List.mem_append_right _ (List.mem_singleton.mpr rfl)

/-! ## One round -/

/-- When a round is planned, whatever targets infer from the sources they consult is attempted. -/
theorem plan_covers {attempts : List (ProviderId × String)} (hdistinct : AreDistinct last)
    (hrecords : records ⊆ last) (hm : m.Covers infer? last)
    (h : plan infer? records rest m = (m', attempts)) : m'.Covers infer? last := by
  induction rest generalizing m attempts with
  | nil =>
    obtain ⟨rfl, rfl⟩ := Prod.mk.inj h
    exact hm
  | cons x rest ih =>
    -- Each target in turn consults the sources, if it has a rule and fails for lack of a name.
    unfold plan at h
    split at h
    · next infer hinfer _ =>
      split at h
      · next n id hconsult =>
        obtain ⟨hn, -⟩ := consult_covers hdistinct hrecords hinfer hm hconsult
        cases hplan : plan infer? records rest n with
        | mk m'' attempts' =>
          rw [hplan] at h
          obtain ⟨rfl, rfl⟩ := Prod.mk.inj h
          exact ih hn hplan
      · next n hconsult =>
        obtain ⟨hn, -⟩ := consult_covers hdistinct hrecords hinfer hm hconsult
        exact ih hn h
    · exact ih hm h

/-- If no attempt is made, the targets that cannot infer their identifiers have consulted all
    sources. -/
theorem plan_nil_spec {f : Fault} (hdistinct : AreDistinct last) (hrecords : records ⊆ last)
    (hm : m.Covers infer? last) (h : plan infer? records rest m = (m', []))
    (htarget : (target, .error f) ∈ rest) (hcannot : f.isCannotInfer = true)
    (hinfer : infer? target = some infer) :
    ∀ r ∈ records, r.provider = target ∨ (target, r.provider) ∈ m'.consulted := by
  induction rest generalizing m with
  | nil => exact absurd htarget List.not_mem_nil
  | cons x rest ih =>
    obtain ⟨t, result⟩ := x
    unfold plan at h
    split at h
    · next infer' hinfer' _ =>
      split at h
      · next n id hconsult => exact absurd (Prod.mk.inj h).2 (List.cons_ne_nil _ _)
      · next n hconsult =>
        obtain ⟨hn, hall⟩ := consult_covers hdistinct hrecords hinfer' hm hconsult
        rcases List.mem_cons.mp htarget with heq | htarget
        · obtain ⟨rfl, -⟩ := Prod.mk.inj heq
          intro r hr
          exact (hall rfl r hr).imp_right fun hmem => (plan_spec h).1 hmem
        · exact ih hn h htarget
    · next hpassed =>
      rcases List.mem_cons.mp htarget with heq | htarget
      -- A target that cannot infer its identifier is not passed over.
      · obtain ⟨rfl, rfl⟩ := Prod.mk.inj heq
        exact absurd hcannot (hpassed infer hinfer)
      · exact ih hm h htarget

/-! ## All rounds -/

variable {σ : Type} {s s' : σ} {trace : List Attempt}
  {round : List (ProviderId × String) → σ → σ × Option (Outcomes Output)}

/-- With what an attempt is made. -/
def Attempt.call (a : Attempt) : ProviderId × String := (a.target, a.localId)

/-- The calls of the attempts of a round are those planned. -/
theorem map_call_attemptsOf (rs : Results) (attempts : List (ProviderId × String)) :
    (attemptsOf rs attempts).map Attempt.call = attempts := by
  unfold attemptsOf
  rw [List.map_map]
  exact List.map_id _

/-- A target that cannot infer its identifier in the end has been tried with whatever it infers from
    a record of another one. -/
theorem Retries.exhausts (h : Retries infer? round rs m s trace rs' s')
    (hkeys : (rs.map Prod.fst).Nodup) (hdistinct : AreDistinct (sources rs'))
    (hm : m.Covers infer? (sources rs')) {f : Fault} (htarget : (target, .error f) ∈ rs')
    (hcannot : f.isCannotInfer = true) (hinfer : infer? target = some infer) {r : Record}
    (hr : r ∈ sources rs') (hne : r.provider ≠ target) {id : String} (hid : infer r = .ok id) :
    (target, id) ∈ m.attempted ++ trace.map Attempt.call := by
  -- Induction on the rounds: what was attempted in a round is in its part of the trace.
  induction h with
  | @done rs m m' s planned =>
    have hm' := plan_covers hdistinct (List.Subset.refl _) hm planned
    have hall := plan_nil_spec hdistinct (List.Subset.refl _) hm planned htarget hcannot hinfer
    have hused := (hall r hr).resolve_left hne
    have hmem := hm' target infer hinfer r hr hused id hid
    rw [(plan_attempted planned).1] at hmem
    exact hmem
  | @again rs rs' m m' s s' s'' attempts o trace planned any made answered rest ih =>
    have hkept := ((Retries.again planned any made answered rest).keeps hkeys).1.2
    have hm' := plan_covers hdistinct hkept.sources hm planned
    have hkeys' : ((absorbAll o.entries rs).map Prod.fst).Nodup := by
      rw [map_fst_absorbAll]
      exact hkeys
    have hmem := ih hkeys' hdistinct hm' htarget hr
    rw [(plan_attempted planned).1, List.append_assoc] at hmem
    rw [List.map_append, map_call_attemptsOf]
    exact hmem

end Federation.Inference
