import Federation.Coordinator.Inference
import Federation.Proofs.Lists
import Mathlib.Data.List.Perm.Subperm
import Mathlib.Data.List.ProdSigma

/-!
# Why inferring comes to an end

In each round, some targets that could not infer their local identifiers are tried again.  Every such
attempt uses up a source that its target has not consulted before.  Sources are the providers of the
records that are held, of which there are at most as many as there are targets, and a record that is
held once is held until the end.  So there are at most as many attempts as there are pairs of targets.

## Key results

- `plan_spec`: why an attempt is made
- `mem_absorbAll`: what is known of a target that is not tried again
- `Retries.length_attempts_le`: how many attempts there are at most
- `exists_retries`: rounds of attempts come to an end
- `retries_of_repeatedly`: rounds that have yielded results have come to their end
- `repeatedly_mono`: waiting longer for each round makes no difference
-/

namespace Federation.Inference

variable {infer? : ProviderId → Option (Record → Except Fault String)} {target : ProviderId}
  {records : List Record} {rest rs rs' : Results} {m m' : Memory}

/-! ## Sources -/

/-- The sources are the records among the results. -/
theorem mem_sources {r : Record} :
    r ∈ sources rs ↔ ∃ p o, (p, .ok o) ∈ rs ∧ o.record? = some r := by
  unfold sources
  rw [List.mem_filterMap]
  constructor
  · rintro ⟨⟨p, x⟩, hmem, hr⟩
    cases x with
    | error f => exact nomatch hr
    | ok o => exact ⟨p, o, hmem, hr⟩
  · rintro ⟨p, o, hmem, hr⟩
    exact ⟨(p, .ok o), hmem, hr⟩

/-- What a target has found that is to be tried again. -/
theorem consult_spec {infer : Record → Except Fault String} {id : String}
    (h : consult infer target records m = (m', some id)) :
    ∃ r ∈ records, r.provider ≠ target ∧ infer r = .ok id ∧
      (target, r.provider) ∉ m.consulted ∧ (target, r.provider) ∈ m'.consulted := by
  induction records generalizing m with
  | nil => exact nomatch h
  | cons r records ih =>
    -- What is found in a later record is found, as nothing that was consulted is forgotten.
    have later : ∀ {n : Memory}, m.consulted ⊆ n.consulted →
        consult infer target records n = (m', some id) →
        ∃ x ∈ r :: records, x.provider ≠ target ∧ infer x = .ok id ∧
          (target, x.provider) ∉ m.consulted ∧ (target, x.provider) ∈ m'.consulted := by
      intro n hn hx
      obtain ⟨x, hmem, hne, hid, hnew, hused⟩ := ih hx
      exact ⟨x, List.mem_cons_of_mem r hmem, hne, hid, fun hm => hnew (hn hm), hused⟩
    rw [consult] at h
    -- The three ways to pass over a record, and the one to stop at it.
    by_cases hskip : r.provider = target ∨ (target, r.provider) ∈ m.consulted
    · rw [if_pos hskip] at h
      exact later (List.Subset.refl _) h
    · rw [if_neg hskip] at h
      rw [not_or] at hskip
      cases hinfer : infer r with
      | error f =>
        rw [hinfer] at h
        exact later (List.subset_append_left _ _) h
      | ok id' =>
        rw [hinfer] at h
        dsimp only at h
        by_cases htried : (target, id') ∈ m.attempted
        · rw [if_pos htried] at h
          exact later (List.subset_append_left _ _) h
        · rw [if_neg htried, Prod.mk.injEq, Option.some.injEq] at h
          obtain ⟨rfl, rfl⟩ := h
          refine ⟨r, List.mem_cons_self, hskip.1, hinfer, hskip.2, ?_⟩
          exact List.mem_append_right _ (List.mem_singleton.mpr rfl)

/-- Who has been consulted once remains so. -/
theorem consulted_subset {infer : Record → Except Fault String} {id? : Option String}
    (h : consult infer target records m = (m', id?)) : m.consulted ⊆ m'.consulted := by
  intro e he
  have hmem : e ∈ (consult infer target records m).1.consulted := consulted_consult he
  rw [h] at hmem
  exact hmem

/-! ## One round -/

/-- Why an attempt is made: its target has failed to infer an identifier, but finds one in the
    record of a source. -/
structure Justified (infer? : ProviderId → Option (Record → Except Fault String))
    (records : List Record) (rs : Results) (attempt : ProviderId × String) (source : ProviderId) :
    Prop where
  unnamed : ∃ f, (attempt.1, .error f) ∈ rs ∧ f.isCannotInfer = true
  other : source ≠ attempt.1
  inferred : ∃ r ∈ records, r.provider = source ∧
    ∃ infer, infer? attempt.1 = some infer ∧ infer r = .ok attempt.2

/-- What is justified by some results is justified by more. -/
theorem Justified.mono {attempt : ProviderId × String} {source : ProviderId}
    (h : Justified infer? records rest attempt source) (hrs : rest ⊆ rs) :
    Justified infer? records rs attempt source := by
  obtain ⟨f, hf, hcannot⟩ := h.unnamed
  exact ⟨⟨f, hrs hf, hcannot⟩, h.other, h.inferred⟩

/-- The attempts of a round are for different targets, in their order, and each uses up a source
    that its target has not consulted before. -/
theorem plan_spec {attempts : List (ProviderId × String)}
    (h : plan infer? records rest m = (m', attempts)) :
    m.consulted ⊆ m'.consulted ∧
      (attempts.map Prod.fst).Sublist (rest.map Prod.fst) ∧
      ∃ used : List (ProviderId × ProviderId),
        List.Forall₂ (fun a e => e.1 = a.1 ∧ Justified infer? records rest a e.2) attempts used ∧
        ∀ e ∈ used, e ∉ m.consulted ∧ e ∈ m'.consulted := by
  -- Induction on the targets that are left, with what was consulted before.
  induction rest generalizing m attempts with
  | nil =>
    obtain ⟨rfl, rfl⟩ := Prod.mk.inj h
    exact ⟨List.Subset.refl _, List.Sublist.refl _, [], .nil, nofun⟩
  | cons x rest ih =>
    obtain ⟨target, result⟩ := x
    -- A target that is passed over adds nothing but what it has consulted.
    have skip : ∀ {n : Memory}, m.consulted ⊆ n.consulted →
        plan infer? records rest n = (m', attempts) →
        m.consulted ⊆ m'.consulted ∧
          (attempts.map Prod.fst).Sublist (((target, result) :: rest).map Prod.fst) ∧
          ∃ used : List (ProviderId × ProviderId),
            List.Forall₂ (fun a e => e.1 = a.1 ∧
              Justified infer? records ((target, result) :: rest) a e.2) attempts used ∧
            ∀ e ∈ used, e ∉ m.consulted ∧ e ∈ m'.consulted := by
      intro n hn hplan
      obtain ⟨hsub, hkeys, used, hall, hnew⟩ := ih hplan
      refine ⟨List.Subset.trans hn hsub, hkeys.cons target, used, hall.imp fun a e h => ?_, fun e he => ?_⟩
      · exact ⟨h.1, h.2.mono (List.subset_cons_self _ _)⟩
      · exact ⟨fun hm => (hnew e he).1 (hn hm), (hnew e he).2⟩
    unfold plan at h
    split at h
    · next infer hinfer hinferable =>
      split at h
      · next n id hconsult =>
        -- This target is tried again.
        obtain ⟨r, hr, hne, hid, hnew, hused⟩ := consult_spec hconsult
        have hn := consulted_subset hconsult
        cases hplan : plan infer? records rest n with
        | mk m'' attempts' =>
          rw [hplan] at h
          obtain ⟨rfl, rfl⟩ := Prod.mk.inj h
          obtain ⟨hsub, hkeys, used, hall, hnew'⟩ := ih hplan
          have hresult : ∃ f, result = .error f ∧ f.isCannotInfer = true := by
            cases result with
            | ok o => exact nomatch hinferable
            | error f => exact ⟨f, rfl, hinferable⟩
          obtain ⟨f, rfl, hcannot⟩ := hresult
          refine ⟨List.Subset.trans hn hsub, hkeys.cons_cons target, (target, r.provider) :: used,
            .cons ⟨rfl, ⟨f, List.mem_cons_self, hcannot⟩, hne, r, hr, rfl, infer, hinfer, hid⟩
              (hall.imp fun a e h => ⟨h.1, h.2.mono (List.subset_cons_self _ _)⟩), ?_⟩
          intro e he
          rcases List.mem_cons.mp he with rfl | he
          · exact ⟨hnew, hsub hused⟩
          · exact ⟨fun hm => (hnew' e he).1 (hn hm), (hnew' e he).2⟩
      · next n hconsult => exact skip (consulted_subset hconsult) h
    · exact skip (List.Subset.refl _) h

/-! ## What a round changes -/

/-- A result of another target stays as it is. -/
theorem mem_absorb {new e : ProviderId × Except Fault Output} (h : e ∈ rs) (hne : e.1 ≠ new.1) :
    e ∈ absorb new rs := by
  induction rs with
  | nil => exact absurd h List.not_mem_nil
  | cons r rs ih =>
    unfold absorb
    rcases List.mem_cons.mp h with rfl | h
    · rw [if_neg hne]
      exact List.mem_cons_self
    · by_cases hr : r.1 = new.1
      · rw [if_pos hr]
        exact List.mem_cons_of_mem _ h
      · rw [if_neg hr]
        exact List.mem_cons_of_mem _ (ih h)

/-- What is known of a target that is not tried again. -/
theorem mem_absorbAll {round : Results} {e : ProviderId × Except Fault Output} (h : e ∈ rs)
    (hne : e.1 ∉ round.map Prod.fst) : e ∈ absorbAll round rs := by
  unfold absorbAll
  induction round generalizing rs with
  | nil => exact h
  | cons new round ih =>
    rw [List.map_cons, List.mem_cons, not_or] at hne
    exact ih (mem_absorb h hne.1) hne.2

/-- A success is known already, or it is the result of an attempt of the round. -/
theorem mem_ok_absorbAll {round : Results} {p : ProviderId} {o : Output}
    (h : (p, .ok o) ∈ absorbAll round rs) : (p, .ok o) ∈ rs ∨ (p, .ok o) ∈ round := by
  have one : ∀ {new : ProviderId × Except Fault Output} {rs : Results},
      (p, .ok o) ∈ absorb new rs → (p, .ok o) ∈ rs ∨ (p, .ok o) = new := by
    intro new rs h
    induction rs with
    | nil => exact absurd h List.not_mem_nil
    | cons r rs ih =>
      unfold absorb at h
      split at h
      · next hkey =>
        rcases List.mem_cons.mp h with heq | h
        · -- Two results make a success only if the new one is that success.
          obtain ⟨q, known⟩ := r
          obtain ⟨q', result⟩ := new
          obtain ⟨rfl, hok⟩ := Prod.mk.inj heq
          obtain rfl : p = q' := hkey
          cases result with
          | ok x => exact .inr (congrArg (Prod.mk p) (hok.trans (combine_ok known x)))
          | error g => cases known <;> cases hok
        · exact .inl (List.mem_cons_of_mem r h)
      · rcases List.mem_cons.mp h with heq | h
        · exact .inl (heq ▸ List.mem_cons_self)
        · exact (ih h).imp_left (List.mem_cons_of_mem r)
  unfold absorbAll at h
  -- The results of a round are absorbed one after the other.
  induction round generalizing rs with
  | nil => exact .inl h
  | cons new round ih =>
    rcases ih h with h | h
    · rcases one h with h | heq
      · exact .inl h
      · exact .inr (heq ▸ List.mem_cons_self)
    · exact .inr (List.mem_cons_of_mem new h)

/-- Successes are held on to. -/
def Keeps (rs rs' : Results) : Prop := ∀ p o, (p, .ok o) ∈ rs → (p, .ok o) ∈ rs'

/-- What is kept in two steps is kept. -/
theorem Keeps.trans {rs'' : Results} (h : Keeps rs rs') (k : Keeps rs' rs'') : Keeps rs rs'' :=
  fun p o hmem => k p o (h p o hmem)

/-- As long as results are kept, so are the records. -/
theorem Keeps.sources (h : Keeps rs rs') : sources rs ⊆ sources rs' := by
  intro r hr
  obtain ⟨p, o, hmem, hrecord⟩ := mem_sources.mp hr
  exact mem_sources.mpr ⟨p, o, h p o hmem, hrecord⟩

/-- A target that has succeeded is not tried again. -/
theorem Justified.not_ok {attempt : ProviderId × String} {source : ProviderId}
    (h : Justified infer? records rs attempt source) (hkeys : (rs.map Prod.fst).Nodup)
    (o : Output) : (attempt.1, .ok o) ∉ rs := by
  intro hok
  obtain ⟨f, hf, -⟩ := h.unnamed
  exact nomatch eq_of_mem_of_nodup hkeys hok hf

/-- A round leaves successes alone, if it yields results for the targets of its attempts only. -/
theorem keeps_absorbAll {attempts : List (ProviderId × String)}
    {used : List (ProviderId × ProviderId)} {round : Results}
    (hkeys : (rs.map Prod.fst).Nodup)
    (hall : List.Forall₂ (fun a e => e.1 = a.1 ∧ Justified infer? records rs a e.2) attempts used)
    (hround : round.map Prod.fst = attempts.map Prod.fst) : Keeps rs (absorbAll round rs) := by
  intro p o hmem
  refine mem_absorbAll hmem fun htried => ?_
  rw [hround] at htried
  obtain ⟨a, ha, rfl⟩ := List.mem_map.mp htried
  obtain ⟨e, -, -, hjustified⟩ := exists_of_mem_left hall ha
  exact hjustified.not_ok hkeys o hmem

/-! ## What is used up -/

/-- The pairs of a target and a source that attempts have used up. -/
structure Used (rs : Results) (m : Memory) (used : List (ProviderId × ProviderId)) : Prop where
  nodup : used.Nodup
  consulted : used ⊆ m.consulted
  target : ∀ e ∈ used, e.1 ∈ rs.map Prod.fst
  source : ∀ e ∈ used, e.2 ∈ (sources rs).map Record.provider

/-- In the beginning no pair is used. -/
theorem Used.nil (rs : Results) (m : Memory) : Used rs m [] :=
  ⟨List.nodup_nil, List.nil_subset _, nofun, nofun⟩

/-- There are no more of them than pairs of targets. -/
theorem Used.length_le {used : List (ProviderId × ProviderId)} (h : Used rs m used) :
    used.length ≤ rs.length * rs.length := by
  have hsub : used ⊆ (rs.map Prod.fst) ×ˢ ((sources rs).map Record.provider) := fun e he =>
    List.mem_product.mpr ⟨h.target e he, h.source e he⟩
  have hle := (h.nodup.subperm hsub).length_le
  have hsources : (sources rs).length ≤ rs.length := List.length_filterMap_le _ _
  rw [List.length_product, List.length_map, List.length_map] at hle
  exact Nat.le_trans hle (Nat.mul_le_mul_left _ hsources)

/-- The attempts of a round use up pairs of their own. -/
theorem Used.round {used new : List (ProviderId × ProviderId)}
    {attempts : List (ProviderId × String)} {round : Results} (h : Used rs m used)
    (hkeys : (rs.map Prod.fst).Nodup) (hsub : m.consulted ⊆ m'.consulted)
    (htargets : (attempts.map Prod.fst).Sublist (rs.map Prod.fst))
    (hall : List.Forall₂ (fun a e => e.1 = a.1 ∧ Justified infer? (sources rs) rs a e.2)
      attempts new)
    (hnew : ∀ e ∈ new, e ∉ m.consulted ∧ e ∈ m'.consulted)
    (hround : round.map Prod.fst = attempts.map Prod.fst) :
    Used (absorbAll round rs) m' (used ++ new) := by
  have hfst : new.map Prod.fst = attempts.map Prod.fst := map_eq_of_forall₂ hall
  have hnodup : new.Nodup := by
    refine List.Nodup.of_map Prod.fst ?_
    rw [hfst]
    exact hkeys.sublist htargets
  have hkept := (keeps_absorbAll hkeys hall hround).sources
  refine ⟨?nodup, ?consulted, ?target, ?source⟩
  case nodup =>
    -- What is new was not consulted before, so it is not among what was used.
    rw [List.nodup_append]
    refine ⟨h.nodup, hnodup, fun x hx y hy hxy => ?_⟩
    exact (hnew y hy).1 (h.consulted (hxy ▸ hx))
  case consulted =>
    intro e he
    rcases List.mem_append.mp he with he | he
    · exact hsub (h.consulted he)
    · exact (hnew e he).2
  case target =>
    intro e he
    rw [map_fst_absorbAll]
    rcases List.mem_append.mp he with he | he
    · exact h.target e he
    · exact htargets.subset (hfst ▸ List.mem_map_of_mem he)
  case source =>
    -- A source is the provider of a record that is held, and that record is kept.
    intro e he
    rcases List.mem_append.mp he with he | he
    · obtain ⟨r, hr, hp⟩ := List.mem_map.mp (h.source e he)
      exact List.mem_map.mpr ⟨r, hkept hr, hp⟩
    · obtain ⟨a, -, -, hjustified⟩ := exists_of_mem_right hall he
      obtain ⟨r, hr, hp, -⟩ := hjustified.inferred
      exact List.mem_map.mpr ⟨r, hkept hr, hp⟩

/-! ## Rounds -/

/-- An attempt to call a target with an identifier that was inferred, and what was known when it was
    made. -/
structure Attempt where
  known : Results
  target : ProviderId
  localId : String

/-- The attempts of a round. -/
def attemptsOf (rs : Results) (attempts : List (ProviderId × String)) : List Attempt :=
  attempts.map fun a => ⟨rs, a.1, a.2⟩

variable {σ : Type} {s s' : σ} {trace : List Attempt}
  {round : List (ProviderId × String) → σ → σ × Option (Outcomes Output)}

/-- Rounds of attempts are made until there is nothing left to try.  Each round yields one result
    for each of its attempts, which are recorded in the order in which they are made. -/
inductive Retries (infer? : ProviderId → Option (Record → Except Fault String))
    (round : List (ProviderId × String) → σ → σ × Option (Outcomes Output)) :
    Results → Memory → σ → List Attempt → Results → σ → Prop
  | done {rs : Results} {m m' : Memory} {s : σ}
      (planned : plan infer? (sources rs) rs m = (m', [])) : Retries infer? round rs m s [] rs s
  | again {rs rs' : Results} {m m' : Memory} {s s' s'' : σ}
      {attempts : List (ProviderId × String)} {o : Outcomes Output} {trace : List Attempt}
      (planned : plan infer? (sources rs) rs m = (m', attempts)) (any : attempts ≠ [])
      (made : round attempts s = (s', some o))
      (answered : o.entries.map Prod.fst = attempts.map Prod.fst)
      (rest : Retries infer? round (absorbAll o.entries rs) m' s' trace rs' s'') :
      Retries infer? round rs m s (attemptsOf rs attempts ++ trace) rs' s''

/-- Attempts change neither the targets nor their order, and every success is held on to. -/
theorem Retries.keeps (h : Retries infer? round rs m s trace rs' s')
    (hkeys : (rs.map Prod.fst).Nodup) :
    (rs'.map Prod.fst = rs.map Prod.fst ∧ Keeps rs rs') ∧
      (∀ a ∈ trace, a.known.map Prod.fst = rs.map Prod.fst ∧ Keeps rs a.known ∧
        Keeps a.known rs') ∧
      trace.Pairwise fun a b => Keeps a.known b.known := by
  -- Induction on the rounds: a round keeps successes, and the rounds after it do so, too.
  induction h with
  | done => exact ⟨⟨rfl, fun _ _ h => h⟩, nofun, .nil⟩
  | @again rs rs' m m' s s' s'' attempts o trace planned any made answered rest ih =>
    obtain ⟨-, -, used, hall, -⟩ := plan_spec planned
    have hround := keeps_absorbAll hkeys hall answered
    have hkeys' := map_fst_absorbAll o.entries rs
    obtain ⟨⟨hfst, hkeeps⟩, hlater, hpairs⟩ := ih (by rw [hkeys']; exact hkeys)
    have hknown : ∀ a ∈ attemptsOf rs attempts, a.known = rs := by
      intro a ha
      obtain ⟨x, -, rfl⟩ := List.mem_map.mp ha
      rfl
    refine ⟨⟨hfst.trans hkeys', hround.trans hkeeps⟩, fun a ha => ?_, ?_⟩
    · rcases List.mem_append.mp ha with ha | ha
      · rw [hknown a ha]
        exact ⟨rfl, fun _ _ h => h, hround.trans hkeeps⟩
      · obtain ⟨hfst', hfrom, hto⟩ := hlater a ha
        exact ⟨hfst'.trans hkeys', hround.trans hfrom, hto⟩
    · rw [List.pairwise_append]
      refine ⟨List.pairwise_of_forall_mem_list fun a ha b hb => ?_, hpairs, fun a ha b hb => ?_⟩
      · rw [hknown a ha, hknown b hb]
        exact fun _ _ h => h
      · rw [hknown a ha]
        exact hround.trans (hlater b hb).2.1

/-- Every attempt uses up a target and a source of its own. -/
theorem Retries.used (h : Retries infer? round rs m s trace rs' s')
    (hkeys : (rs.map Prod.fst).Nodup) {used : List (ProviderId × ProviderId)}
    (hused : Used rs m used) :
    ∃ m' new, Used rs' m' (used ++ new) ∧
      List.Forall₂ (fun a e => e.1 = a.target ∧
        Justified infer? (sources a.known) a.known (a.target, a.localId) e.2) trace new := by
  induction h generalizing used with
  | @done rs m m' s planned =>
    refine ⟨m, [], ?_, .nil⟩
    rw [List.append_nil]
    exact hused
  | @again rs rs' m m' s s' s'' attempts o trace planned any made answered rest ih =>
    -- The pairs that this round uses up come first, and then those of the rounds after it.
    obtain ⟨hsub, htargets, new, hall, hnew⟩ := plan_spec planned
    have hused' := hused.round hkeys hsub htargets hall hnew answered
    obtain ⟨m'', later, hlater, hrest⟩ :=
      ih (by rw [map_fst_absorbAll]; exact hkeys) hused'
    refine ⟨m'', new ++ later, ?_, ?_⟩
    · rw [← List.append_assoc]
      exact hlater
    · refine List.rel_append (List.forall₂_map_left_iff.mpr hall) hrest

/-- There are at most as many attempts as pairs of targets. -/
theorem Retries.length_le (h : Retries infer? round rs m s trace rs' s')
    (hkeys : (rs.map Prod.fst).Nodup) : trace.length ≤ rs.length * rs.length := by
  obtain ⟨m', new, hused, hall⟩ := h.used hkeys (Used.nil rs m)
  have hlength : rs'.length = rs.length := by
    rw [← List.length_map (f := Prod.fst), (h.keeps hkeys).1.1, List.length_map]
  rw [hall.length_eq, ← hlength]
  exact hused.length_le

/-! ## The end -/

/-- If every round that is waited for long enough yields a result for each of its attempts, the
    rounds come to an end, and no round is left undone. -/
theorem exists_retries {rounds : Nat}
    {round : Nat → List (ProviderId × String) → σ → σ × Option (Outcomes Output)} {P : σ → Prop}
    (settles : ∀ attempts s, P s → (attempts.map Prod.fst).Nodup →
      ∃ t s' o, P s' ∧ o.entries.map Prod.fst = attempts.map Prod.fst ∧
        ∀ limit, t ≤ limit → round limit attempts s = (s', some o))
    (hs : P s) (hkeys : (rs.map Prod.fst).Nodup) {used : List (ProviderId × ProviderId)}
    (hused : Used rs m used) (hrounds : rs.length * rs.length < used.length + rounds) :
    ∃ t trace rs' s', P s' ∧ ∀ limit, t ≤ limit →
      Retries infer? (round limit) rs m s trace rs' s' ∧
        repeatedly infer? (round limit) rounds rs m s = (s', some rs') := by
  -- Induction on the rounds that are allowed, of which there are more than pairs that are left.
  induction rounds generalizing rs m s used with
  | zero =>
    -- There is a round left for every pair that has not been used, so this cannot happen.
    have hle := hused.length_le
    omega
  | succ rounds ih =>
    cases hplan : plan infer? (sources rs) rs m with
    | mk m' attempts =>
      cases attempts with
      | nil =>
        refine ⟨0, [], rs, s, hs, fun limit _ => ⟨.done hplan, ?_⟩⟩
        unfold repeatedly
        rw [hplan]
      | cons a attempts =>
        obtain ⟨hsub, htargets, new, hall, hnew⟩ := plan_spec hplan
        obtain ⟨t, s', o, hs', hanswered, hround⟩ :=
          settles (a :: attempts) s hs (hkeys.sublist htargets)
        have hused' := hused.round hkeys hsub htargets hall hnew hanswered
        have hkeys' := map_fst_absorbAll o.entries rs
        have hlength : (absorbAll o.entries rs).length = rs.length := by
          rw [← List.length_map (f := Prod.fst), hkeys', List.length_map]
        -- A round that makes an attempt uses up a pair.
        have hnonempty : 0 < new.length := by
          rw [← hall.length_eq]
          exact Nat.succ_pos _
        obtain ⟨u, trace, rs', s'', hs'', hlater⟩ :=
          ih hs' (by rw [hkeys']; exact hkeys) hused' (by
            rw [hlength, List.length_append]
            omega)
        refine ⟨max t u, attemptsOf rs (a :: attempts) ++ trace, rs', s'', hs'',
          fun limit hl => ?_⟩
        obtain ⟨hretries, hrepeatedly⟩ := hlater limit (by omega)
        have hmade := hround limit (by omega)
        refine ⟨.again hplan (List.cons_ne_nil a attempts) hmade hanswered hretries, ?_⟩
        unfold repeatedly
        rw [hplan]
        simp only [hmade]
        exact hrepeatedly

/-- Rounds that have yielded results have been made until nothing was left to try, if each of them
    yields one result for each of its attempts. -/
theorem retries_of_repeatedly {rounds : Nat} {P : σ → Prop}
    (answers : ∀ {attempts s s' o}, P s → (attempts.map Prod.fst).Nodup →
      round attempts s = (s', some o) → P s' ∧ o.entries.map Prod.fst = attempts.map Prod.fst)
    (hs : P s) (hkeys : (rs.map Prod.fst).Nodup) {used : List (ProviderId × ProviderId)}
    (hused : Used rs m used) (hrounds : rs.length * rs.length < used.length + rounds)
    (h : repeatedly infer? round rounds rs m s = (s', some rs')) :
    ∃ trace, Retries infer? round rs m s trace rs' s' := by
  induction rounds generalizing rs m s used with
  | zero =>
    have hle := hused.length_le
    omega
  | succ rounds ih =>
    unfold repeatedly at h
    -- A round plans attempts, makes them and absorbs what they yield, or there are none left.
    cases hplan : plan infer? (sources rs) rs m with
    | mk m' attempts =>
      rw [hplan] at h
      cases attempts with
      | nil =>
        obtain ⟨rfl, hrs⟩ := Prod.mk.inj h
        obtain rfl := Option.some.inj hrs
        exact ⟨[], .done hplan⟩
      | cons a attempts =>
        dsimp only at h
        obtain ⟨hsub, htargets, new, hall, hnew⟩ := plan_spec hplan
        cases hround : round (a :: attempts) s with
        | mk s'' o? =>
          rw [hround] at h
          cases o? with
          | none => exact nomatch (Prod.mk.inj h).2
          | some o =>
            obtain ⟨hs'', hanswered⟩ := answers hs (hkeys.sublist htargets) hround
            have hused' := hused.round hkeys hsub htargets hall hnew hanswered
            have hkeys' := map_fst_absorbAll o.entries rs
            have hlength : (absorbAll o.entries rs).length = rs.length := by
              rw [← List.length_map (f := Prod.fst), hkeys', List.length_map]
            -- A round that makes an attempt uses up a pair, so there are rounds enough after it.
            have hnonempty : 0 < new.length := by
              rw [← hall.length_eq]
              exact Nat.succ_pos _
            obtain ⟨trace, hretries⟩ := ih hs'' (by rw [hkeys']; exact hkeys) hused' (by
              rw [hlength, List.length_append]
              omega) h
            exact ⟨attemptsOf rs (a :: attempts) ++ trace,
              .again hplan (List.cons_ne_nil a attempts) hround hanswered hretries⟩

/-- What rounds have yielded does not depend on how long one was ready to wait for each of them. -/
theorem repeatedly_mono {rounds : Nat}
    {round' : List (ProviderId × String) → σ → σ × Option (Outcomes Output)}
    (later : ∀ {attempts s s' o}, round attempts s = (s', some o) →
      round' attempts s = (s', some o))
    (h : repeatedly infer? round rounds rs m s = (s', some rs')) :
    repeatedly infer? round' rounds rs m s = (s', some rs') := by
  induction rounds generalizing rs m s with
  | zero => exact h
  | succ rounds ih =>
    unfold repeatedly at h ⊢
    cases hplan : plan infer? (sources rs) rs m with
    | mk m' attempts =>
      rw [hplan] at h
      cases attempts with
      | nil => exact h
      | cons a attempts =>
        dsimp only at h ⊢
        cases hround : round (a :: attempts) s with
        | mk s'' o? =>
          rw [hround] at h
          cases o? with
          | none => exact nomatch (Prod.mk.inj h).2
          -- The round has yielded results, so it does with more patience.
          | some o =>
            rw [later hround]
            exact ih h

end Federation.Inference
