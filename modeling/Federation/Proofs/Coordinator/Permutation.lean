import Federation.Proofs.Coordinator.Closure
import Federation.Proofs.Coordinator.Exhaustion
import Federation.Proofs.Coordinator.Isolation
import Federation.Proofs.Merge.Accounting

/-!
# The order of the targets

In which order the targets of a fetch are listed decides which of them is tried first, and in the
record of which other one it finds its identifier.  It does not decide what becomes of them, as long
as every provider answers by the local identifier alone and at most one identifier is suggested for
each target.

## Key results

- `entries_readFrom`: what a round of reading yields, target by target
- `concludes_of_fetch`: a fetch has tried its targets with what is suggested for them
- `fetch_ends`: a fetch comes to an end
- `fetch_perm`: two fetches whose targets differ in their order only
-/

namespace Federation.Coordinator

open Inference (Concludes Inquiry Retries)

variable {c c' d d' : Coordinator} {p : ProviderId} {kept : ProviderId × Nat → Prop}
  {l : Provider → Except Fault String} {limit : Nat} {out : Outcomes Output}
  {xs : List (ProviderId × (Provider → Except Fault String))}
  {answers : ProviderId → String → Except Fault Output} {external : String}
  {targets targets' : Targets} {u : FederatedUser}

/-! ## Rounds of reading -/

/-- Read a user from some targets, each with its own way to find the user. -/
def readFrom (limit : Nat) (xs : List (ProviderId × (Provider → Except Fault String)))
    (c : Coordinator) : Coordinator × Option (Outcomes Output) :=
  let (c, es) := launchAll .readAll xs c
  c.wait limit ⟨Operation.readAll.name, es⟩

/-- What follows a coordinator if nothing is done but that users are read, round by round. -/
inductive Reads (c : Coordinator) : Coordinator → Prop
  | refl : Reads c c
  | tail {d d' : Coordinator} {limit : Nat}
      {xs : List (ProviderId × (Provider → Except Fault String))} {out : Outcomes Output}
      (reads : Reads c d) (distinct : (xs.map Prod.fst).Nodup)
      (ended : d.readFrom limit xs = (d', some out)) : Reads c d'

/-- Providers answer by the local identifier alone, whatever they have been asked before: wherever
    reading leads, a provider that is read on its own answers what `answers` says. -/
def Answers (c : Coordinator) (answers : ProviderId → String → Except Fault Output) : Prop :=
  ∀ d, c.Reads d → ∀ p s, d.station? p = some s → s.capabilities.supports .readAll = true →
    ∀ id limit d' out, d.readFrom limit [(p, fun _ => .ok id)] = (d', some out) →
      out.get? p = some (answers p id)

/-- What a target yields that is read, be it called or not. -/
def reply (c : Coordinator) (answers : ProviderId → String → Except Fault Output)
    (localId : Provider → Except Fault String) (p : ProviderId) : Except Fault Output :=
  (c.localIdAt .readAll localId p).bind (answers p)

/-- A round that has ended yields a result for each of its targets. -/
theorem yields_of_readFrom (hc : c.Sound) (hxs : (xs.map Prod.fst).Nodup)
    (ended : c.readFrom limit xs = (c', some out)) :
    ∃ c₁, Steps (fun _ => False) c c₁ ∧ Steps (fun _ => False) c₁ c' ∧
      List.Forall₂ (fun x e => e.1 = x.1 ∧ Yields c c₁ c' .readAll x.2 x.1 e.2) xs out.entries := by
  unfold readFrom at ended
  cases hlaunched : launchAll .readAll xs c with
  | mk c₁ es =>
    rw [hlaunched] at ended
    exact ⟨c₁, yields_of_wait hc hxs hlaunched ended⟩

/-- A round comes to an end. -/
theorem readFrom_ends (hc : c.Sound) (hxs : (xs.map Prod.fst).Nodup) :
    ∃ t c' out, ∀ limit, t ≤ limit → c.readFrom limit xs = (c', some out) := by
  cases hlaunched : launchAll .readAll xs c with
  | mk c₁ es =>
    obtain ⟨t, c', out, -, -, hwait, -⟩ := launchAll_yields hxs hc hlaunched .refl
    refine ⟨t, c', out, fun limit hl => ?_⟩
    unfold readFrom
    rw [hlaunched]
    exact hwait limit hl

/-- Rounds of reading are steps of the coordinator. -/
theorem Reads.steps (h : c.Reads d) (hc : c.Sound) : Steps (fun _ => False) c d := by
  induction h with
  | refl => exact .refl
  | tail _ distinct ended ih =>
    have hsound := (Steps.evolves ih hc).sound hc
    obtain ⟨c₁, before, after, -⟩ := yields_of_readFrom hsound distinct ended
    exact ih.trans (before.trans after)

/-! ## What targets yield -/

/-- The name of a user at a target stays the same, if it depends on the provider's profile only. -/
theorem Evolves.localIdAt (h : Evolves kept c d) (o : Operation)
    (hl : ∀ q : Provider, l q.profile = l q) (p : ProviderId) :
    d.localIdAt o l p = c.localIdAt o l p := by
  unfold Coordinator.localIdAt
  rcases h.station? p with ⟨hnone, hnone'⟩ | ⟨s, s', hs, hs', hgoes⟩
  · rw [hnone, hnone']
  -- The station may have changed in everything but its profile.
  · have hcapabilities : s'.profile.capabilities = s.profile.capabilities := by rw [hgoes.profile]
    have hprofile : s'.provider.profile = s.provider.profile :=
      congrArg Station.provider hgoes.profile
    have hlocal : l s'.provider = l s.provider := by rw [← hl, hprofile, hl]
    have hsupports : s'.capabilities = s.capabilities := hcapabilities
    rw [hs, hs']
    dsimp only
    rw [hsupports, hlocal]

/-- The reply of a target stays the same, if its names do. -/
theorem Evolves.reply (h : Evolves kept c d) (hl : ∀ q : Provider, l q.profile = l q)
    (p : ProviderId) : d.reply answers l p = c.reply answers l p := by
  unfold Coordinator.reply
  rw [h.localIdAt .readAll hl]

/-- A target yields in any round what it yields on its own. -/
theorem get?_readFrom (hc : c.Sound) (hq : c.Quiet) (hanswers : c.Answers answers)
    (reads : c.Reads d) (hxs : (xs.map Prod.fst).Nodup) (hx : (p, l) ∈ xs)
    (ended : d.readFrom limit xs = (d', some out)) :
    out.get? p = some (d.reply answers l p) := by
  have hsteps := reads.steps hc
  have hd := (hsteps.evolves hc).sound hc
  have hqd := hsteps.quiet hq
  -- Whatever else the round does, it has passed at this target.
  have passed : ∀ {xs : List (ProviderId × (Provider → Except Fault String))}
      {l : Provider → Except Fault String} {limit : Nat} {d' : Coordinator}
      {out : Outcomes Output}, (xs.map Prod.fst).Nodup → (p, l) ∈ xs →
      d.readFrom limit xs = (d', some out) → ∃ d₁ es, Passed d d₁ d' .readAll l p es out := by
    intro xs l limit d' out hxs hx ended
    unfold readFrom at ended
    cases hlaunched : launchAll .readAll xs d with
    | mk d₁ es =>
      rw [hlaunched] at ended
      exact ⟨d₁, es, passed_of_wait hd hqd hxs hx hlaunched ended⟩
  obtain ⟨d₁, es, hpassed⟩ := passed hxs hx ended
  unfold reply
  cases hlocal : d.localIdAt .readAll l p with
  | error f =>
    rw [hpassed.result, launch_refused hlocal]
    rfl
  | ok id =>
    -- The target is called as if it was read with this identifier, and on its own.
    obtain ⟨s, hs, -⟩ := launch_called hlocal
    obtain ⟨hsupports, -⟩ := supports_of_localIdAt hs hlocal
    have hsingle : (([(p, fun _ => .ok id)] :
        List (ProviderId × (Provider → Except Fault String))).map Prod.fst).Nodup :=
      List.nodup_singleton p
    obtain ⟨t, d'', out', halone⟩ := readFrom_ends hd hsingle
    have halone := halone t (Nat.le_refl t)
    obtain ⟨d₂, fs, hpassed'⟩ := passed hsingle (List.mem_singleton.mpr rfl) halone
    have hnamed : d.localIdAt .readAll (fun _ => .ok id) p = d.localIdAt .readAll l p := by
      rw [hlocal]
      unfold localIdAt
      rw [hs]
      dsimp only
      rw [hsupports]
      rfl
    rw [← hpassed.result_eq hpassed' rfl rfl hnamed]
    exact hanswers d reads p s hs hsupports id t d'' out' halone

/-- A round yields what its targets yield, in their order. -/
theorem entries_readFrom (hc : c.Sound) (hq : c.Quiet) (hanswers : c.Answers answers)
    (reads : c.Reads d) (hxs : (xs.map Prod.fst).Nodup)
    (ended : d.readFrom limit xs = (d', some out)) :
    out.entries = xs.map fun x => (x.1, d.reply answers x.2 x.1) := by
  have hd := ((reads.steps hc).evolves hc).sound hc
  obtain ⟨d₁, -, -, hall⟩ := yields_of_readFrom hd hxs ended
  -- No target has two entries, so every entry is the one that is found under its target.
  have hkeys : out.providers.Nodup := by
    rw [Outcomes.providers, map_eq_of_forall₂ hall]
    exact hxs
  have hmap : out.entries.map id = xs.map fun x => (x.1, d.reply answers x.2 x.1) := by
    refine map_eq_of_forall₂ (R := fun _ _ => True) ((forall₂_mem hall).imp fun x e h => ?_)
    obtain ⟨hx, he, hp, -⟩ := h
    have hget := get?_readFrom hc hq hanswers reads hxs hx ended
    rw [← hp] at hget
    have hmem := (Outcomes.get?_eq_some_iff hkeys).mpr he
    exact ⟨Prod.ext hp (hp ▸ Option.some.inj (hmem.symm.trans hget)), trivial⟩
  rwa [List.map_id] at hmap

/-- Custom providers whose responses to a request depend on its local identifier alone, and come in
    time, answer by it alone. -/
theorem answers_of_custom {b : Blueprint} (hc : c.Reachable b)
    (custom : ∀ q ∈ b.providers, ∃ respond, q.respond? = some respond ∧ ∀ n id,
      (respond n ⟨.readAll, id⟩).ending = .returned (answers q.id id) ∧
        ∀ t, b.deadlineOf? q.id = some t → (respond n ⟨.readAll, id⟩).delay ≤ t) :
    c.Answers answers := by
  intro d reads p s hs able id limit d' out ended
  have hd : d.Reachable b := by
    obtain ⟨c₀, hbuild, hsteps⟩ := hc.built
    exact ⟨hc.fresh, c₀, hbuild, hsteps.trans (reads.steps hc.sound)⟩
  obtain ⟨q, hq, rfl, hfollows⟩ := hd.station? hs
  obtain ⟨respond, hrespond, htells⟩ := custom q hq
  have hsingle : (([(q.id, fun _ => .ok id)] :
      List (ProviderId × (Provider → Except Fault String))).map Prod.fst).Nodup :=
    List.nodup_singleton q.id
  obtain ⟨d₁, -, -, hall⟩ := yields_of_readFrom hd.sound hsingle ended
  obtain ⟨⟨p, r⟩, he, hp, hyields⟩ := exists_of_mem_left hall (List.mem_singleton.mpr rfl)
  obtain rfl : p = q.id := hp
  have hkeys : out.providers.Nodup := by
    rw [Outcomes.providers, map_eq_of_forall₂ hall]
    exact hsingle
  rw [(Outcomes.get?_eq_some_iff hkeys).mpr he]
  refine congrArg some ?_
  -- The target is registered, able and named, so it was called.
  cases hyields with
  | unknown unregistered =>
    have hnone : d.station? q.id = none := station?_eq_none_iff.mpr unregistered
    exact absurd (hs.symm.trans hnone) (Option.some_ne_none s)
  | unsupported s' station unable =>
    obtain rfl := Option.some.inj (hs.symm.trans station)
    exact absurd (unable.symm.trans able) Bool.false_ne_true
  | unnamed s' f _ _ nameless => cases nameless
  | called s' _ id' _ station _ named _ _ _ told =>
    obtain rfl := Option.some.inj (hs.symm.trans station)
    obtain rfl := Except.ok.inj named
    obtain ⟨n, rfl⟩ := told respond (hfollows.respond?.trans hrespond)
    obtain ⟨hending, hdelay⟩ := htells n id
    have hresult : (Job.outcome s!"{Operation.readAll.name} on {q.id}"
        (respond n ⟨.readAll, id⟩).ending).toExcept = answers q.id id := by
      rw [hending, Job.outcome, Outcome.toExcept_ofExcept]
    unfold Custom.Response.result
    rw [hfollows.deadline]
    cases ht : b.deadlineOf? q.id with
    | none => exact hresult
    | some t => exact (if_pos (hdelay t ht)).trans hresult

/-! ## Fetching -/

/-- Whom a fetch asks about a user, and what they answer. -/
def inquiry (c : Coordinator) (answers : ProviderId → String → Except Fault Output)
    (external : String) (targets : Targets) : Inquiry where
  IsTarget p := p ∈ targets.listed c.ids
  first := c.reply answers (Provider.localId external)
  read p id := c.reply answers (fun _ => .ok id) p
  infer? := c.infer?

/-- What becomes of a coordinator does not change whom it asks. -/
theorem Evolves.inquiry (h : Evolves kept c d) (targets : Targets) :
    d.inquiry answers external targets = c.inquiry answers external targets := by
  unfold Coordinator.inquiry
  have hfirst : d.reply answers (Provider.localId external) =
      c.reply answers (Provider.localId external) :=
    funext fun p => h.reply (fun q => Provider.localId_profile external q) p
  have hread : (fun p id => d.reply answers (fun _ => .ok id) p) =
      fun p id => c.reply answers (fun _ => .ok id) p :=
    funext fun p => funext fun id => h.reply (fun _ => rfl) p
  rw [h.ids, hfirst, hread, h.infer?]

/-- Nor does the order of the targets. -/
theorem inquiry_perm (c : Coordinator) (answers : ProviderId → String → Except Fault Output)
    (external : String) (perm : (targets.listed c.ids).Perm (targets'.listed c.ids)) :
    c.inquiry answers external targets' = c.inquiry answers external targets := by
  unfold inquiry
  have htargets : (fun p => p ∈ targets'.listed c.ids) = fun p => p ∈ targets.listed c.ids :=
    funext fun p => propext perm.mem_iff.symm
  rw [htargets]

/-- What a target replies is from it, if its answers are. -/
theorem isFrom_reply {x : Output} (own : ∀ p id x, answers p id = .ok x → x.IsFrom p)
    (h : c.reply answers l p = .ok x) : x.IsFrom p := by
  unfold reply at h
  cases hlocal : c.localIdAt .readAll l p with
  | error f =>
    rw [hlocal] at h
    cases h
  | ok id =>
    rw [hlocal] at h
    exact own p id x h

/-- What a target returns is from it, if its answers are. -/
theorem isFrom_of_returns {x : Output} (own : ∀ p id x, answers p id = .ok x → x.IsFrom p)
    (h : (c.inquiry answers external targets).Returns p x) : x.IsFrom p := by
  cases h with
  | first _ returned => exact isFrom_reply own returned
  | again _ _ _ _ _ _ _ _ returned => exact isFrom_reply own returned

/-- At first, every target is asked for the user that the caller names. -/
theorem entries_execute (hc : c.Sound) (hq : c.Quiet) (hanswers : c.Answers answers)
    (executed : c.execute limit .readAll external targets = (c', some out)) :
    c.Reads c' ∧ out.entries = (targets.listed c.ids).eraseDups.map fun p =>
      (p, (c.inquiry answers external targets).first p) := by
  let xs := (targets.resolve c.ids).map fun p => (p, Provider.localId external)
  have hxs : (xs.map Prod.fst).Nodup := by
    rw [List.map_map]
    exact (List.map_id _).symm ▸ Targets.nodup_resolve hc.nodup targets
  have hread : c.readFrom limit xs = (c', some out) := executed
  refine ⟨.tail .refl hxs hread, ?_⟩
  rw [entries_readFrom hc hq hanswers .refl hxs hread, ← Targets.resolve_eq hc.nodup, List.map_map]
  rfl

/-- In each round after that, those who are tried again are asked with what they have found. -/
theorem entries_retry {attempts : List (ProviderId × String)} (hc : c.Sound) (hq : c.Quiet)
    (hanswers : c.Answers answers) (reads : c.Reads d) (hattempts : (attempts.map Prod.fst).Nodup)
    (made : retry limit attempts d = (d', some out)) :
    c.Reads d' ∧ out.entries = attempts.map fun a =>
      (a.1, (c.inquiry answers external targets).read a.1 a.2) := by
  let xs : List (ProviderId × (Provider → Except Fault String)) :=
    attempts.map fun a => (a.1, fun _ => .ok a.2)
  have hxs : (xs.map Prod.fst).Nodup := by
    rw [List.map_map]
    exact hattempts
  have hread : d.readFrom limit xs = (d', some out) := made
  refine ⟨.tail reads hxs hread, ?_⟩
  rw [entries_readFrom hc hq hanswers reads hxs hread, List.map_map]
  -- What became of the coordinator in the meantime makes no difference.
  refine List.map_congr_left fun a _ => congrArg (Prod.mk a.1) ?_
  exact ((reads.steps hc).evolves hc).reply (fun _ => rfl) a.1

/-- A fetch has tried its targets with what is suggested for them, and one outcome is known of each
    of them. -/
theorem concludes_of_fetch (hc : c.Sound) (hq : c.Quiet) (hanswers : c.Answers answers)
    (own : ∀ p id x, answers p id = .ok x → x.IsFrom p)
    (unambiguous : (c.inquiry answers external targets).IsUnambiguous)
    (fetched : c.fetch limit external targets = (c', some u)) :
    u.outcomes.providers.Nodup ∧
      ∃ trace, Concludes (c.inquiry answers external targets) trace u.outcomes.entries := by
  obtain ⟨first, c₁, c₂, trace, hexecute, hretries, -⟩ := retries_of_fetch hc fetched
  obtain ⟨hreads, hfirst⟩ := entries_execute hc hq hanswers hexecute
  have hinfer : c₁.infer? = (c.inquiry answers external targets).infer? :=
    ((hreads.steps hc).evolves hc).infer?
  rw [hinfer] at hretries
  have hkeys : first.entries.map Prod.fst = (targets.listed c.ids).eraseDups := by
    rw [hfirst, List.map_map]
    exact List.map_id _
  have hnodup : (first.entries.map Prod.fst).Nodup := by
    rw [hkeys]
    exact nodup_eraseDups _
  have hnodup' : (u.outcomes.entries.map Prod.fst).Nodup := by
    rw [(hretries.keeps hnodup).1.1]
    exact hnodup
  -- Nothing has been tried yet, and the targets have given their first answers.
  have hbegins : (c.inquiry answers external targets).Fits [] first.entries := by
    refine ⟨nofun, fun e he => ?_⟩
    rw [hfirst] at he
    obtain ⟨p, hp, rfl⟩ := List.mem_map.mp he
    exact ⟨List.mem_eraseDups.mp hp, .untried nofun rfl⟩
  have hfits := hretries.fits (P := c.Reads) (entries_retry hc hq hanswers) hreads unambiguous
    hnodup hbegins
  have hown : AreOwn u.outcomes.entries := fun p x hx => isFrom_of_returns own (hfits.returns hx)
  refine ⟨hnodup', trace, hretries.concludes hnodup (fun p hp => ?_) unambiguous hfits
    (hown.areDistinct hnodup')⟩
  rw [hkeys, List.mem_eraseDups]
  exact hp

/-- A fetch comes to an end. -/
theorem fetch_ends (hc : c.Sound) (external : String) (targets : Targets) :
    ∃ t c' u, ∀ limit, t ≤ limit → c.fetch limit external targets = (c', some u) := by
  obtain ⟨t, c₁, first, hevolves, hproviders, hexecute⟩ :=
    execute_spec .readAll external targets hc
  have hkeys := Targets.nodup_of_providers hc.nodup hproviders
  have hrounds : first.entries.length * first.entries.length <
      ([] : List (ProviderId × ProviderId)).length + Inference.maxRounds first.size := by
    show _ < 0 + (first.entries.length * first.entries.length + 1)
    omega
  -- Each round comes to an end, and there are rounds enough for all the pairs.
  have settles : ∀ attempts (d : Coordinator), d.Sound → (attempts.map Prod.fst).Nodup →
      ∃ t d' o, d'.Sound ∧ o.entries.map Prod.fst = attempts.map Prod.fst ∧
        ∀ limit, t ≤ limit → retry limit attempts d = (d', some o) :=
    fun attempts d hd hattempts => retry_spec hd hattempts
  have hnil := Inference.Used.nil first.entries {}
  obtain ⟨t', trace, rs, c', -, hloop⟩ :=
    Inference.exists_retries settles (hevolves.sound hc) hkeys hnil hrounds
  refine ⟨max t t', (c'.merge rs).1, (c'.merge rs).2, fun limit hl => fetch_eq_iff.mpr ?_⟩
  exact ⟨first, c₁, c', rs, hexecute limit (by omega), (hloop limit (by omega)).2, rfl, rfl⟩

/-- What a fetch has yielded does not depend on how long one was ready to wait. -/
theorem fetch_mono {limit' : Nat} (h : c.fetch limit external targets = (c', some u))
    (hle : limit ≤ limit') : c.fetch limit' external targets = (c', some u) := by
  obtain ⟨first, c₁, c₂, rs, hexecute, hrounds, hmerge⟩ := fetch_eq_iff.mp h
  refine fetch_eq_iff.mpr ⟨first, c₁, c₂, rs, ?_, ?_, hmerge⟩
  · unfold execute at hexecute ⊢
    exact wait_mono hexecute hle
  · exact Inference.repeatedly_mono (fun hround => wait_mono hround hle) hrounds

/-- A fetch has one result, however much patience there is. -/
theorem eq_of_fetch {t : Nat} {u' : FederatedUser}
    (h : c.fetch limit external targets = (c', some u))
    (h' : ∀ limit, t ≤ limit → c.fetch limit external targets = (d, some u')) :
    c' = d ∧ u = u' := by
  have heq := (fetch_mono h (Nat.le_max_left limit t)).symm.trans (h' _ (Nat.le_max_right limit t))
  obtain ⟨rfl, hu⟩ := Prod.mk.inj heq
  exact ⟨rfl, Option.some.inj hu⟩

/-- Rounds of attempts are steps of the coordinator. -/
theorem steps_of_retries {infer? : ProviderId → Option (Record → Except Fault String)}
    {rs rs' : Inference.Results} {m : Inference.Memory} {trace : List Inference.Attempt}
    (h : Retries infer? (retry limit) rs m c trace rs' c') (hc : c.Sound)
    (hkeys : (rs.map Prod.fst).Nodup) : Steps (fun _ => False) c c' := by
  induction h with
  | done => exact .refl
  | @again rs rs' m m' c d c' attempts o trace planned any made answered rest ih =>
    obtain ⟨-, htargets, -⟩ := Inference.plan_spec planned
    -- One round of attempts is a launch and a wait, both of which are steps.
    obtain ⟨c₁, before, after, -⟩ := yields_of_retry hc (hkeys.sublist htargets) made
    have hround : Steps (fun _ => False) c d := before.trans after
    refine hround.trans (ih ((hround.evolves hc).sound hc) ?_)
    rw [Inference.map_fst_absorbAll]
    exact hkeys

/-- A fetch is steps of the coordinator. -/
theorem steps_of_fetch (hc : c.Sound) (fetched : c.fetch limit external targets = (c', some u)) :
    Steps (fun _ => False) c c' := by
  obtain ⟨first, c₁, c₂, trace, hexecute, hretries, hlast⟩ := retries_of_fetch hc fetched
  obtain ⟨d, before, after, hproviders, -⟩ := yields_of_execute hc hexecute
  have hfirst : Steps (fun _ => False) c c₁ := before.trans after
  have hkeys := Targets.nodup_of_providers hc.nodup hproviders
  have hc₁ := (hfirst.evolves hc).sound hc
  exact hfirst.trans ((steps_of_retries hretries hc₁ hkeys).trans (steps_of_merge hlast))

/-- What is merged are the records among the outcomes. -/
theorem user_of_fetch (hc : c.Sound) (fetched : c.fetch limit external targets = (c', some u)) :
    u.user = c.engine.merge u.records := by
  have hengine := ((steps_of_fetch hc fetched).evolves hc).engine
  obtain ⟨first, c₁, c₂, rs, -, -, rfl, rfl⟩ := fetch_eq_iff.mp fetched
  have hsame : c₂.engine = c.engine := hengine
  rw [← hsame]
  exact congrArg Prod.fst (Merge.mergeObserved_eq c₂.engine (c₂.merge rs).2.records)

/-- A coordinator has come from what was built of its blueprint. -/
theorem Reachable.evolves {b : Blueprint} (h : c.Reachable b) :
    Evolves (fun _ => False)
      { stations := b.providers.map b.station, engine := b.mergeEngine } c := by
  obtain ⟨c₀, hbuild, hsteps⟩ := h.built
  have hevolves := hsteps.evolves (sound_of_build h.fresh hbuild)
  obtain ⟨-, rfl⟩ := Blueprint.build_eq_ok_iff.mp hbuild
  exact hevolves

/-- The records of a user are among the outcomes, in whatever order these are. -/
theorem records_perm {u u' : FederatedUser} (h : u.outcomes.entries.Perm u'.outcomes.entries) :
    u.records.Perm u'.records :=
  (h.filterMap _).filterMap _

/-- Two fetches of the same user, from targets that differ in their order only, have the same
    outcome for every provider, if providers answer by the local identifier alone, with records in
    their own names, and if at most one local identifier is suggested for each target by all that
    can be returned.  Where the providers of the records have different ranks, the merged user is
    the same, too. -/
theorem fetch_perm {b : Blueprint} (hc : c.Reachable b) (hd : d.Reachable b)
    (hcanswers : c.Answers answers) (hdanswers : d.Answers answers)
    (own : ∀ p id x, answers p id = .ok x → x.IsFrom p) (external : String)
    (perm : (targets.listed c.ids).Perm (targets'.listed c.ids))
    (unambiguous : (c.inquiry answers external targets).IsUnambiguous) :
    ∃ t c' d' u u',
      (∀ limit, t ≤ limit → c.fetch limit external targets = (c', some u) ∧
        d.fetch limit external targets' = (d', some u')) ∧
      (∀ p, u'.outcomes.get? p = u.outcomes.get? p) ∧
      ((u.records.map fun r => b.mergeEngine.priority.rank? r.provider).Nodup →
        u'.user = u.user) := by
  have hids : d.ids = c.ids := hd.evolves.ids.trans hc.evolves.ids.symm
  have hsame : d.inquiry answers external targets' = c.inquiry answers external targets := by
    rw [inquiry_perm d answers external (hids ▸ perm), hd.evolves.inquiry, hc.evolves.inquiry]
  obtain ⟨t, c', u, hfetch⟩ := fetch_ends hc.sound external targets
  obtain ⟨t', d', u', hfetch'⟩ := fetch_ends hd.sound external targets'
  have hfetched := hfetch t (Nat.le_refl t)
  have hfetched' := hfetch' t' (Nat.le_refl t')
  obtain ⟨hnodup, trace, hends⟩ :=
    concludes_of_fetch hc.sound hc.quiet hcanswers own unambiguous hfetched
  obtain ⟨hnodup', trace', hends'⟩ :=
    concludes_of_fetch hd.sound hd.quiet hdanswers own (hsame ▸ unambiguous) hfetched'
  rw [hsame] at hends'
  -- Both fetches have tried the targets with what is suggested for them.
  have hmem : ∀ e, e ∈ u.outcomes.entries ↔ e ∈ u'.outcomes.entries := fun e =>
    hends.mem_iff.trans hends'.mem_iff.symm
  refine ⟨max t t', c', d', u, u', fun limit hl => ?_, fun p => Option.ext fun r => ?_,
    fun ranks => ?_⟩
  · exact ⟨hfetch limit (by omega), hfetch' limit (by omega)⟩
  · rw [Outcomes.get?_eq_some_iff hnodup', Outcomes.get?_eq_some_iff hnodup]
    exact (hmem (p, r)).symm
  · have hperm : u.outcomes.entries.Perm u'.outcomes.entries :=
      (List.perm_ext_iff_of_nodup (.of_map Prod.fst hnodup) (.of_map Prod.fst hnodup')).mpr hmem
    rw [user_of_fetch hc.sound hfetched, user_of_fetch hd.sound hfetched', hc.evolves.engine,
      hd.evolves.engine]
    exact (Merge.merge_eq_of_perm b.mergeEngine (records_perm hperm) ranks).symm

/-- Of three providers, one is known to the caller, and each of the others finds its identifier in
    the record of the one before it.  They are listed from the first to the last, and the other way
    round. -/
theorem fetch_perm_chain :
    let findIn (source : ProviderId) (r : Record) : Except Fault String :=
      if r.provider = source then .ok r.localId else .error (.unknownProvider r.provider)
    let ldap : Provider := .custom
      { id := ⟨"ldap"⟩
        respond := fun _ r =>
          { delay := 20, ending := .returned (.ok (.record (.blank ⟨⟨"ldap"⟩, r.localId⟩))) } }
    let google : Provider := .custom
      { id := ⟨"google"⟩
        localId := fun external => .error (.cannotInferLocalId ⟨"google"⟩ external)
        localIdFrom := findIn ⟨"ldap"⟩
        respond := fun _ r =>
          { delay := 5, ending := .returned (.ok (.record (.blank ⟨⟨"google"⟩, r.localId⟩))) } }
    let okta : Provider := .custom
      { id := ⟨"okta"⟩
        localId := fun external => .error (.cannotInferLocalId ⟨"okta"⟩ external)
        localIdFrom := findIn ⟨"google"⟩
        respond := fun _ r =>
          { ending := .returned (.ok (.record (.blank ⟨⟨"okta"⟩, r.localId⟩))) } }
    let b : Blueprint := { providers := [ldap, google, okta], defaultDeadline := some 20 }
    let c : Coordinator := { stations := b.providers.map b.station, engine := b.mergeEngine }
    let targets : Targets := .only [⟨"okta"⟩, ⟨"google"⟩, ⟨"ldap"⟩]
    c.Reachable b ∧ ∃ t c' d' u u',
      (∀ limit, t ≤ limit → c.fetch limit "jdoe" .all = (c', some u) ∧
        c.fetch limit "jdoe" targets = (d', some u')) ∧
      u.records.map Record.provider = [⟨"ldap"⟩, ⟨"google"⟩, ⟨"okta"⟩] ∧
      u'.outcomes.providers = [⟨"okta"⟩, ⟨"google"⟩, ⟨"ldap"⟩] ∧
      (∀ p, u'.outcomes.get? p = u.outcomes.get? p) ∧ u'.user = u.user := by
  intro findIn ldap google okta b c targets
  have hc : c.Reachable b := by
    refine ⟨fun p hp => ?_, c, rfl, .refl⟩
    simp only [b, List.mem_cons, List.not_mem_nil, or_false] at hp
    rcases hp with rfl | rfl | rfl <;> exact ⟨rfl, rfl⟩
  let answers : ProviderId → String → Except Fault Output := fun p id =>
    .ok (.record (.blank ⟨p, id⟩))
  have hanswers : c.Answers answers := by
    refine answers_of_custom hc fun q hq => ?_
    simp only [b, List.mem_cons, List.not_mem_nil, or_false] at hq
    rcases hq with rfl | rfl | rfl
    · exact ⟨_, rfl, fun n id => ⟨rfl, fun t ht => Option.some.inj ht ▸ Nat.le_refl 20⟩⟩
    · exact ⟨_, rfl, fun n id => ⟨rfl, fun t ht => Option.some.inj ht ▸ Nat.le_add_right 5 15⟩⟩
    · exact ⟨_, rfl, fun n id => ⟨rfl, fun t ht => Nat.zero_le t⟩⟩
  have own : ∀ p id x, answers p id = .ok x → x.IsFrom p := fun p id x hx =>
    Except.ok.inj hx ▸ Output.isFrom_record rfl
  let listed : List ProviderId := [⟨"ldap"⟩, ⟨"google"⟩, ⟨"okta"⟩]
  have perm : (Targets.all.listed c.ids).Perm (targets.listed c.ids) := listed.reverse_perm.symm
  let q : Inquiry := c.inquiry answers "jdoe" .all
  -- An identifier is found in a record only as a copy of that of the record.
  have found : ∀ source r id, findIn source r = .ok id → id = r.localId := by
    intro source r id h
    simp only [findIn] at h
    split at h
    · exact (Except.ok.inj h).symm
    · cases h
  have members : ∀ p, q.IsTarget p → p = ⟨"ldap"⟩ ∨ p = ⟨"google"⟩ ∨ p = ⟨"okta"⟩ := by
    intro p target
    have hlisted : p ∈ listed := target
    simpa only [listed, List.mem_cons, List.not_mem_nil, or_false] using hlisted
  have unambiguous : q.IsUnambiguous := by
    refine Inquiry.isUnambiguous_of_copies "jdoe" ?first ?read ?copies
    case first =>
      intro p x r target hx hr
      rcases members p target with rfl | rfl | rfl
      · obtain rfl := Except.ok.inj hx
        obtain rfl := Option.some.inj hr
        rfl
      · cases hx
      · cases hx
    case read =>
      intro p id x r target hx hr
      rcases members p target with rfl | rfl | rfl <;>
      · obtain rfl := Except.ok.inj hx
        obtain rfl := Option.some.inj hr
        rfl
    case copies =>
      intro p f infer r id target hf hinfer hid
      rcases members p target with rfl | rfl | rfl
      · cases hf
      · obtain rfl := Option.some.inj hinfer
        exact found ⟨"ldap"⟩ r id hid
      · obtain rfl := Option.some.inj hinfer
        exact found ⟨"google"⟩ r id hid
  obtain ⟨t, c', d', u, u', hfetch, hget, huser⟩ :=
    fetch_perm hc hc hanswers hanswers own "jdoe" perm unambiguous
  have hproviders : (c.fetch 50 "jdoe" .all).2.map (fun u => u.records.map Record.provider) =
      some [⟨"ldap"⟩, ⟨"google"⟩, ⟨"okta"⟩] := by
    cbv
  have hproviders' : (c.fetch 50 "jdoe" targets).2.map (fun u => u.outcomes.providers) =
      some [⟨"okta"⟩, ⟨"google"⟩, ⟨"ldap"⟩] := by
    cbv
  cases hrun : c.fetch 50 "jdoe" .all with
  | mk x v =>
    rw [hrun] at hproviders
    obtain ⟨v, rfl, hrecords⟩ := Option.map_eq_some_iff.mp hproviders
    obtain ⟨rfl, rfl⟩ := eq_of_fetch hrun fun limit hl => (hfetch limit hl).1
    cases hrun' : c.fetch 50 "jdoe" targets with
    | mk y w =>
      rw [hrun'] at hproviders'
      obtain ⟨w, rfl, houtcomes⟩ := Option.map_eq_some_iff.mp hproviders'
      obtain ⟨rfl, rfl⟩ := eq_of_fetch hrun' fun limit hl => (hfetch limit hl).2
      refine ⟨hc, t, x, y, v, w, hfetch, hrecords, houtcomes, hget, huser ?_⟩
      have hmap : (v.records.map fun r => b.mergeEngine.priority.rank? r.provider) =
          (v.records.map Record.provider).map b.mergeEngine.priority.rank? := by
        rw [List.map_map]
        rfl
      rw [hmap, hrecords]
      decide

end Federation.Coordinator
