import Federation.Coordinator.Fetch
import Federation.Proofs.Coordinator.Execute
import Federation.Proofs.Coordinator.Inference
import Mathlib

/-!
# How a user is fetched

Fetching a user comes to an end.  Providers that cannot tell their local identifiers are tried again
with those that the records of others suggest, but never more often than there are pairs of targets,
and what a provider has returned once is not asked for again.

## Key results

- `fetch_retries`: fetching comes to an end, and why and how often it tries targets again
-/

namespace Federation.Coordinator

open Inference (Attempt Keeps Retries Results sources)

variable {c c' : Coordinator} {kept : ProviderId × Nat → Prop}

/-! ## What does not change -/

/-- The rules of inference stay the same, whatever is done with the coordinator. -/
theorem Evolves.infer? (h : Evolves kept c c') : c'.infer? = c.infer? := by
  funext p
  unfold Coordinator.infer?
  rcases h.station? p with ⟨hnone, hnone'⟩ | ⟨s, s', hs, hs', hgoes⟩
  · rw [hnone, hnone']
  · have hprofile : s'.provider.profile = s.provider.profile :=
      congrArg Station.provider hgoes.profile
    -- How a provider infers does not depend on the calls that were made to it.
    have hlocal : ∀ r, s'.provider.localIdFrom r = s.provider.localIdFrom r := fun r => by
      rw [← Provider.localIdFrom_profile, hprofile, Provider.localIdFrom_profile]
    rw [hs, hs', Option.map_some, Option.map_some]
    exact congrArg some (funext hlocal)

/-! ## Rounds -/

/-- A round of attempts comes to an end and yields a result for each of them. -/
theorem retry_spec {attempts : List (ProviderId × String)} (hc : c.Sound)
    (hkeys : (attempts.map Prod.fst).Nodup) :
    ∃ t c' o, c'.Sound ∧ o.entries.map Prod.fst = attempts.map Prod.fst ∧
      ∀ limit, t ≤ limit → retry limit attempts c = (c', some o) := by
  let xs : List (ProviderId × (Provider → Except Fault String)) :=
    attempts.map fun a => (a.1, fun _ => .ok a.2)
  have hfst : xs.map Prod.fst = attempts.map Prod.fst := by
    rw [List.map_map]
    rfl
  -- A round is a list of launches, one for each attempt, and a wait for them.
  cases hlaunched : launchAll .readAll xs c with
  | mk c₁ es =>
    have hsteps := steps_launchAll (fun _ => False) .readAll xs c
    rw [hlaunched] at hsteps
    have hc₁ := (hsteps.evolves hc).sound hc
    obtain ⟨t, c', o, -, hsteps', hwait, hout⟩ :=
      launchAll_yields (by rw [hfst]; exact hkeys) hc hlaunched .refl
    refine ⟨t, c', o, (hsteps'.evolves hc₁).sound hc₁, ?_, fun limit hl => ?_⟩
    · rw [← hfst]
      exact map_eq_of_forall₂ hout
    · have hretry : retry limit attempts c = (launchAll .readAll xs c).1.wait limit
          ⟨Operation.readAll.name, (launchAll .readAll xs c).2⟩ := rfl
      rw [hretry, hlaunched]
      exact hwait limit hl

/-- A round of attempts has one result, however much patience there is. -/
theorem eq_of_retry {attempts : List (ProviderId × String)} {limit limit' : Nat}
    {o o' : Outcomes Output} {d : Coordinator} (h : c.retry limit attempts = (c', some o))
    (h' : c.retry limit' attempts = (d, some o')) : c' = d ∧ o = o' := by
  unfold retry at h h'
  exact eq_of_wait h fun _ hl => wait_mono h' hl

/-- The first round, in which every target is asked. -/
theorem execute_spec (o : Operation) (external : String) (targets : Targets) (hc : c.Sound) :
    ∃ t c' out, Evolves (fun _ => False) c c' ∧
      out.providers = (targets.listed c.ids).eraseDups ∧
      ∀ limit, t ≤ limit → c.execute limit o external targets = (c', some out) := by
  cases hstarted : c.start o external targets with
  | mk c₁ batch =>
    -- The fan-out starts with launches, and the wait for them comes to an end.
    have hsteps : Steps (fun _ => False) c c₁ := by
      have hall := steps_launchAll (fun _ => False) o
        ((targets.resolve c.ids).map fun p => (p, Provider.localId external)) c
      unfold start at hstarted
      cases hstarted
      exact hall
    have hevolves := hsteps.evolves hc
    have hc₁ := hevolves.sound hc
    obtain ⟨t, c', out, -, hsteps', hwait, hproviders, -⟩ :=
      start_yields targets hc hstarted .refl
    refine ⟨t, c', out, hevolves.trans ((hsteps'.evolves hc₁).mono nofun), hproviders, ?_⟩
    intro limit hl
    unfold execute
    rw [hstarted]
    exact hwait limit hl

/-! ## Attempts -/

/-- Why a target is tried again: it could not infer its local identifier, and finds the one with
    which it is tried in the record that another target has returned. -/
structure Justified (c : Coordinator) (a : Attempt) (source : ProviderId) : Prop where
  unnamed : ∃ f, (a.target, .error f) ∈ a.known ∧ f.isCannotInfer = true
  unsuccessful : ∀ o, (a.target, .ok o) ∉ a.known
  inferred : ∃ p o r s, p ≠ a.target ∧ (p, .ok o) ∈ a.known ∧ o.record? = some r ∧
    r.provider = source ∧ source ≠ a.target ∧
    c.station? a.target = some s ∧ s.provider.localIdFrom r = .ok a.localId

/-- An attempt justified by the results so far is justified in the coordinator. -/
theorem justified_of_inference {a : Attempt} {source : ProviderId}
    (hkeys : (a.known.map Prod.fst).Nodup)
    (h : Inference.Justified c.infer? (sources a.known) a.known (a.target, a.localId) source) :
    c.Justified a source := by
  have hnot := h.not_ok hkeys
  refine ⟨h.unnamed, hnot, ?_⟩
  obtain ⟨r, hr, hsource, infer, hinfer, hid⟩ := h.inferred
  obtain ⟨p, o, hmem, hrecord⟩ := Inference.mem_sources.mp hr
  unfold infer? at hinfer
  obtain ⟨s, hs, rfl⟩ := Option.map_eq_some_iff.mp hinfer
  refine ⟨p, o, r, s, ?_, hmem, hrecord, hsource, h.other, hs, hid⟩
  rintro rfl
  exact hnot o hmem

/-- What a fetch makes of the outcomes of its first round, by the attempts of `trace`. -/
structure Fetches (c : Coordinator) (targets : List ProviderId) (first : Outcomes Output)
    (trace : List Attempt) (last : Outcomes Output) : Prop where
  providers_first : first.providers = targets
  providers_last : last.providers = targets
  length_le : trace.length ≤ targets.length * targets.length
  /-- Each attempt uses up a pair of a target and a source that was not used before. -/
  used : ∃ used : List (ProviderId × ProviderId), used.Nodup ∧
    List.Forall₂ (fun a e => e.1 = a.target ∧ c.Justified a e.2) trace used
  /-- A success that is known at an attempt is kept until the end. -/
  keeps : ∀ a ∈ trace, Keeps first.entries a.known ∧ Keeps a.known last.entries
  /-- So is it until any later attempt. -/
  pairwise : trace.Pairwise fun a b => Keeps a.known b.known

/-- Fetching a user comes to an end.  Targets are tried again at most as often as there are pairs of
    them, each time for a pair of a target and a source that was not used before and with an
    identifier that the target finds in the record of that source; what has been returned is kept
    and not asked for again; and there is one outcome for each target, in their order. -/
theorem fetch_retries {b : Blueprint} (hc : c.Reachable b) (external : String)
    (targets : Targets) :
    ∃ t c₁ first trace c' u,
      (∀ limit, t ≤ limit →
        c.execute limit .readAll external targets = (c₁, some first) ∧
          Retries c₁.infer? (retry limit) first.entries {} c₁ trace u.outcomes.entries c' ∧
          c.fetch limit external targets = ((c'.merge u.outcomes.entries).1, some u)) ∧
      c.Fetches (targets.listed c.ids).eraseDups first trace u.outcomes := by
  have hsound := hc.sound
  obtain ⟨t, c₁, first, hevolves, hproviders, hexecute⟩ :=
    execute_spec .readAll external targets hsound
  have hkeys : (first.entries.map Prod.fst).Nodup := by
    have hnodup := Targets.nodup_resolve hsound.nodup targets
    rw [Targets.resolve_eq hsound.nodup, ← hproviders] at hnodup
    exact hnodup
  -- No pair has been used yet, so there are rounds enough for all of them.
  have hrounds : first.entries.length * first.entries.length <
      ([] : List (ProviderId × ProviderId)).length + Inference.maxRounds first.size := by
    show _ < 0 + (first.entries.length * first.entries.length + 1)
    omega
  have settles : ∀ attempts (d : Coordinator), d.Sound → (attempts.map Prod.fst).Nodup →
      ∃ t d' o, d'.Sound ∧ o.entries.map Prod.fst = attempts.map Prod.fst ∧
        ∀ limit, t ≤ limit → retry limit attempts d = (d', some o) :=
    fun attempts d hd hattempts => retry_spec hd hattempts
  have hnil := Inference.Used.nil first.entries {}
  obtain ⟨u, trace, rs, c', -, hloop⟩ :=
    Inference.exists_retries settles (hevolves.sound hsound) hkeys hnil hrounds
  have hretries := (hloop u (Nat.le_refl u)).1
  obtain ⟨⟨hfst, -⟩, hknown, hpairs⟩ := hretries.keeps hkeys
  obtain ⟨m', used, hused, hall⟩ := hretries.used hkeys hnil
  -- Merging keeps all results.
  have hentries : (c'.merge rs).2.outcomes.entries = rs :=
    Outcomes.entries_ofList (by rw [hfst]; exact hkeys)
  have hlength : first.entries.length = (targets.listed c.ids).eraseDups.length := by
    rw [← hproviders]
    exact (List.length_map _).symm
  refine ⟨max t u, c₁, first, trace, c', (c'.merge rs).2, fun limit hl => ?_,
    hproviders, ?providers_last, ?length_le, ⟨used, hused.nodup, ?used⟩, ?keeps, hpairs⟩
  · have hfirst := hexecute limit (by omega)
    obtain ⟨hretries, hrepeatedly⟩ := hloop limit (by omega)
    rw [hentries]
    refine ⟨hfirst, hretries, ?_⟩
    unfold fetch
    rw [hfirst]
    simp only [hrepeatedly]
  case providers_last =>
    show (c'.merge rs).2.outcomes.entries.map Prod.fst = _
    rw [hentries, hfst]
    exact hproviders
  case length_le =>
    rw [← hlength]
    exact hretries.length_le hkeys
  case used =>
    refine (forall₂_mem hall).imp fun a e h => ?_
    obtain ⟨ha, -, htarget, hjustified⟩ := h
    rw [hevolves.infer?] at hjustified
    refine ⟨htarget, justified_of_inference ?_ hjustified⟩
    rw [(hknown a ha).1]
    exact hkeys
  case keeps =>
    intro a ha
    rw [hentries]
    exact (hknown a ha).2

/-- One of two providers cannot infer its local identifier, but finds it in the record of the other
    one.  It is tried again with that, once. -/
theorem fetch_retries_inferred :
    let ldap : Provider := .custom
      { id := ⟨"ldap"⟩
        respond := fun _ r => { ending := .returned (.ok (.record (.blank ⟨⟨"ldap"⟩, r.localId⟩))) } }
    let google : Provider := .custom
      { id := ⟨"google"⟩
        localId := fun external => .error (.cannotInferLocalId ⟨"google"⟩ external)
        localIdFrom := fun r => .ok r.localId
        respond := fun _ _ => { ending := .returned (.ok .notFound) } }
    let b : Blueprint := { providers := [ldap, google] }
    let c : Coordinator :=
      { stations := [b.station ldap, b.station google], engine := b.mergeEngine }
    let found : Output := .record (.blank ⟨⟨"ldap"⟩, "jdoe"⟩)
    let unnamed : Fault := .cannotInferLocalId ⟨"google"⟩ "jdoe"
    let again : Attempt :=
      ⟨[(⟨"ldap"⟩, .ok found), (⟨"google"⟩, .error unnamed)], ⟨"google"⟩, "jdoe"⟩
    c.Reachable b ∧ ∃ t c' u, (∀ limit, t ≤ limit → c.fetch limit "jdoe" .all = (c', some u)) ∧
      (∃ c₁ first c₂, c.execute t .readAll "jdoe" .all = (c₁, some first) ∧
        first.entries = again.known ∧
        Retries c₁.infer? (retry t) again.known {} c₁ [again] u.outcomes.entries c₂) ∧
      c.Justified again ⟨"ldap"⟩ ∧
      u.outcomes.entries = [(⟨"ldap"⟩, .ok found), (⟨"google"⟩, .ok .notFound)] := by
  intro ldap google b c found unnamed again
  have hc : c.Reachable b := by
    refine ⟨fun p hp => ?_, c, rfl, .refl⟩
    rcases List.mem_cons.mp hp with rfl | hp
    · exact ⟨rfl, rfl⟩
    · obtain rfl := List.mem_singleton.mp hp
      exact ⟨rfl, rfl⟩
  obtain ⟨t, c₁, first, trace, c', u, hends, hfetches⟩ := fetch_retries hc "jdoe" .all
  obtain ⟨hstarted, hretries, -⟩ := hends t (Nat.le_refl t)
  have hfirst : (c.execute 10 .readAll "jdoe" .all).2.map Outcomes.entries = some again.known := by
    cbv
  obtain ⟨out, hout, hknown⟩ := Option.map_eq_some_iff.mp hfirst
  have hexecuted : c.execute 10 .readAll "jdoe" .all =
      ((c.execute 10 .readAll "jdoe" .all).1, some out) := by
    rw [← hout]
  obtain ⟨rfl, rfl⟩ := eq_of_execute hexecuted fun limit hl => (hends limit hl).1
  rw [hknown] at hretries
  have hplan : (Inference.plan (c.execute 10 .readAll "jdoe" .all).1.infer? (sources again.known)
      again.known {}).2 = [(⟨"google"⟩, "jdoe")] := by
    cbv
  have hretried : (retry 10 [(⟨"google"⟩, "jdoe")] (c.execute 10 .readAll "jdoe" .all).1).2.map
      Outcomes.entries = some [(⟨"google"⟩, .ok .notFound)] := by
    cbv
  have hlast : ∀ m, (Inference.plan (c.execute 10 .readAll "jdoe" .all).1.infer?
      (sources [(⟨"ldap"⟩, .ok found), (⟨"google"⟩, .ok .notFound)])
      [(⟨"ldap"⟩, .ok found), (⟨"google"⟩, .ok .notFound)] m).2 = [] := by
    intro m
    cbv
  generalize (c.execute 10 .readAll "jdoe" .all).1 = c₁ at hstarted hretries hplan hretried hlast
  -- One attempt is planned, and when it has been answered, there is nothing left to try.
  obtain ⟨rfl, hentries⟩ : trace = [again] ∧
      u.outcomes.entries = [(⟨"ldap"⟩, .ok found), (⟨"google"⟩, .ok .notFound)] := by
    generalize u.outcomes.entries = rs at hretries ⊢
    cases hretries with
    | done planned =>
      rw [planned] at hplan
      exact absurd hplan (List.cons_ne_nil _ _).symm
    | @again _ _ _ m' _ d _ attempts o trace planned any made answered rest =>
      rw [planned] at hplan
      obtain rfl : attempts = [(⟨"google"⟩, "jdoe")] := hplan
      obtain ⟨o', ho', hanswer⟩ := Option.map_eq_some_iff.mp hretried
      have hanswered : retry 10 [(⟨"google"⟩, "jdoe")] c₁ =
          ((retry 10 [(⟨"google"⟩, "jdoe")] c₁).1, some o') := by
        rw [← ho']
      obtain ⟨-, rfl⟩ := eq_of_retry made hanswered
      have habsorbed : Inference.absorbAll [(⟨"google"⟩, .ok .notFound)] again.known =
          [(⟨"ldap"⟩, .ok found), (⟨"google"⟩, .ok .notFound)] := rfl
      rw [hanswer, habsorbed] at rest
      cases rest with
      | done => exact ⟨rfl, rfl⟩
      | again planned' any' =>
        have hnone := hlast m'
        rw [planned'] at hnone
        exact absurd hnone any'
  refine ⟨hc, t, _, u, fun limit hl => (hends limit hl).2.2,
    ⟨c₁, out, c', hstarted, hknown, hretries⟩, ?_, hentries⟩
  obtain ⟨used, -, hused⟩ := hfetches.used
  obtain _ | @⟨_, e, _, _, ⟨-, hjustified⟩, -⟩ := hused
  -- Only one record is known, so it is the one in which the identifier was found.
  obtain ⟨p, o, r, -, -, hmem, hrecord, hsource, -⟩ := hjustified.inferred
  rcases List.mem_cons.mp hmem with h | h
  · obtain ⟨-, ho⟩ := Prod.mk.inj h
    obtain rfl := Except.ok.inj ho
    obtain rfl := Option.some.inj hrecord
    have hsource' : e.2 = ⟨"ldap"⟩ := hsource.symm
    rwa [hsource'] at hjustified
  · cases (Prod.mk.inj (List.mem_singleton.mp h)).2

end Federation.Coordinator
