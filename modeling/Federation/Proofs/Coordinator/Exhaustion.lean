import Federation.Proofs.Coordinator.Each
import Federation.Proofs.Coordinator.Fetch
import Federation.Proofs.Coordinator.Saturation
import Federation.Proofs.Provider.Records
import Mathlib

/-!
# Fetching a user until nothing is left to infer

A target that still cannot infer its local identifier when a fetch has ended has been called with
whatever it infers from the records that the others have returned.  A target to which such a call has
answered that it does not know the user is not called again, even if there is more to infer.

## Key results

- `retry_yields`: what a round of attempts yields
- `calls_of_retries`: every attempt calls its target
- `retries_of_fetch`: of which rounds a fetch consists
- `fetch_exhausts`: with what a target has been called that cannot infer its identifier in the end
-/

namespace Federation.Coordinator

open Inference (Attempt AreDistinct Results Retries sources absorbAll)

variable {c c₁ c' d d' : Coordinator} {kept : ProviderId × Nat → Prop}

/-! ## Records of the providers that return them -/

/-- Providers sign what they return, whatever is done with the coordinator. -/
theorem Steps.isSigned (h : Steps kept c c') (hc : c.Sound)
    (hsigned : c.Each fun s => s.provider.IsSigned) : c'.Each fun s => s.provider.IsSigned :=
  h.each_provider hc Provider.IsSigned.keeps (fun _ _ hnew hended hp => hp.submit hnew hended)
    (fun _ f hp => hp.mapServer f) hsigned

/-- If the providers of a blueprint make records in their own names, so have all their calls. -/
theorem Reachable.isSigned {b : Blueprint} (h : c.Reachable b) (hb : ∀ p ∈ b.providers, p.Signs) :
    c.Each fun s => s.provider.IsSigned := by
  obtain ⟨c₀, hbuild, hsteps⟩ := h.built
  refine hsteps.isSigned (sound_of_build h.fresh hbuild) fun s hs => ?_
  obtain ⟨-, rfl⟩ := Blueprint.build_eq_ok_iff.mp hbuild
  obtain ⟨p, hp, rfl⟩ := List.mem_map.mp hs
  exact Provider.isSigned_of_isFresh (h.fresh p hp) (hb p hp)

/-- The records among some results are made in the names of the providers that returned them. -/
def AreOwn (rs : Results) : Prop := ∀ p x, (p, .ok x) ∈ rs → x.IsFrom p

/-- What a target yields is from it, if it signs what it returns. -/
theorem Yields.isFrom {o : Operation} {localId : Provider → Except Fault String} {p : ProviderId}
    {x : Output} (h : Yields c c₁ c' o localId p (.ok x))
    (hsigned : c'.Each fun s => s.provider.IsSigned) : x.IsFrom p := by
  cases h with
  | called s s' id _ station able named called station' answer told =>
    obtain ⟨hmem, rfl⟩ := station?_eq_some station'
    cases answer with
    | returned e _ call since inTime ending => exact (hsigned s' hmem).isFrom call ending

/-- Records of distinct targets are from distinct providers, if each is its own. -/
theorem AreOwn.areDistinct {rs : Results} (h : AreOwn rs) (hkeys : (rs.map Prod.fst).Nodup) :
    AreDistinct (sources rs) := by
  intro r hr r' hr' hsame
  obtain ⟨p, x, hx, hrecord⟩ := Inference.mem_sources.mp hr
  obtain ⟨p', x', hx', hrecord'⟩ := Inference.mem_sources.mp hr'
  -- The two records are of one provider, so they are of one result.
  obtain rfl : p = p' := (h p x hx r hrecord).symm.trans (hsame.trans (h p' x' hx' r' hrecord'))
  obtain rfl := Except.ok.inj (eq_of_mem_of_nodup hkeys hx hx')
  exact Option.some.inj (hrecord.symm.trans hrecord')

/-- Targets still have their own records when those of a round are added. -/
theorem AreOwn.absorbAll {rs round : Results} (h : AreOwn rs) (hround : AreOwn round) :
    AreOwn (absorbAll round rs) := by
  intro p x hx
  rcases Inference.mem_ok_absorbAll hx with hx | hx
  · exact h p x hx
  · exact hround p x hx

/-! ## Rounds -/

/-- Steps that keep some jobs are steps. -/
theorem Steps.mono (h : Steps kept c c') : Steps (fun _ => False) c c' := by
  induction h with
  | refl => exact .refl
  | @tail d d' _ step ih =>
    refine ih.tail ?_
    cases step with
    | launch o localId target => exact .launch o localId target d
    | cancel job => exact .cancel job d id
    | serve p f => exact .serve p f d
    | settle => exact .settle d
    | pass t _ h => exact .pass t d h
    | tell es => exact .tell es d

/-- What an operation has yielded. -/
theorem yields_of_execute {limit : Nat} {o : Operation} {external : String} {targets : Targets}
    {out : Outcomes Output} (hc : c.Sound)
    (h : c.execute limit o external targets = (c', some out)) :
    ∃ c₁, Steps (fun _ => False) c c₁ ∧ Steps (fun _ => False) c₁ c' ∧
      out.providers = (targets.listed c.ids).eraseDups ∧
      ∀ e ∈ out.entries, Yields c c₁ c' o (Provider.localId external) e.1 e.2 := by
  unfold execute at h
  cases hstarted : c.start o external targets with
  | mk c₁ batch =>
    rw [hstarted] at h
    obtain ⟨t, d, out', -, hsteps, hwait, hproviders, hyields⟩ :=
      start_yields targets hc hstarted .refl
    obtain ⟨rfl, rfl⟩ := eq_of_wait h hwait
    have hlaunched := steps_launchAll (fun _ => False) o
      ((targets.resolve c.ids).map fun p => (p, Provider.localId external)) c
    unfold start at hstarted
    cases hstarted
    exact ⟨_, hlaunched, hsteps.mono, hproviders, hyields⟩

/-- What launches at different targets have yielded that were waited for. -/
theorem yields_of_wait {limit : Nat} {o : Operation}
    {xs : List (ProviderId × (Provider → Except Fault String))} {es : List Batch.Entry}
    {out : Outcomes Output} (hc : c.Sound) (hxs : (xs.map Prod.fst).Nodup)
    (launched : launchAll o xs c = (c₁, es))
    (ended : c₁.wait limit ⟨o.name, es⟩ = (c', some out)) :
    Steps (fun _ => False) c c₁ ∧ Steps (fun _ => False) c₁ c' ∧
      List.Forall₂ (fun x e => e.1 = x.1 ∧ Yields c c₁ c' o x.2 x.1 e.2) xs out.entries := by
  have hsteps := steps_launchAll (fun _ => False) o xs c
  rw [launched] at hsteps
  obtain ⟨t, d, out', -, hsteps', hwait, hout⟩ := launchAll_yields hxs hc launched .refl
  obtain ⟨rfl, rfl⟩ := eq_of_wait ended hwait
  exact ⟨hsteps, hsteps'.mono, hout⟩

/-- What a round of attempts has yielded. -/
theorem yields_of_retry {limit : Nat} {attempts : List (ProviderId × String)} {o : Outcomes Output}
    (hc : c.Sound) (hkeys : (attempts.map Prod.fst).Nodup)
    (h : retry limit attempts c = (c', some o)) :
    ∃ c₁, Steps (fun _ => False) c c₁ ∧ Steps (fun _ => False) c₁ c' ∧
      List.Forall₂ (fun a e => e.1 = a.1 ∧
        Yields c c₁ c' .readAll (fun _ => .ok a.2) a.1 e.2) attempts o.entries := by
  let xs : List (ProviderId × (Provider → Except Fault String)) :=
    attempts.map fun a => (a.1, fun _ => .ok a.2)
  have hfst : xs.map Prod.fst = attempts.map Prod.fst := by
    rw [List.map_map]
    rfl
  cases hlaunched : launchAll .readAll xs c with
  | mk c₁ es =>
    have hretry : retry limit attempts c = (launchAll .readAll xs c).1.wait limit
        ⟨Operation.readAll.name, (launchAll .readAll xs c).2⟩ := rfl
    rw [hretry, hlaunched] at h
    obtain ⟨before, after, hout⟩ := yields_of_wait hc (by rw [hfst]; exact hkeys) hlaunched h
    exact ⟨c₁, before, after, List.forall₂_map_left_iff.mp hout⟩

/-! ## Calls -/

/-- A provider is called with a request on the way from one state to another. -/
def Calls (c c' : Coordinator) (p : ProviderId) (request : Request) : Prop :=
  ∃ d d' s, Steps (fun _ => False) c d ∧ Steps (fun _ => False) d d' ∧
    Steps (fun _ => False) d' c' ∧ d.station? p = some s ∧
    (d'.station? p).map Station.provider =
      some (Host.submit s.roster.jobs.length request s.provider)

/-- A call made in the course of some steps is made in the course of more. -/
theorem Calls.mono {p : ProviderId} {request : Request} (h : Calls d d' p request)
    (before : Steps (fun _ => False) c d) (after : Steps (fun _ => False) d' c') :
    Calls c c' p request := by
  obtain ⟨e, e', s, hs, hcalled, hs', station, called⟩ := h
  exact ⟨e, e', s, before.trans hs, hcalled, hs'.trans after, station, called⟩

/-- A target that is able to read is called with the identifier that is given for it. -/
theorem Yields.calls {p : ProviderId} {id : String} {r : Except Fault Output} {s : Station}
    (h : Yields c c₁ c' .readAll (fun _ => .ok id) p r) (hs : c.station? p = some s)
    (able : s.capabilities.supports .readAll = true) (before : Steps (fun _ => False) c c₁)
    (after : Steps (fun _ => False) c₁ c') : Calls c c' p ⟨.readAll, id⟩ := by
  cases h with
  | unknown unregistered =>
    exact nomatch (station?_eq_none_iff.mpr unregistered).symm.trans hs
  | unsupported s' station unable =>
    obtain rfl := Option.some.inj (hs.symm.trans station)
    exact nomatch unable.symm.trans able
  | unnamed s' f _ _ nameless => exact nomatch nameless
  | called s' _ id' _ station _ named called =>
    obtain rfl := Except.ok.inj named
    exact ⟨c, c₁, s', .refl, before, after, station, called⟩

/-- Providers are still able to do what they were able to do. -/
theorem Evolves.capabilities (h : Evolves kept c c') {p : ProviderId} {s : Station}
    (hs : c.station? p = some s) :
    ∃ s', c'.station? p = some s' ∧ s'.capabilities = s.capabilities := by
  rcases h.station? p with ⟨hnone, -⟩ | ⟨t, t', ht, ht', hgoes⟩
  · exact nomatch hnone.symm.trans hs
  · obtain rfl := Option.some.inj (hs.symm.trans ht)
    have hsame : t'.profile.capabilities = s.profile.capabilities := by rw [hgoes.profile]
    exact ⟨t', ht', hsame⟩

/-- Every attempt calls its target, and all records are made in the names of the providers that
    returned them. -/
theorem calls_of_retries {infer? : ProviderId → Option (Record → Except Fault String)}
    {limit : Nat} {rs rs' : Results} {m : Inference.Memory} {trace : List Attempt}
    (h : Retries infer? (retry limit) rs m c trace rs' c') (hc : c.Sound)
    (hkeys : (rs.map Prod.fst).Nodup) (hsigned : c.Each fun s => s.provider.IsSigned)
    (hown : AreOwn rs) :
    Steps (fun _ => False) c c' ∧ AreOwn rs' ∧
      ∀ a ∈ trace, ∀ s, c.station? a.target = some s →
        s.capabilities.supports .readAll = true → Calls c c' a.target ⟨.readAll, a.localId⟩ := by
  -- Induction on the rounds, each of which makes its calls and then leaves the others to the rest.
  induction h with
  | done => exact ⟨.refl, hown, nofun⟩
  | @again rs rs' m m' c c₂ c' attempts o trace planned any made answered rest ih =>
    obtain ⟨-, htargets, -, -, -⟩ := Inference.plan_spec planned
    obtain ⟨c₁, before, after, hall⟩ := yields_of_retry hc (hkeys.sublist htargets) made
    have hround : Steps (fun _ => False) c c₂ := before.trans after
    have hevolves := hround.evolves hc
    have hsigned₂ := hround.isSigned hc hsigned
    have hround_own : AreOwn o.entries := by
      intro p x hx
      obtain ⟨a, -, hp, hyields⟩ := exists_of_mem_right hall hx
      obtain rfl : p = a.1 := hp
      exact hyields.isFrom hsigned₂
    obtain ⟨hsteps, hown', hcalls⟩ := ih (hevolves.sound hc)
      (by rw [Inference.map_fst_absorbAll]; exact hkeys) hsigned₂ (hown.absorbAll hround_own)
    refine ⟨hround.trans hsteps, hown', fun a ha s hs able => ?_⟩
    rcases List.mem_append.mp ha with ha | ha
    · obtain ⟨x, hx, rfl⟩ := List.mem_map.mp ha
      obtain ⟨e, -, -, hyields⟩ := exists_of_mem_left hall hx
      exact (hyields.calls hs able before after).mono .refl hsteps
    · obtain ⟨s', hs', hcapabilities⟩ := hevolves.capabilities hs
      exact (hcalls a ha s' hs' (hcapabilities ▸ able)).mono hround .refl

/-! ## Fetching -/

/-- What a fetch consists of: a first round, further ones, and the merge of what they have
    yielded. -/
theorem fetch_eq_iff {limit : Nat} {external : String} {targets : Targets} {u : FederatedUser} :
    c.fetch limit external targets = (c', some u) ↔
      ∃ first c₁ c₂ rs, c.execute limit .readAll external targets = (c₁, some first) ∧
        Inference.repeatedly c₁.infer? (retry limit) (Inference.maxRounds first.size)
          first.entries {} c₁ = (c₂, some rs) ∧
        c' = (c₂.merge rs).1 ∧ u = (c₂.merge rs).2 := by
  unfold fetch
  constructor
  -- Neither the first round nor the further ones have run out of patience.
  · intro h
    cases hexecute : c.execute limit .readAll external targets with
    | mk c₁ first? =>
      rw [hexecute] at h
      cases first? with
      | none => exact nomatch (Prod.mk.inj h).2
      | some first =>
        dsimp only at h
        cases hrounds : Inference.repeatedly c₁.infer? (retry limit)
            (Inference.maxRounds first.size) first.entries {} c₁ with
        | mk c₂ rs? =>
          rw [hrounds] at h
          cases rs? with
          | none => exact nomatch (Prod.mk.inj h).2
          | some rs =>
            obtain ⟨hc', hu⟩ := Prod.mk.inj h
            exact ⟨first, c₁, c₂, rs, rfl, hrounds, hc'.symm, (Option.some.inj hu).symm⟩
  · rintro ⟨first, c₁, c₂, rs, hexecute, hrounds, rfl, rfl⟩
    rw [hexecute]
    simp only [hrounds]

/-- A fetch is a first round in which every target is asked, and rounds of attempts until nothing is
    left to try. -/
theorem retries_of_fetch {limit : Nat} {external : String} {targets : Targets} {u : FederatedUser}
    (hc : c.Sound) (h : c.fetch limit external targets = (c', some u)) :
    ∃ first c₁ c₂ trace, c.execute limit .readAll external targets = (c₁, some first) ∧
      Retries c₁.infer? (retry limit) first.entries {} c₁ trace u.outcomes.entries c₂ ∧
      c₂.merge u.outcomes.entries = (c', u) := by
  obtain ⟨first, c₁, c₂, rs, hexecute, hrounds, rfl, rfl⟩ := fetch_eq_iff.mp h
  obtain ⟨d, before, after, hproviders, -⟩ := yields_of_execute hc hexecute
  have hsteps : Steps (fun _ => False) c c₁ := before.trans after
  have hc₁ := (hsteps.evolves hc).sound hc
  have hkeys := Targets.nodup_of_providers hc.nodup hproviders
  -- No pair has been used yet, so there are rounds enough for all of them.
  have henough : first.entries.length * first.entries.length <
      ([] : List (ProviderId × ProviderId)).length + Inference.maxRounds first.size := by
    show _ < 0 + (first.entries.length * first.entries.length + 1)
    omega
  obtain ⟨trace, hretries⟩ := Inference.retries_of_repeatedly (P := Sound)
    (fun hs hattempts hmade => by
      obtain ⟨e, before, after, hall⟩ := yields_of_retry hs hattempts hmade
      have hround : Steps (fun _ => False) _ _ := before.trans after
      exact ⟨(hround.evolves hs).sound hs, map_eq_of_forall₂ hall⟩)
    hc₁ hkeys (.nil first.entries {}) henough hrounds
  have hentries : (c₂.merge rs).2.outcomes.entries = rs :=
    Outcomes.entries_ofList (by rw [(hretries.keeps hkeys).1.1]; exact hkeys)
  refine ⟨first, c₁, c₂, trace, hexecute, ?_, ?_⟩ <;> rw [hentries]
  exact hretries

/-- Merging tells the observer something, and that is all. -/
theorem steps_of_merge {rs : Results} {u : FederatedUser} (h : c.merge rs = (c', u)) :
    Steps (fun _ => False) c c' := by
  obtain rfl : (c.merge rs).1 = c' := congrArg Prod.fst h
  exact .single (.tell _ c)

/-- A target that still cannot infer its local identifier when a fetch has ended has been called
    with whatever it infers from the records that others have returned, if all records are made in
    the names of the providers that return them. -/
theorem fetch_exhausts {b : Blueprint} (hc : c.Reachable b) (hb : ∀ p ∈ b.providers, p.Signs)
    {limit : Nat} {external : String} {targets : Targets} {u : FederatedUser}
    (fetched : c.fetch limit external targets = (c', some u)) {target : ProviderId} {s : Station}
    {f : Fault} (station : c.station? target = some s)
    (able : s.capabilities.supports .readAll = true)
    (unnamed : (target, .error f) ∈ u.outcomes.entries) (cannot : f.isCannotInfer = true)
    {p : ProviderId} {x : Output} {r : Record} {id : String}
    (success : (p, .ok x) ∈ u.outcomes.entries) (record : x.record? = some r)
    (inferred : s.provider.localIdFrom r = .ok id) : Calls c c' target ⟨.readAll, id⟩ := by
  have hsound := hc.sound
  obtain ⟨first, c₁, c₂, trace, hexecute, hretries, hlast⟩ := retries_of_fetch hsound fetched
  obtain ⟨d, before, after, hproviders, hyields⟩ := yields_of_execute hsound hexecute
  have hsteps : Steps (fun _ => False) c c₁ := before.trans after
  have hevolves := hsteps.evolves hsound
  have hsigned := hsteps.isSigned hsound (hc.isSigned hb)
  have hkeys := Targets.nodup_of_providers hsound.nodup hproviders
  have hfirst : AreOwn first.entries := fun p x hx => (hyields _ hx).isFrom hsigned
  obtain ⟨hrounds, hown, hcalls⟩ :=
    calls_of_retries hretries (hevolves.sound hsound) hkeys hsigned hfirst
  have hkeys' : (u.outcomes.entries.map Prod.fst).Nodup := by
    rw [(hretries.keeps hkeys).1.1]
    exact hkeys
  -- The record is not the target's own, since the target has not succeeded.
  have hne : r.provider ≠ target := by
    rw [hown p x success r record]
    rintro rfl
    cases eq_of_mem_of_nodup hkeys' success unnamed
  have hinfer : c₁.infer? target = some fun r => s.provider.localIdFrom r := by
    rw [hevolves.infer?, infer?, station, Option.map_some]
  have hmem := hretries.exhausts hkeys (hown.areDistinct hkeys') (.empty _ _) unnamed
    cannot hinfer (Inference.mem_sources.mpr ⟨p, x, success, record⟩) hne inferred
  -- So it is one of the attempts that were made, and each of them has called its target.
  obtain ⟨a, ha, hcall⟩ := List.mem_map.mp hmem
  obtain ⟨rfl, rfl⟩ := Prod.mk.inj hcall
  obtain ⟨s', hs', hcapabilities⟩ := hevolves.capabilities station
  exact (hcalls a ha s' hs' (hcapabilities ▸ able)).mono hsteps (steps_of_merge hlast)

/-- One of two providers cannot infer its local identifier, neither from what the caller has nor
    when it is called with the one that it finds in the record of the other. -/
theorem fetch_exhausts_unnamed :
    let ldap : Provider := .custom
      { id := ⟨"ldap"⟩
        respond := fun _ r => { ending := .returned (.ok (.record (.blank ⟨⟨"ldap"⟩, r.localId⟩))) } }
    let google : Provider := .custom
      { id := ⟨"google"⟩
        localId := fun external => .error (.cannotInferLocalId ⟨"google"⟩ external)
        localIdFrom := fun r => .ok r.localId
        respond := fun _ r =>
          { ending := .returned (.error (.cannotInferLocalId ⟨"google"⟩ r.localId)) } }
    let b : Blueprint := { providers := [ldap, google] }
    let c : Coordinator :=
      { stations := [b.station ldap, b.station google], engine := b.mergeEngine }
    c.Reachable b ∧ (∀ p ∈ b.providers, p.Signs) ∧ ∃ c' u,
      c.fetch 10 "jdoe" .all = (c', some u) ∧ Calls c c' ⟨"google"⟩ ⟨.readAll, "jdoe"⟩ := by
  intro ldap google b c
  have hc : c.Reachable b := by
    refine ⟨fun p hp => ?_, c, rfl, .refl⟩
    rcases List.mem_cons.mp hp with rfl | hp
    · exact ⟨rfl, rfl⟩
    · obtain rfl := List.mem_singleton.mp hp
      exact ⟨rfl, rfl⟩
  -- One provider signs its records, and the other one returns none.
  have hb : ∀ p ∈ b.providers, p.Signs := by
    intro p hp
    rcases List.mem_cons.mp hp with rfl | hp
    · exact fun _ _ _ hx => Except.ok.inj (Ending.returned.inj hx) ▸ Output.isFrom_record rfl
    · obtain rfl := List.mem_singleton.mp hp
      exact fun _ _ _ => nofun
  let r : Record := .blank ⟨⟨"ldap"⟩, "jdoe"⟩
  let f : Fault := .collection
    [.cannotInferLocalId ⟨"google"⟩ "jdoe", .cannotInferLocalId ⟨"google"⟩ "jdoe"]
  have hentries : (c.fetch 10 "jdoe" .all).2.map (fun u => u.outcomes.entries) =
      some [(⟨"ldap"⟩, .ok (.record r)), (⟨"google"⟩, .error f)] := by
    cbv
  obtain ⟨u, hu, hout⟩ := Option.map_eq_some_iff.mp hentries
  have hfetched : c.fetch 10 "jdoe" .all = ((c.fetch 10 "jdoe" .all).1, some u) := by rw [← hu]
  refine ⟨hc, hb, _, u, hfetched, ?_⟩
  exact fetch_exhausts hc hb hfetched (s := b.station google) (f := f) (p := ⟨"ldap"⟩) (r := r)
    rfl rfl (by rw [hout]; exact .tail _ (.head _)) rfl (by rw [hout]; exact .head _) rfl rfl

/-- A target that does not know the user by the first identifier that it finds is not called with
    the next one, although a record that another target has returned suggests it. -/
theorem fetch_stops_at_notFound :
    let ldap : Provider := .custom
      { id := ⟨"ldap"⟩
        respond := fun _ r => { ending := .returned (.ok (.record (.blank ⟨⟨"ldap"⟩, r.localId⟩))) } }
    let okta : Provider := .custom
      { id := ⟨"okta"⟩
        respond := fun _ r => { ending := .returned (.ok (.record (.blank ⟨⟨"okta"⟩, r.localId⟩))) } }
    let github : Provider := .custom
      { id := ⟨"github"⟩
        localId := fun external => .error (.cannotInferLocalId ⟨"github"⟩ external)
        localIdFrom := fun r => .ok (r.provider.name ++ "/" ++ r.localId)
        respond := fun _ _ => { ending := .returned (.ok .notFound) } }
    let b : Blueprint := { providers := [ldap, okta, github] }
    let c : Coordinator :=
      { stations := b.providers.map b.station, engine := b.mergeEngine }
    let r : Record := .blank ⟨⟨"okta"⟩, "jdoe"⟩
    b.build = .ok c ∧ (∀ p ∈ b.providers, p.Signs) ∧ github.localIdFrom r = .ok "okta/jdoe" ∧
      ∃ c' u, c.fetch 10 "jdoe" .all = (c', some u) ∧
        (⟨"okta"⟩, .ok (.record r)) ∈ u.outcomes.entries ∧
        (⟨"github"⟩, .ok .notFound) ∈ u.outcomes.entries ∧
        (c'.station? ⟨"github"⟩).bind (fun s => s.provider.seen?) =
          some [⟨.readAll, "ldap/jdoe"⟩] := by
  intro ldap okta github b c r
  have hb : ∀ p ∈ b.providers, p.Signs := by
    intro p hp
    rcases List.mem_cons.mp hp with rfl | hp
    · exact fun _ _ _ hx => Except.ok.inj (Ending.returned.inj hx) ▸ Output.isFrom_record rfl
    rcases List.mem_cons.mp hp with rfl | hp
    · exact fun _ _ _ hx => Except.ok.inj (Ending.returned.inj hx) ▸ Output.isFrom_record rfl
    · obtain rfl := List.mem_singleton.mp hp
      exact fun _ _ _ hx => Except.ok.inj (Ending.returned.inj hx) ▸ nofun
  -- The first identifier is taken from the first record, and the answer to it is a success.
  have hentries : (c.fetch 10 "jdoe" .all).2.map (fun u => u.outcomes.entries) =
      some [(⟨"ldap"⟩, .ok (.record (.blank ⟨⟨"ldap"⟩, "jdoe"⟩))), (⟨"okta"⟩, .ok (.record r)),
        (⟨"github"⟩, .ok .notFound)] := by
    cbv
  have hseen : ((c.fetch 10 "jdoe" .all).1.station? ⟨"github"⟩).bind (fun s => s.provider.seen?) =
      some [⟨.readAll, "ldap/jdoe"⟩] := by
    cbv
  obtain ⟨u, hu, hout⟩ := Option.map_eq_some_iff.mp hentries
  refine ⟨rfl, hb, rfl, (c.fetch 10 "jdoe" .all).1, u, by rw [← hu], ?_, ?_, hseen⟩
  · rw [hout]
    exact .tail _ (.head _)
  · rw [hout]
    exact .tail _ (.tail _ (.head _))

end Federation.Coordinator
