import Federation.Proofs.Coordinator.Batch

/-!
# What a fan-out yields

An operation that is run on several providers yields one entry for each of them, in the order of the
targets.  A target that is unknown, unable to perform the operation, or without a local identifier is
not called, and its entry says why; these come in this order.  Any other target is called once, and
its entry is its answer, unless it breaks off or its deadline comes first.  What a custom provider
answers, and when, is up to its responses.

## Key results

- `execute_yields`: an operation comes to an end, and its outcomes are these
-/

namespace Federation.Coordinator

open Roster (Tracked Amounts)

/-- What a fan-out yields for a target.  It starts at `c`, its calls have been made at `c₁`, and it
    has ended at `c'`. -/
inductive Yields (c c₁ c' : Coordinator) (o : Operation)
    (localId : Provider → Except Fault String) (p : ProviderId) : Except Fault Output → Prop
  | unknown (unregistered : p ∉ c.ids) : Yields c c₁ c' o localId p (.error (.unknownProvider p))
  | unsupported (s : Station) (station : c.station? p = some s)
      (unable : s.capabilities.supports o = false)
      (uncalled : (c₁.station? p).map Station.provider = some s.provider) :
      Yields c c₁ c' o localId p (.error (.unsupportedOperation p o.name))
  | unnamed (s : Station) (f : Fault) (station : c.station? p = some s)
      (able : s.capabilities.supports o = true) (nameless : localId s.provider = .error f)
      (uncalled : (c₁.station? p).map Station.provider = some s.provider) :
      Yields c c₁ c' o localId p (.error f)
  | called (s s' : Station) (id : String) (r : Except Fault Output)
      (station : c.station? p = some s) (able : s.capabilities.supports o = true)
      (named : localId s.provider = .ok id)
      (called : (c₁.station? p).map Station.provider =
        some (Host.submit s.roster.jobs.length ⟨o, id⟩ s.provider))
      (station' : c'.station? p = some s')
      (answer : Amounts ⟨s!"{o.name} on {p}", s.deadline, c.now⟩ c'.now
        (Host.ended? s'.provider s.roster.jobs.length) r)
      (told : ∀ respond, s.provider.respond? = some respond →
        ∃ n, r = (respond n ⟨o, id⟩).result s!"{o.name} on {p}" s.deadline) :
      Yields c c₁ c' o localId p r

variable {c c₁ c₂ c' : Coordinator} {o : Operation} {p : ProviderId}
  {localId : Provider → Except Fault String}

/-- The three reasons for which a target is not called, in their order. -/
theorem yields_of_refused {f : Fault} (h : c.localIdAt o localId p = .error f)
    (same : (c₁.station? p).map Station.provider = (c.station? p).map Station.provider) :
    Yields c c₁ c' o localId p (.error f) := by
  unfold localIdAt at h
  -- The reasons are checked one after the other, as a launch does it.
  cases hs : c.station? p with
  | none =>
    rw [hs] at h
    obtain rfl := Except.error.inj h
    exact .unknown (station?_eq_none_iff.mp hs)
  | some s =>
    rw [hs] at h same
    dsimp only at h
    cases hsupports : s.capabilities.supports o with
    | false =>
      rw [hsupports] at h
      obtain rfl := Except.error.inj h
      exact .unsupported s hs hsupports same
    | true =>
      rw [hsupports] at h
      exact .unnamed s f hs hsupports h same

/-- What a job amounts to that is closed in the end. -/
theorem Awaits.answer {terms : Terms} {request : Request} {job : ProviderId × Nat}
    (h : c.Awaits terms request job)
    (hclosed : ∀ s, c.station? job.1 = some s → ¬s.roster.IsOpen job.2) :
    ∃ s r, c.station? job.1 = some s ∧ c.result? (.launched job.1 job.2) = some r ∧
      Amounts terms c.now (Host.ended? s.provider job.2) r ∧
      ∀ respond, s.provider.respond? = some respond →
        ∃ n, r = (respond n request).result terms.label terms.deadline := by
  obtain ⟨s, hs, htracked, hpledged⟩ := h
  have hopen := hclosed s hs
  obtain ⟨r, hr, hanswer⟩ := htracked.answer hopen
  have haction : c.action? (job.1, job.2) = s.action? job.2 := by
    unfold action?
    rw [hs, Option.bind_some]
  refine ⟨s, r, hs, ?_, hanswer, fun respond hrespond => ?_⟩
  · show ((c.action? (job.1, job.2)).bind Action.published).map Outcome.toExcept = some r
    rw [haction]
    exact hr
  · have hp := Provider.pledge job.2 terms.start (Custom.Ends respond request terms.start)
    obtain ⟨hends, hlate⟩ := (hpledged respond hrespond).foretold hp htracked hopen
    exact Custom.result_of_amounts hanswer hends hlate

/-- What a fan-out yields for a target, once its action is closed. -/
theorem Begins.yields {e : Batch.Entry} {kept : ProviderId × Nat → Prop}
    (h : Begins c c₁ o localId p e) (evolves : Evolves kept c c')
    (awaits : ∀ terms request job, e.job? = some job →
      c₁.Awaits terms request job → c'.Awaits terms request job)
    (hclosed : ∀ job, e.job? = some job → ∀ s, c'.station? job.1 = some s →
      ¬s.roster.IsOpen job.2) :
    ∃ r, c'.result? e = some r ∧ e.provider = p ∧ Yields c c₁ c' o localId p r := by
  cases h with
  | refused f reason same => exact ⟨.error f, rfl, rfl, yields_of_refused reason same⟩
  | called s s₁ id station named station₁ host ha =>
    obtain ⟨s', r, hs', hr, hamounts, htold⟩ := (awaits _ _ _ rfl ha).answer (hclosed _ rfl)
    obtain ⟨hsupports, hid⟩ := supports_of_localIdAt station named
    -- The provider is the same one as when it was called.
    have hrespond : s'.provider.respond? = s.provider.respond? := by
      rcases evolves.station? p with ⟨hnone, -⟩ | ⟨t, t', ht, ht', hgoes⟩
      · exact nomatch hnone.symm.trans station
      · obtain rfl := Option.some.inj (ht.symm.trans station)
        obtain rfl := Option.some.inj (ht'.symm.trans hs')
        exact Station.respond?_eq_of_profile hgoes.profile
    rw [hrespond] at htold
    refine ⟨r, hr, rfl, .called s s' id r station hsupports hid ?_ hs' hamounts htold⟩
    rw [station₁, Option.map_some, host]

/-- Operations that are launched at different targets come to an end, whatever else happens in
    between. -/
theorem launchAll_yields {xs : List (ProviderId × (Provider → Except Fault String))}
    {es : List Batch.Entry} (hxs : (xs.map Prod.fst).Nodup) (hc : c.Sound)
    (launched : launchAll o xs c = (c₁, es))
    (between : Steps (· ∈ Batch.jobs ⟨o.name, es⟩) c₁ c₂) :
    ∃ t c' out, c₂.now ≤ t ∧ Steps (· ∈ Batch.jobs ⟨o.name, es⟩) c₂ c' ∧
      (∀ limit, t ≤ limit → c₂.wait limit ⟨o.name, es⟩ = (c', some out)) ∧
      List.Forall₂ (fun x e => e.1 = x.1 ∧ Yields c c₁ c' o x.2 x.1 e.2) xs out.entries := by
  have hbegins := begins_launchAll o hxs hc
  have hevolves := (steps_launchAll (fun _ => False) o xs c).evolves hc
  rw [launched] at hbegins hevolves
  have hc₁ := hevolves.sound hc
  have hlater := between.evolves hc₁
  have hc₂ := hlater.sound hc₁
  have hawaits : ∀ job ∈ Batch.jobs ⟨o.name, es⟩,
      ∃ terms request, c₂.Awaits terms request job := by
    intro job hjob
    obtain ⟨terms, request, ha⟩ := awaits_of_begins hbegins job hjob
    exact ⟨terms, request, hlater.awaits hjob ha⟩
  obtain ⟨t, c', hnow, hsteps, hwait, hclosed⟩ :=
    wait_spec (· ∈ Batch.jobs ⟨o.name, es⟩) hc₂ hawaits
  have hlater' := hlater.trans (hsteps.evolves hc₂)
  -- Each entry began as its launch says, and nobody has cancelled its job since.
  have hall : List.Forall₂ (fun x e => ∃ r, c'.result? e = some r ∧ e.provider = x.1 ∧
      Yields c c₁ c' o x.2 x.1 r) xs es := by
    refine (forall₂_mem hbegins).imp fun x e h => ?_
    obtain ⟨-, he, hb⟩ := h
    have hjob : ∀ job, e.job? = some job → job ∈ Batch.jobs ⟨o.name, es⟩ := fun job hjob =>
      List.mem_filterMap.mpr ⟨e, he, hjob⟩
    refine hb.yields (hevolves.trans (hlater'.mono nofun)) (fun terms request job hj ha => ?_)
      fun job hj => hclosed job (hjob job hj)
    exact hlater'.awaits (hjob job hj) ha
  -- So every entry has a result, and none is lost.
  exact ⟨t, c', _, hnow, hsteps, hwait, entries_outcomes o.name hxs hall⟩

/-- An operation that is started on some targets comes to an end. -/
theorem start_yields {batch : Batch} {external : String} (targets : Targets) (hc : c.Sound)
    (started : c.start o external targets = (c₁, batch))
    (between : Steps (· ∈ batch.jobs) c₁ c₂) :
    ∃ t c' out, c₂.now ≤ t ∧ Steps (· ∈ batch.jobs) c₂ c' ∧
      (∀ limit, t ≤ limit → c₂.wait limit batch = (c', some out)) ∧
      out.providers = (targets.listed c.ids).eraseDups ∧
      ∀ e ∈ out.entries, Yields c c₁ c' o (Provider.localId external) e.1 e.2 := by
  obtain ⟨xs, hkeys, hxs, hlocal, hlaunched, hbatch⟩ := launches_of_start hc started
  rw [hbatch] at between
  obtain ⟨t, c', out, hnow, hsteps, hwait, hout⟩ := launchAll_yields hxs hc hlaunched between
  rw [← hbatch] at hsteps hwait
  refine ⟨t, c', out, hnow, hsteps, hwait, ?_, fun e he => ?_⟩
  · rw [← hkeys]
    exact map_eq_of_forall₂ hout
  · obtain ⟨x, hx, hp, hyields⟩ := exists_of_mem_right hout he
    rw [hp, ← hlocal x hx]
    exact hyields

/-- An operation that is run on some targets comes to an end, whatever else happens in the meantime,
    and yields one entry for each of them, in the order in which they are first listed.
    Capabilities and deadlines are those that the blueprint gives the providers. -/
theorem execute_yields {b : Blueprint} {batch : Batch} (hc : c.Reachable b) (o : Operation)
    (external : String) (targets : Targets)
    (started : c.start o external targets = (c₁, batch))
    (meanwhile : Steps (· ∈ batch.jobs) c₁ c₂) :
    (∀ limit, c.execute limit o external targets = c₁.wait limit batch) ∧
      (c.ids = b.providers.map Provider.id ∧ ∀ p s, c.station? p = some s →
        ∃ q ∈ b.providers, q.id = p ∧ Follows b q s) ∧
      ∃ t c' out, (∀ limit, t ≤ limit → c₂.wait limit batch = (c', some out)) ∧
        out.providers = (targets.listed c.ids).eraseDups ∧
        ∀ e ∈ out.entries, Yields c c₁ c' o (Provider.localId external) e.1 e.2 := by
  refine ⟨fun limit => ?_, ⟨hc.ids, fun p s hs => hc.station? hs⟩, ?_⟩
  · unfold execute
    rw [started]
  · obtain ⟨t, c', out, -, -, hwait, hproviders, hyields⟩ :=
      start_yields targets hc.sound started meanwhile
    exact ⟨t, c', out, hwait, hproviders, hyields⟩

/-- Of two targets, the deadline of the first comes before its answer, and the other is unknown. -/
theorem execute_yields_overdue :
    let slow : Provider := .custom
      { id := ⟨"slow"⟩, respond := fun _ _ => { delay := 20, ending := .returned (.ok .notFound) } }
    let b : Blueprint := { providers := [slow], defaultDeadline := some 10 }
    let c : Coordinator := { stations := [b.station slow], engine := b.mergeEngine }
    c.Reachable b ∧ ∃ t c' out,
      (∀ limit, t ≤ limit →
        c.execute limit .readAll "jdoe" (.only [⟨"slow"⟩, ⟨"gone"⟩, ⟨"slow"⟩]) = (c', some out)) ∧
      out.entries = [(⟨"slow"⟩, .error (.timeout "read on slow" (.ofMillis 10))),
        (⟨"gone"⟩, .error (.unknownProvider ⟨"gone"⟩))] := by
  intro slow b c
  have hc : c.Reachable b := by
    refine ⟨fun p hp => ?_, c, rfl, .refl⟩
    obtain rfl := List.mem_singleton.mp hp
    exact ⟨rfl, rfl⟩
  let targets : Targets := .only [⟨"slow"⟩, ⟨"gone"⟩, ⟨"slow"⟩]
  let started := c.start .readAll "jdoe" targets
  have hstarted : c.start .readAll "jdoe" targets = (started.1, started.2) := rfl
  obtain ⟨hexecute, -, t, c', out, hwait, hproviders, hyields⟩ :=
    execute_yields hc .readAll "jdoe" targets hstarted .refl
  refine ⟨hc, t, c', out, fun limit hl => (hexecute limit).trans (hwait limit hl), ?_⟩
  -- There are two distinct targets, so the outcomes have two entries.
  have hids : out.entries.map Prod.fst = [⟨"slow"⟩, ⟨"gone"⟩] := hproviders
  obtain ⟨⟨p, r⟩, es, hout, rfl, hes⟩ := List.map_eq_cons_iff.mp hids
  obtain ⟨⟨q, x⟩, es', rfl, rfl, hnil⟩ := List.map_eq_cons_iff.mp hes
  obtain rfl := List.map_eq_nil_iff.mp hnil
  rw [hout] at hyields ⊢
  have hslow : r = .error (.timeout "read on slow" (.ofMillis 10)) := by
    have hyields : Yields c started.1 c' .readAll (Provider.localId "jdoe") ⟨"slow"⟩ r :=
      hyields _ List.mem_cons_self
    cases hyields with
    | unknown unregistered => exact absurd List.mem_cons_self unregistered
    | unsupported s station unable =>
      obtain rfl := Option.some.inj station
      exact nomatch unable
    | unnamed s f station able nameless =>
      obtain rfl := Option.some.inj station
      exact nomatch nameless
    | called s s' id _ station _ _ _ _ _ told =>
      obtain rfl := Option.some.inj station
      obtain ⟨n, hr⟩ := told _ rfl
      exact hr
  have hgone : x = .error (.unknownProvider ⟨"gone"⟩) := by
    have hyields : Yields c started.1 c' .readAll (Provider.localId "jdoe") ⟨"gone"⟩ x :=
      hyields _ (List.mem_cons_of_mem _ List.mem_cons_self)
    cases hyields with
    | unknown => rfl
    | unsupported s station | unnamed s f station | called s s' id _ station =>
      exact nomatch station
  rw [hslow, hgone]

end Federation.Coordinator
