import Federation.Coordinator.Fetch
import Federation.Proofs.Action.Alike
import Federation.Proofs.Directory.Secret

/-!
# Coordinators and passwords

A coordinator calls its providers, and all that it goes by is what they answer and when.  So two
coordinators whose directories differ only in passwords do the same, and they tell the same.

## Key results

- `Station.Alike`, `Coordinator.Alike`: what is the same but for the two passwords
- `Station.mirrors`: stations go on alike in time
- `Agree`: coordinators that are alike afterwards, and the same that was returned
- `Alike.start`, `Alike.wait`, `Alike.cancelEach`, `Alike.fetch`: fan-outs are made, waited for and
  cancelled alike, and users are fetched alike
-/

namespace Federation

open Timed (Mirrors)

variable {a b : String}

/-! ## Stations -/

/-- Two stations differ only in the passwords that their actions are given, and in those that their
    directories store. -/
structure Station.Alike (a b : String) (s t : Station) : Prop where
  rest : t = { s with roster := t.roster }
  roster : Roster.Alike (Operation.Alike a b) (Provider.Alike a b) s.roster t.roster

namespace Station

variable {s t : Station}

/-- Stations that are alike differ in their rosters only. -/
theorem Alike.exists_eq (h : Alike a b s t) :
    ∃ r, t = { s with roster := r } ∧
      Roster.Alike (Operation.Alike a b) (Provider.Alike a b) s.roster r :=
  ⟨t.roster, h.rest, h.roster⟩

/-- The providers of stations that are alike are alike. -/
theorem Alike.provider (h : Alike a b s t) : Provider.Alike a b s.provider t.provider :=
  h.roster.host

/-- Stations that are alike belong to one provider. -/
theorem Alike.id (h : Alike a b s t) : t.id = s.id := h.provider.shown.1

/-- Stations that are alike have the same capabilities. -/
theorem Alike.capabilities (h : Alike a b s t) : t.capabilities = s.capabilities := by
  obtain ⟨r, rfl, -⟩ := h.exists_eq
  rfl

/-- Stations that are alike tell the same events. -/
theorem Alike.events (h : Alike a b s t) : t.events = s.events := by
  unfold Station.events
  rw [h.roster.log]

/-- Stations stay alike when their events are collected. -/
theorem Alike.collected (h : Alike a b s t) : Alike a b s.collected t.collected := by
  obtain ⟨r, rfl, hr⟩ := h.exists_eq
  exact ⟨rfl, hr.host, hr.jobs, rfl⟩

/-- The actions of stations that are alike are alike. -/
theorem Alike.action? (h : Alike a b s t) (job : Nat) :
    Option.Rel (Action.Alike (Operation.Alike a b)) (s.action? job) (t.action? job) := by
  have hjob := rel_getElem? h.roster.jobs job
  unfold Station.action? Roster.action?
  generalize s.roster.jobs[job]? = j, t.roster.jobs[job]? = k at hjob
  cases hjob with
  | none => exact .none
  | some hjk => exact .some hjk.action

/-- What an action has published does not depend on the password that it is given. -/
theorem Alike.published (h : Alike a b s t) (job : Nat) :
    (t.action? job).bind Action.published = (s.action? job).bind Action.published := by
  have haction := h.action? job
  generalize s.action? job = x, t.action? job = y at haction
  cases haction with
  | none => rfl
  | some h =>
    obtain ⟨l, rfl, -⟩ := h.exists_eq
    rfl

/-- The same actions have published their outcomes at stations that are alike. -/
theorem Alike.hasPublished (h : Alike a b s t) (job : Nat) :
    t.roster.hasPublished job = s.roster.hasPublished job := by
  have hpublished (r : Roster Unit Operation Output Provider) :
      r.hasPublished job = ((r.action? job).bind Action.published).isSome := by
    unfold Roster.hasPublished
    cases r.action? job <;> rfl
  rw [hpublished, hpublished]
  exact congrArg Option.isSome (h.published job)

/-- The same number is given to an action launched at stations that are alike. -/
theorem Alike.launch (h : Alike a b s t) {o o' : Operation} (ho : Operation.Alike a b o o')
    (now : Nat) (localId : String) :
    Alike a b (s.launch now o localId).1 (t.launch now o' localId).1 ∧
      (t.launch now o' localId).2 = (s.launch now o localId).2 := by
  have hid := h.id
  obtain ⟨r, rfl, hr⟩ := h.exists_eq
  -- The label names the kind of operation and not its password, so the new actions are alike.
  have haction : actionFor { s with roster := r } o' localId = s.actionFor o localId := by
    unfold actionFor
    rw [hid, ho.shown.1]
  refine ⟨⟨rfl, ?_⟩, hr.jobs.length_eq.symm⟩
  unfold Station.launch
  dsimp only
  rw [haction]
  exact hr.launch (Provider.mirrors a b) rfl rfl ho (x := ⟨o, localId⟩) (y := ⟨o', localId⟩)
    ⟨ho, rfl⟩ now

/-- The same job is cancelled at stations that are alike, with the same result. -/
theorem Alike.cancel (h : Alike a b s t) (now job : Nat) :
    Alike a b (s.cancel now job).1 (t.cancel now job).1 ∧
      (t.cancel now job).2 = (s.cancel now job).2 := by
  obtain ⟨r, rfl, hr⟩ := h.exists_eq
  obtain ⟨hroster, hmoved⟩ := hr.cancel now job
  exact ⟨⟨rfl, hroster⟩, hmoved⟩

/-- Stations stay alike when their directories are changed alike from outside. -/
theorem Alike.apply (h : Alike a b s t) (x : Directory.Server.Change) :
    Alike a b (s.mapDirectory (Directory.mapServer x.apply))
      (t.mapDirectory (Directory.mapServer x.apply)) := by
  obtain ⟨r, rfl, hr⟩ := h.exists_eq
  exact ⟨rfl, hr.host.apply x, hr.jobs, hr.log⟩

/-- Stations that are alike go on alike in time. -/
theorem mirrors (a b : String) : Mirrors (Alike a b) where
  settle now s t h := by
    obtain ⟨r, rfl, hr⟩ := h.exists_eq
    exact ⟨rfl, hr.settle (Provider.mirrors a b) now⟩
  next? h := (Roster.mirrors (Provider.mirrors a b) _).next? h.roster
  load h := (Roster.mirrors (Provider.mirrors a b) _).load h.roster

end Station

/-! ## Coordinators -/

namespace Coordinator

/-- Two coordinators differ only in the passwords at their stations. -/
structure Alike (a b : String) (c d : Coordinator) : Prop where
  rest : d = { c with stations := d.stations }
  stations : List.Forall₂ (Station.Alike a b) c.stations d.stations

variable {c d : Coordinator}

/-- Coordinators that are alike differ in their stations only. -/
theorem Alike.exists_eq (h : Alike a b c d) :
    ∃ ts, d = { c with stations := ts } ∧ List.Forall₂ (Station.Alike a b) c.stations ts :=
  ⟨d.stations, h.rest, h.stations⟩

/-- After something was done the coordinators are alike, and the same was returned. -/
structure Agree {α : Type} (a b : String) (x y : Coordinator × α) : Prop where
  alike : Alike a b x.1 y.1
  returned : y.2 = x.2

/-- Results that agree are one result, reached by coordinators that are alike. -/
theorem Agree.exists_eq {α : Type} {x y : Coordinator × α} (h : Agree a b x y) :
    ∃ c d r, x = (c, r) ∧ y = (d, r) ∧ Alike a b c d :=
  ⟨x.1, y.1, x.2, rfl, Prod.ext rfl h.returned, h.alike⟩

/-- What is computed from one result is the same for both. -/
theorem Agree.map {α β : Type} {x y : Coordinator × α} (h : Agree a b x y) (f : α → β) :
    Agree a b (x.1, f x.2) (y.1, f y.2) :=
  ⟨h.alike, congrArg f h.returned⟩

/-- Coordinators that are alike are at the same instant. -/
theorem Alike.now (h : Alike a b c d) : d.now = c.now := by
  obtain ⟨ts, rfl, -⟩ := h.exists_eq
  rfl

/-- Coordinators that are alike have told the same events. -/
theorem Alike.log (h : Alike a b c d) : d.log = c.log := by
  obtain ⟨ts, rfl, -⟩ := h.exists_eq
  rfl

/-- Coordinators that are alike know the same providers. -/
theorem Alike.ids (h : Alike a b c d) : d.ids = c.ids :=
  map_eq_of_forall₂ (h.stations.imp fun _ _ hs => ⟨hs.id, hs⟩)

/-- The stations of a provider are alike, or there is none in either coordinator. -/
theorem Alike.station? (h : Alike a b c d) (p : ProviderId) :
    Option.Rel (Station.Alike a b) (c.station? p) (d.station? p) :=
  rel_find? (fun hs => by rw [hs.id]) h.stations

/-- The same is done at every station. -/
theorem Alike.mapStations (h : Alike a b c d) {f g : Station → Station}
    (hfg : ∀ {s t}, Station.Alike a b s t → Station.Alike a b (f s) (g t)) :
    Alike a b { c with stations := c.stations.map f } { d with stations := d.stations.map g } := by
  obtain ⟨ts, rfl, hts⟩ := h.exists_eq
  exact ⟨rfl, List.rel_map (fun _ _ hs => hfg hs) hts⟩

/-- Coordinators that are alike stay so when they tell the same events. -/
theorem Alike.tell (h : Alike a b c d) (es : List Event) : Alike a b (c.tell es) (d.tell es) := by
  obtain ⟨ts, rfl, hts⟩ := h.exists_eq
  exact ⟨rfl, hts⟩

/-- The observer of the one coordinator and that of the other one are told the same. -/
theorem Alike.collect (h : Alike a b c d) : Alike a b c.collect d.collect := by
  have hcollected := h.mapStations (f := Station.collected) (g := Station.collected)
    fun hs => hs.collected
  have hevents : d.stations.flatMap Station.events = c.stations.flatMap Station.events := by
    rw [List.flatMap_def, List.flatMap_def,
      map_eq_of_forall₂ (h.stations.imp fun _ _ hs => ⟨hs.events, hs⟩)]
  unfold Coordinator.collect
  rw [hevents]
  exact hcollected.tell _

/-- Coordinators that are alike stay so when stations that are alike are put into them. -/
theorem Alike.put (h : Alike a b c d) (p : ProviderId) {s t : Station}
    (hst : Station.Alike a b s t) : Alike a b (c.putStation p s) (d.putStation p t) := by
  refine h.mapStations fun hx => ?_
  rw [hx.id]
  split
  · exact hst
  · exact hx

/-- Coordinators stay alike when a directory is changed alike from outside. -/
theorem Alike.apply (h : Alike a b c d) (p : ProviderId) (x : Directory.Server.Change) :
    Alike a b (c.mapStation p (Station.mapDirectory (Directory.mapServer x.apply)))
      (d.mapStation p (Station.mapDirectory (Directory.mapServer x.apply))) := by
  refine h.mapStations fun hs => ?_
  rw [hs.id]
  split
  · exact hs.apply x
  · exact hs

/-! ## Time -/

/-- Coordinators that are alike settle alike. -/
theorem Alike.settle (h : Alike a b c d) : Alike a b c.settle d.settle := by
  obtain ⟨ts, rfl, hts⟩ := h.exists_eq
  refine Alike.collect (c := { c with stations := _ }) ⟨rfl, ?_⟩
  exact List.rel_map (fun _ _ hs => (Station.mirrors a b).settle c.now hs) hts

/-- Coordinators stay alike in the course of time. -/
theorem Alike.advanceTo (h : Alike a b c d) (t : Nat) :
    Alike a b (c.advanceTo t) (d.advanceTo t) := by
  obtain ⟨ts, rfl, hts⟩ := h.exists_eq
  refine Alike.collect (c := { c with now := t, stations := _ }) ⟨rfl, ?_⟩
  exact List.rel_map (fun _ _ hs => (Station.mirrors a b).advanceTo t hs) hts

/-- Waiting stops at the same instant if it depends on what is alike only. -/
theorem Alike.await (h : Alike a b c d) {stop : Station → Bool}
    (hstop : ∀ {s t}, Station.Alike a b s t → stop t = stop s) (limit : Nat) :
    Agree a b (c.await stop limit) (d.await stop limit) := by
  unfold Coordinator.await
  dsimp only
  rw [h.settle.now, (Station.mirrors a b).meeting? hstop limit _ h.settle.stations]
  split
  · exact ⟨h.settle.advanceTo _, rfl⟩
  · exact ⟨h.settle.advanceTo limit, rfl⟩

/-! ## Fan-outs -/

/-- A launch goes alike if the two operations do. -/
theorem Alike.launch (h : Alike a b c d) {o o' : Operation} (ho : Operation.Alike a b o o')
    {localId : Provider → Except Fault String}
    (hlocal : ∀ {p q}, Provider.Alike a b p q → localId q = localId p) (target : ProviderId) :
    Agree a b (c.launch o localId target) (d.launch o' localId target) := by
  have hstation := h.station? target
  unfold Coordinator.launch
  generalize c.station? target = x, d.station? target = y at hstation
  cases hstation with
  | none => exact ⟨h, rfl⟩
  | @some s t hst =>
    -- Whether the target is called does not depend on the password, nor does why it is not called.
    dsimp only
    rw [hst.capabilities, ho.supports, hlocal hst.provider, ho.shown.1, h.now]
    split
    · exact ⟨h, rfl⟩
    · cases localId s.provider with
      | error f => exact ⟨h, rfl⟩
      | ok id =>
        obtain ⟨hlaunch, hjob⟩ := hst.launch ho c.now id
        exact ⟨(h.put target hlaunch).collect, congrArg (Batch.Entry.launched target) hjob⟩

/-- Launches on several targets go alike if the two operations do. -/
theorem Alike.launchAll (h : Alike a b c d) {o o' : Operation} (ho : Operation.Alike a b o o')
    (xs : List (ProviderId × (Provider → Except Fault String)))
    (hxs : ∀ x ∈ xs, ∀ {p q}, Provider.Alike a b p q → x.2 q = x.2 p) :
    Agree a b (launchAll o xs c) (launchAll o' xs d) := by
  induction xs generalizing c d with
  | nil => exact ⟨h, rfl⟩
  | cons x xs ih =>
    obtain ⟨hx, hentry⟩ := h.launch ho (hxs x List.mem_cons_self) x.1
    obtain ⟨hrest, hentries⟩ := ih hx fun y hy => hxs y (List.mem_cons_of_mem x hy)
    exact ⟨hrest, congrArg₂ List.cons hentry hentries⟩

/-- A fan-out starts alike if the two operations go alike. -/
theorem Alike.start (h : Alike a b c d) {o o' : Operation} (ho : Operation.Alike a b o o')
    (external : String) (targets : Targets) :
    Agree a b (c.start o external targets) (d.start o' external targets) := by
  unfold Coordinator.start
  rw [h.ids, ho.shown.1]
  refine (h.launchAll ho _ fun x hx => ?_).map (Batch.mk o.name)
  obtain ⟨p, -, rfl⟩ := List.mem_map.mp hx
  exact fun hp => hp.shown.2.1 external

/-- The outcomes of a fan-out are the same in coordinators that are alike. -/
theorem Alike.outcomes (h : Alike a b c d) (x : Batch) : d.outcomes x = c.outcomes x := by
  have hresult (e : Batch.Entry) : d.result? e = c.result? e := by
    cases e with
    | resolved p f => rfl
    | launched p job =>
      have hstation := h.station? p
      unfold result? Coordinator.action?
      dsimp only
      generalize c.station? p = s, d.station? p = t at hstation
      -- The station is there in both coordinators or in neither.
      cases hstation with
      | none => rfl
      | some hst => exact congrArg (Option.map Outcome.toExcept) (hst.published job)
  unfold Coordinator.outcomes
  simp only [hresult]

/-- Waiting for a fan-out goes alike. -/
theorem Alike.wait (h : Alike a b c d) (limit : Nat) (x : Batch) :
    Agree a b (c.wait limit x) (d.wait limit x) := by
  -- Whether a fan-out is done is seen from outcomes alone.
  have hdone {s t : Station} (hst : Station.Alike a b s t) : x.isDoneAt t = x.isDoneAt s := by
    unfold Batch.isDoneAt
    simp only [hst.id, hst.hasPublished]
  obtain ⟨c', d', met, hc, hd, h'⟩ := (h.await hdone limit).exists_eq
  unfold Coordinator.wait
  rw [hc, hd]
  cases met with
  | false => exact ⟨h', rfl⟩
  | true =>
    dsimp only
    rw [h'.outcomes x]
    exact ⟨h'.tell _, rfl⟩

/-- A whole fan-out goes alike if the two operations do. -/
theorem Alike.execute (h : Alike a b c d) {o o' : Operation} (ho : Operation.Alike a b o o')
    (limit : Nat) (external : String) (targets : Targets) :
    Agree a b (c.execute limit o external targets) (d.execute limit o' external targets) := by
  obtain ⟨c', d', x, hc, hd, h'⟩ := (h.start ho external targets).exists_eq
  unfold Coordinator.execute
  rw [hc, hd]
  exact h'.wait limit x

/-- A cancellation goes alike. -/
theorem Alike.cancelOne (h : Alike a b c d) (job : ProviderId × Nat) :
    Agree a b (c.cancelOne job) (d.cancelOne job) := by
  have hstation := h.station? job.1
  unfold Coordinator.cancelOne
  generalize c.station? job.1 = x, d.station? job.1 = y at hstation
  -- There is no such station in either coordinator, or the two stations cancel alike.
  cases hstation with
  | none => exact ⟨h, rfl⟩
  | some hst =>
    obtain ⟨hcancel, hmoved⟩ := hst.cancel c.now job.2
    dsimp only
    rw [h.now]
    exact ⟨(h.put job.1 hcancel).collect, hmoved⟩

/-- Actions are cancelled alike, in whatever order they are visited. -/
theorem Alike.cancelEach (h : Alike a b c d) (jobs : List (ProviderId × Nat)) :
    Agree a b (c.cancelEach jobs) (d.cancelEach jobs) := by
  have hnone : Agree a b (c, 0) (d, 0) := ⟨h, rfl⟩
  refine List.rel_foldl (P := Agree a b) (R := Eq) (fun y z hyz job job' hjob => ?_) hnone
    (List.forall₂_refl jobs)
  obtain rfl := hjob
  obtain ⟨c', d', n, rfl, rfl, h'⟩ := hyz.exists_eq
  exact (h'.cancelOne job).map fun moved => if moved then n + 1 else n

/-! ## Users -/

/-- The same rules of inference apply in coordinators that are alike. -/
theorem Alike.infer? (h : Alike a b c d) : d.infer? = c.infer? := by
  funext p
  have hstation := h.station? p
  unfold Coordinator.infer?
  generalize c.station? p = x, d.station? p = y at hstation
  cases hstation with
  | none => rfl
  | some hst => exact congrArg some (funext hst.provider.shown.2.2)

/-- The attempts of a round go alike, since they bring no password. -/
theorem Alike.retry (h : Alike a b c d) (limit : Nat) (attempts : List (ProviderId × String)) :
    Agree a b (retry limit attempts c) (retry limit attempts d) := by
  let xs : List (ProviderId × (Provider → Except Fault String)) :=
    attempts.map fun x => (x.1, fun _ => .ok x.2)
  -- The identifiers of a round are given, so no provider has to find one.
  have hxs : ∀ x ∈ xs, ∀ {p q}, Provider.Alike a b p q → x.2 q = x.2 p := by
    intro x hx
    obtain ⟨y, -, rfl⟩ := List.mem_map.mp hx
    exact fun _ => rfl
  obtain ⟨c', d', es, hc, hd, h'⟩ := (h.launchAll (.same .readAll) xs hxs).exists_eq
  have hretry (e : Coordinator) : e.retry limit attempts =
      let r := Coordinator.launchAll .readAll xs e
      r.1.wait limit ⟨Operation.readAll.name, r.2⟩ := rfl
  rw [hretry, hretry, hc, hd]
  exact h'.wait limit _

/-- Attempts that go alike in every round go alike altogether. -/
private theorem Alike.repeatedly (infer? : ProviderId → Option (Record → Except Fault String))
    (limit : Nat) (rounds : Nat) (rs : Inference.Results) (m : Inference.Memory)
    (h : Alike a b c d) :
    Agree a b (Inference.repeatedly infer? (Coordinator.retry limit) rounds rs m c)
      (Inference.repeatedly infer? (Coordinator.retry limit) rounds rs m d) := by
  induction rounds generalizing rs m c d with
  | zero => exact ⟨h, rfl⟩
  | succ rounds ih =>
    unfold Inference.repeatedly
    cases Inference.plan infer? (Inference.sources rs) rs m with
    | mk m attempts =>
      cases attempts with
      | nil => exact ⟨h, rfl⟩
      | cons attempt attempts =>
        obtain ⟨c', d', out, hc, hd, h'⟩ := (h.retry limit (attempt :: attempts)).exists_eq
        -- What is planned depends on what is known only, and that is the same.
        dsimp only
        rw [hc, hd]
        cases out with
        | none => exact ⟨h', rfl⟩
        | some o => exact ih (Inference.absorbAll o.entries rs) m h'

/-- Merging goes alike. -/
theorem Alike.merge (h : Alike a b c d) (rs : Inference.Results) :
    Agree a b (c.merge rs) (d.merge rs) := by
  obtain ⟨ts, rfl, hts⟩ := h.exists_eq
  exact ⟨⟨rfl, hts⟩, rfl⟩

/-- Fetching goes alike, with all its attempts. -/
theorem Alike.fetch (h : Alike a b c d) (limit : Nat) (external : String) (targets : Targets) :
    Agree a b (c.fetch limit external targets) (d.fetch limit external targets) := by
  obtain ⟨c₁, d₁, out, hc₁, hd₁, h₁⟩ := (h.execute (.same .readAll) limit external targets).exists_eq
  unfold Coordinator.fetch
  rw [hc₁, hd₁]
  -- The first round has ended in both coordinators or in neither.
  cases out with
  | none => exact ⟨h₁, rfl⟩
  | some first =>
    obtain ⟨c₂, d₂, rs, hc₂, hd₂, h₂⟩ := (Alike.repeatedly c₁.infer? limit
      (Inference.maxRounds first.size) first.entries {} h₁).exists_eq
    dsimp only
    rw [h₁.infer?, hc₂, hd₂]
    cases rs with
    | none => exact ⟨h₂, rfl⟩
    | some rs => exact (h₂.merge rs).map some

end Coordinator

end Federation
