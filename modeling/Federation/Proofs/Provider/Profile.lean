import Federation.Proofs.Provider.Lawful

/-!
# What calls do not change

The calls of a provider change the state in which they work.  They change neither its name nor its
capabilities, nor how it finds its local identifiers, nor how a custom provider responds.

## Key results

- `Provider.profile_settle`: the work of calls leaves the profile of a provider alone
- `Provider.spec_of_isFresh`: a provider that was not called yet is sound
- `Provider.spec_mapServer`: what is done to the server of a directory leaves its calls alone
-/

namespace Federation

/-- Whether no call has been made. -/
structure Pool.IsFresh {σ α : Type} (p : Pool σ α) : Prop where
  calls : p.calls = []
  ended : p.ended = []

/-- Whether no call has been made. -/
structure Domain.IsFresh {η σ α : Type} (d : Domain η σ α) : Prop where
  lease : d.lease = none
  queue : d.queue = []
  ended : d.ended = []

/-- A pool that was not called yet is sound, no call to it is in progress, and none has ended. -/
theorem Pool.IsFresh.spec {σ α : Type} {p : Pool σ α} (h : p.IsFresh) :
    LawfulHost.IsSound p ∧ (∀ i, ¬LawfulHost.Live p i) ∧ ∀ i, Host.ended? p i = none := by
  -- A fresh pool has no calls at all, so every condition on them is empty.
  have hids : p.ids = [] := by rw [Pool.ids, h.calls, List.map_nil]
  have hended : ∀ i, Host.ended? p i = none := fun i => by
    rw [Pool.ended?_eq, h.ended]
    rfl
  refine ⟨⟨⟨?_, fun i _ => hended i⟩, ?_⟩, fun i hi => ?_, hended⟩
  · rw [hids]
    exact List.nodup_nil
  · intro c hc
    rw [h.calls] at hc
    exact absurd hc List.not_mem_nil
  · have hmem : i ∈ p.ids := hi
    rw [hids] at hmem
    exact absurd hmem List.not_mem_nil

/-- A domain that was not called yet is sound, no call to it is in progress, and none has ended. -/
theorem Domain.IsFresh.spec {η σ α : Type} {d : Domain η σ α} (h : d.IsFresh) :
    LawfulHost.IsSound d ∧ (∀ i, ¬LawfulHost.Live d i) ∧ ∀ i, Host.ended? d i = none := by
  have hids : d.ids = [] := by
    rw [Domain.ids_of_no_lease h.lease, Domain.queued, h.queue]
    rfl
  have hended : ∀ i, Host.ended? d i = none := fun i => by
    rw [Domain.ended?_eq, h.ended]
    rfl
  -- Nobody waits and nobody has the handle, so there is nothing to show of anybody.
  refine ⟨⟨⟨?_, fun i _ => hended i⟩, ?_, ?_⟩, fun i hi => ?_, hended⟩
  · rw [hids]
    exact List.nodup_nil
  · intro x hx
    rw [h.queue] at hx
    exact absurd hx List.not_mem_nil
  · intro l hl
    rw [h.lease] at hl
    cases hl
  · have hmem : i ∈ d.ids := hi
    rw [hids] at hmem
    exact absurd hmem List.not_mem_nil

namespace Provider

/-- A provider without the state in which its calls work. -/
def profile : Provider → Provider
  | directory d => directory { d with access := .concurrent { shared := {} } }
  | custom c => custom { c with pool := { shared := [] } }

/-- The profile of a provider has its name. -/
theorem id_profile (p : Provider) : p.profile.id = p.id := by
  cases p <;> rfl

/-- How a provider finds a local identifier can be seen from its profile. -/
theorem localId_profile (external : String) (p : Provider) :
    p.profile.localId external = p.localId external := by
  cases p <;> rfl

/-- How a provider infers a local identifier can be seen from its profile. -/
theorem localIdFrom_profile (r : Record) (p : Provider) :
    p.profile.localIdFrom r = p.localIdFrom r := by
  cases p <;> rfl

/-- A provider keeps its profile when it settles. -/
theorem profile_settle (now : Nat) (p : Provider) : (Timed.settle now p).profile = p.profile := by
  cases p <;> rfl

/-- A provider keeps its profile when it is called. -/
theorem profile_submit (i : Nat) (r : Request) (p : Provider) :
    (Host.submit i r p).profile = p.profile := by
  cases p <;> rfl

/-- A provider keeps its profile when waits end. -/
theorem profile_ripen (now : Nat) (p : Provider) : (Host.ripen now p).profile = p.profile := by
  cases p <;> rfl

/-- A provider keeps its profile when a call is given up. -/
theorem profile_abort (i : Nat) (p : Provider) : (Host.abort i p).profile = p.profile := by
  cases p <;> rfl

/-- A provider keeps its profile when its server is changed. -/
theorem profile_mapServer (f : Directory.Server → Directory.Server) (p : Provider) :
    (p.mapDirectory (Directory.mapServer f)).profile = p.profile := by
  cases p <;> rfl

/-! ## New providers -/

/-- Whether no call has been made to a provider. -/
def IsFresh : Provider → Prop
  | directory d =>
    match d.access with
    | .concurrent pool => pool.IsFresh
    | .serialized domain => domain.IsFresh
  | custom c => c.pool.IsFresh

/-- A provider that was not called yet is sound, no call to it is in progress, and none has ended.
    -/
theorem spec_of_isFresh {p : Provider} (h : p.IsFresh) :
    LawfulHost.IsSound p ∧ (∀ i, ¬LawfulHost.Live p i) ∧ ∀ i, Host.ended? p i = none := by
  cases p with
  | custom c => exact Pool.IsFresh.spec h
  | directory d =>
    obtain ⟨id, capabilities, rule, supported, access⟩ := d
    cases access with
    | concurrent pool => exact Pool.IsFresh.spec h
    | serialized domain => exact Domain.IsFresh.spec h

/-! ## The servers of directories -/

/-- Calls are in progress whatever is done to the server behind them. -/
theorem spec_mapServer (f : Directory.Server → Directory.Server) (p : Provider) :
    (LawfulHost.IsSound p → LawfulHost.IsSound (p.mapDirectory (Directory.mapServer f))) ∧
      (∀ i, LawfulHost.Live (p.mapDirectory (Directory.mapServer f)) i ↔ LawfulHost.Live p i) ∧
      ∀ i, Host.ended? (p.mapDirectory (Directory.mapServer f)) i = Host.ended? p i := by
  cases p with
  | custom c => exact ⟨fun h => h, fun _ => Iff.rfl, fun _ => rfl⟩
  | directory d =>
    obtain ⟨id, capabilities, rule, supported, access⟩ := d
    cases access with
    -- What is known of calls does not speak of what they share.
    | concurrent pool =>
      have hsound : ∀ h : pool.IsSound, Pool.IsSound { pool with shared := f pool.shared } :=
        fun h => ⟨h.areOpen, h.isFinite⟩
      exact ⟨hsound, fun _ => Iff.rfl, fun _ => rfl⟩
    | serialized domain =>
      have hsound : ∀ h : domain.IsSound,
          Domain.IsSound { domain with shared := f domain.shared } :=
        fun h => ⟨h.areOpen, h.isFinite, h.due⟩
      exact ⟨hsound, fun _ => Iff.rfl, fun _ => rfl⟩

end Provider

end Federation
