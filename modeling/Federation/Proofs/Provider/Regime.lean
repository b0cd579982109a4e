import Federation.Proofs.Domain.Regime
import Federation.Proofs.Provider.Profile

/-!
# Providers under regimes

The calls into a directory share its server, and those into a custom provider the list of requests
that have come.  In either case a regime may say what holds of what they share, and it does not
matter how the calls are scheduled.

## Key results

- `Under.keeps`: a provider stays under regimes whatever becomes of its calls
- `Under.submit`: so it does when a call is made that its regime grants
- `Under.transfer`: a provider comes under other regimes before a call is made that only these grant
- `under_of_isFresh`: a provider that was not called yet is under any regime that holds
-/

namespace Federation

open LawfulHost (Live)

/-- A regime for each provider, be it a directory or a custom one. -/
structure Regimes where
  directory : ProviderId → Regime Unit Directory.Server Output
  custom : ProviderId → Regime Unit (List Request) Output

/-- The calls on the connections to a server obey a regime, and it holds. -/
def Directory.Access.Under (R : Regime Unit Server Output) : Access → Prop
  | concurrent pool => pool.Under R
  | serialized domain => domain.Under R

namespace Provider

variable {R R' : Regimes} {p : Provider} {i : Nat} {request : Request}

/-- The calls into a provider obey its regime, and it holds. -/
def Under (R : Regimes) : Provider → Prop
  | directory d => d.access.Under (R.directory d.id)
  | custom c => c.pool.Under (R.custom c.id)

/-- The regime of a provider grants a call to be made. -/
def Grants (R : Regimes) (i : Nat) (request : Request) : Provider → Prop
  | directory d => (R.directory d.id).may i (d.work request)
  | custom c => (R.custom c.id).may i (c.work request)

/-- A provider stays under its regimes whatever happens in it. -/
theorem Under.keeps (R : Regimes) : Host.Keeps (Under R) where
  -- Each host is a pool or a domain, which stay under their regimes.
  abort {p} i h := by
    cases p with
    | custom c => exact Pool.Under.abort h i
    | directory d =>
      obtain ⟨id, capabilities, rule, supported, access⟩ := d
      cases access with
      | concurrent pool => exact Pool.Under.abort h i
      | serialized domain => exact Domain.Under.abort h i
  ripen {p} now h := by
    cases p with
    | custom c => exact Pool.Under.ripen h now
    | directory d =>
      obtain ⟨id, capabilities, rule, supported, access⟩ := d
      cases access with
      | concurrent pool => exact Pool.Under.ripen h now
      | serialized domain => exact Domain.Under.ripen h now
  settle {p} now h := by
    cases p with
    | custom c => exact Pool.Under.settle h now
    | directory d =>
      obtain ⟨id, capabilities, rule, supported, access⟩ := d
      cases access with
      | concurrent pool => exact Pool.Under.settle h now
      | serialized domain => exact Domain.Under.settle h now

/-- A call is made that has a number of its own and that the regime grants. -/
theorem Under.submit (h : p.Under R) (hnew : ¬Live p i) (hended : Host.ended? p i = none)
    (hgrants : p.Grants R i request) : (Host.submit i request p).Under R := by
  cases p with
  | custom c => exact Pool.Under.submit h (fun _ => rfl) hnew hended hgrants
  | directory d =>
    obtain ⟨id, capabilities, rule, supported, access⟩ := d
    cases access with
    | concurrent pool => exact Pool.Under.submit h (fun _ => rfl) hnew hended hgrants
    | serialized domain => exact Domain.Under.submit h (fun _ _ => rfl) hnew hended nofun hgrants

/-- Something is done to the server of a directory that its regime does not mind. -/
theorem Under.mapServer (h : p.Under R) {f : Directory.Server → Directory.Server}
    (hf : ∀ q s es, (R.directory q).holds s es → (R.directory q).holds (f s) es) :
    (p.mapDirectory (Directory.mapServer f)).Under R := by
  cases p with
  | custom c => exact h
  | directory d =>
    obtain ⟨id, capabilities, rule, supported, access⟩ := d
    cases access with
    | concurrent pool => exact Pool.Under.alter h (hf id _ _ (Pool.Under.holds h))
    | serialized domain => exact Domain.Under.alter h (hf id _ _ (Domain.Under.holds h))

/-- The calls in progress obey regimes that differ only in a call that is yet to be made. -/
theorem Under.transfer (h : p.Under R) {n : Nat} (hnew : ¬Live p n)
    (hended : Host.ended? p n = none)
    (hdirectory : ∀ d, p = directory d → (R.directory d.id).Extends n d.server (R'.directory d.id))
    (hcustom : ∀ c, p = custom c → (R.custom c.id).Extends n c.seen (R'.custom c.id)) :
    p.Under R' := by
  cases p with
  | custom c => exact Pool.Under.transfer h (hcustom c rfl) hnew hended
  | directory d =>
    have hdirectory := hdirectory d rfl
    obtain ⟨id, capabilities, rule, supported, access⟩ := d
    cases access with
    | concurrent pool => exact Pool.Under.transfer h hdirectory hnew hended
    | serialized domain => exact Domain.Under.transfer h hdirectory hnew hended

/-- A provider that was not called yet is under regimes that hold of what its calls will share. -/
theorem under_of_isFresh (h : p.IsFresh)
    (hdirectory : ∀ d, p = directory d → (R.directory d.id).holds d.server [])
    (hcustom : ∀ c, p = custom c → (R.custom c.id).holds c.seen []) : p.Under R := by
  obtain ⟨hsound, -, -⟩ := spec_of_isFresh h
  -- A pool without calls has nothing to show but what holds of the shared state.
  have hpool : ∀ {σ : Type} {S : Regime Unit σ Output} {pool : Pool σ Output}, pool.IsFresh →
      LawfulHost.IsSound pool → S.holds pool.shared [] → pool.Under S := by
    intro σ S pool hfresh hsound hholds
    refine ⟨hsound, hfresh.ended ▸ hholds, fun c hc => ?_⟩
    rw [hfresh.calls] at hc
    exact absurd hc List.not_mem_nil
  cases p with
  | custom c => exact hpool h hsound (hcustom c rfl)
  | directory d =>
    have hholds := hdirectory d rfl
    obtain ⟨id, capabilities, rule, supported, access⟩ := d
    cases access with
    | concurrent pool => exact hpool h hsound hholds
    | serialized domain =>
      have hfresh : domain.IsFresh := h
      refine ⟨hsound, hfresh.ended ▸ hholds, fun o ho => ?_, fun l hl => ?_⟩
      · rw [hfresh.queue] at ho
        exact absurd ho List.not_mem_nil
      · exact nomatch hfresh.lease.symm.trans hl

/-- What the regime of a directory says holds of its server and the calls that have ended. -/
theorem Under.holds_directory {d : Directory} (h : (directory d).Under R) :
    ∃ es, (R.directory d.id).holds d.server es ∧
      ∀ i, Host.ended? (directory d) i = ended? es i := by
  obtain ⟨id, capabilities, rule, supported, access⟩ := d
  cases access with
  | concurrent pool => exact ⟨pool.ended, Pool.Under.holds h, fun _ => rfl⟩
  | serialized domain => exact ⟨domain.ended, Domain.Under.holds h, fun _ => rfl⟩

/-- What the regime of a custom provider says holds of the requests to it and the calls that have
    ended. -/
theorem Under.holds_custom {c : Custom} (h : (custom c).Under R) :
    ∃ es, (R.custom c.id).holds c.seen es ∧ ∀ i, Host.ended? (custom c) i = ended? es i :=
  ⟨c.pool.ended, Pool.Under.holds h, fun _ => rfl⟩

end Provider

end Federation
