import Federation.Action.Roster
import Federation.Proofs.Call.Lawful
import Federation.Proofs.Timed
import Mathlib.Data.List.Nodup

/-!
# What settling does to a roster

However much happens at one instant, it is made of three kinds of steps: a runner closes its job, the
host changes, or runners begin to watch.  Each verdict is about a job that is in the roster as it was
when the verdict was found, for no job has two.

## Key results

- `mem_verdicts`: which verdicts there are
- `host_closeAll`, `getElem?_jobs_closeAll_of_mem`, `getElem?_jobs_closeAll_of_not_mem`: what several
  verdicts amount to
- `settle_phases`, `settle_induction`: what the steps preserve holds after the roster has settled
- `host_settle_at`, `host_settle`: so does what the host keeps
- `settle_rests`: when no runner has a verdict then
-/

namespace Federation.Roster

variable {τ π ρ κ ω : Type} [DecidableEq π] [Host κ ω ρ]

/-! ## Verdicts -/

omit [DecidableEq π] in
/-- The verdicts are those of the jobs. -/
theorem mem_verdicts {now i : Nat} {j : Job τ π ρ} {o : Outcome ρ} {r : Roster τ π ρ κ} :
    (i, j, o) ∈ r.verdicts now ↔
      r.jobs[i]? = some j ∧
        j.verdict? now ((Host.ended? r.host i).map Ended.ending) = some o := by
  simp only [verdicts, List.mem_filterMap, Prod.exists, List.mem_zipIdx_iff_getElem?,
    Option.map_eq_some_iff, Prod.mk.injEq]
  constructor
  · rintro ⟨j', i', hj, o', hv, rfl, rfl, rfl⟩
    exact ⟨hj, hv⟩
  · rintro ⟨hj, hv⟩
    exact ⟨j, i, hj, o, hv, rfl, rfl, rfl⟩

omit [DecidableEq π] in
/-- No job has two verdicts. -/
theorem nodup_verdicts (now : Nat) (r : Roster τ π ρ κ) :
    ((r.verdicts now).map Prod.fst).Nodup := by
  -- Every job has a place of its own, and gives at most one verdict.
  have hsub : ((r.verdicts now).map Prod.fst).Sublist (r.jobs.zipIdx.map Prod.snd) := by
    unfold verdicts
    generalize r.jobs.zipIdx = js
    induction js with
    | nil => exact List.nil_sublist _
    | cons x js ih =>
      obtain ⟨j, i⟩ := x
      cases hv : j.verdict? now ((Host.ended? r.host i).map Ended.ending) with
      | none =>
        rw [List.filterMap_cons_none (by simp [hv])]
        exact ih.trans (List.sublist_cons_self _ _)
      | some o =>
        rw [List.filterMap_cons_some (b := (i, j, o)) (by simp [hv])]
        exact ih.cons_cons i
  refine hsub.nodup ?_
  rw [List.zipIdx_map_snd]
  exact List.nodup_range'

/-! ## Several verdicts -/

/-- Closing jobs gives up their calls. -/
theorem host_closeAll (now : Nat) (vs : List (Nat × Job τ π ρ × Outcome ρ)) (r : Roster τ π ρ κ) :
    (r.closeAll now vs).host = (vs.map Prod.fst).foldl (fun k i => Host.abort i k) r.host := by
  induction vs generalizing r with
  | nil => rfl
  | cons v vs ih =>
    obtain ⟨i, j, o⟩ := v
    exact ih (r.close now i j o)

/-- Closing jobs removes none. -/
theorem length_jobs_closeAll (now : Nat) (vs : List (Nat × Job τ π ρ × Outcome ρ))
    (r : Roster τ π ρ κ) : (r.closeAll now vs).jobs.length = r.jobs.length := by
  induction vs generalizing r with
  | nil => rfl
  | cons v vs ih =>
    obtain ⟨i, j, o⟩ := v
    have h := ih (r.close now i j o)
    simpa [closeAll, Roster.close, record] using h

/-- A job without a verdict stays as it is. -/
theorem getElem?_jobs_closeAll_of_not_mem (now : Nat) {i : Nat}
    {vs : List (Nat × Job τ π ρ × Outcome ρ)} {r : Roster τ π ρ κ} (hi : i ∉ vs.map Prod.fst) :
    (r.closeAll now vs).jobs[i]? = r.jobs[i]? := by
  induction vs generalizing r with
  | nil => rfl
  | cons v vs ih =>
    obtain ⟨x, j, o⟩ := v
    rw [List.map_cons, List.mem_cons, not_or] at hi
    have h := ih (r := r.close now x j o) hi.2
    simp only [Roster.close, record, List.getElem?_set_ne (Ne.symm hi.1)] at h
    exact h

/-- A job with a verdict is completed and closed. -/
theorem getElem?_jobs_closeAll_of_mem (now : Nat) {i : Nat} {j : Job τ π ρ} {o : Outcome ρ}
    {vs : List (Nat × Job τ π ρ × Outcome ρ)} {r : Roster τ π ρ κ}
    (distinct : (vs.map Prod.fst).Nodup) (hv : (i, j, o) ∈ vs) (hi : i < r.jobs.length) :
    (r.closeAll now vs).jobs[i]? =
      some { action := (j.action.complete now o).1, runner := .closed } := by
  -- Induction on the verdicts: one of them is about this job, and the others are not.
  induction vs generalizing r with
  | nil => exact absurd hv List.not_mem_nil
  | cons v vs ih =>
    obtain ⟨x, k, p⟩ := v
    obtain ⟨hx, hrest⟩ := List.nodup_cons.mp distinct
    rcases List.mem_cons.mp hv with he | hv
    · cases he
      -- The other verdicts leave this job alone.
      have h := getElem?_jobs_closeAll_of_not_mem now (r := r.close now i j o) hx
      simp only [Roster.close, record, List.getElem?_set_self hi] at h
      exact h
    · exact ih hrest hv (by simpa [Roster.close, record] using hi)

/-! ## Induction -/

/-- What closing a job preserves holds after some jobs have been closed. -/
theorem closeAll_induction {P : Roster τ π ρ κ → Prop} {now : Nat}
    (close : ∀ r i j o, r.jobs[i]? = some j → P r → P (r.close now i j o))
    {r : Roster τ π ρ κ} (vs : List (Nat × Job τ π ρ × Outcome ρ))
    (current : ∀ v ∈ vs, r.jobs[v.1]? = some v.2.1) (distinct : (vs.map Prod.fst).Nodup)
    (h : P r) :
    P (r.closeAll now vs) := by
  induction vs generalizing r with
  | nil => exact h
  | cons v vs ih =>
    obtain ⟨i, j, o⟩ := v
    obtain ⟨hi, hrest⟩ := List.nodup_cons.mp distinct
    refine ih (r := r.close now i j o) ?_ hrest ?_
    · intro w hw
      -- The verdicts that are left are about other jobs, which have not changed.
      have hne : i ≠ w.1 := fun he => hi (List.mem_map.mpr ⟨w, hw, he.symm⟩)
      simp only [Roster.close, record, List.getElem?_set_ne hne]
      exact current w (List.mem_cons_of_mem _ hw)
    · exact close r i j o (current (i, j, o) List.mem_cons_self) h

/-- What the runners and the host do first at an instant, before anything is handed on. -/
def ripened (now : Nat) (r : Roster τ π ρ κ) : Roster τ π ρ κ :=
  let s := r.closeAll now (r.earlyVerdicts now)
  { s with host := Host.ripen now s.host }

/-- What the phases of an instant preserve that come after the runners have given their verdicts
    holds after the roster has settled, and so does what holds whenever the host has gone on. -/
theorem settle_of_closed {P Q : Roster τ π ρ κ → Prop} {now : Nat}
    (closing : ∀ r, P r → P (r.closeAll now (r.verdicts now)))
    (goOn : ∀ r, P r → P (r.goOn now) ∧ Q (r.goOn now)) {r : Roster τ π ρ κ}
    (h : P ((r.ripened now).closeAll now ((r.ripened now).verdicts now))) :
    P (r.settle now) ∧ Q (r.settle now) := by
  -- Every turn is made of the same two phases, so what they preserve holds after any number of turns.
  have exhaust : ∀ most r, P r ∧ Q r →
      P (Timed.exhaust (turn now) most r) ∧ Q (Timed.exhaust (turn now) most r) := by
    intro most
    induction most with
    | zero => exact fun _ hr => hr
    | succ most ih =>
      intro r hr
      unfold Timed.exhaust
      split
      · next r' ht =>
        refine ih _ ?_
        unfold turn at ht
        split at ht
        · exact nomatch ht
        · obtain rfl := Option.some.inj ht
          exact goOn _ (closing r hr.1)
      · exact hr
  exact exhaust _ _ (goOn _ h)

/-- What the phases of an instant preserve that come after the first holds after the roster has
    settled, and so does what holds whenever the host has gone on. -/
theorem settle_of_ripened {P Q : Roster τ π ρ κ → Prop} {now : Nat}
    (closing : ∀ r, P r → P (r.closeAll now (r.verdicts now)))
    (goOn : ∀ r, P r → P (r.goOn now) ∧ Q (r.goOn now)) {r : Roster τ π ρ κ}
    (h : P (r.ripened now)) : P (r.settle now) ∧ Q (r.settle now) :=
  settle_of_closed closing goOn (closing _ h)

/-- What the phases of an instant preserve holds after the roster has settled. -/
theorem settle_phases {P : Roster τ π ρ κ → Prop} {now : Nat}
    (closing : ∀ r vs, List.Sublist vs (r.verdicts now) → P r → P (r.closeAll now vs))
    (ripen : ∀ r, P r → P { r with host := Host.ripen now r.host })
    (goOn : ∀ r, P r → P (r.goOn now)) {r : Roster τ π ρ κ} (h : P r) :
    P (r.settle now) := by
  have early := closing r (r.earlyVerdicts now) List.filter_sublist h
  exact (settle_of_ripened (fun r hr => closing r _ (List.Sublist.refl _) hr)
    (fun r hr => ⟨goOn r hr, goOn r hr⟩) (ripen _ early)).1

/-- What the steps at an instant preserve holds after the roster has settled. -/
theorem settle_induction {P : Roster τ π ρ κ → Prop} {now : Nat}
    (close : ∀ r i j o, r.jobs[i]? = some j → P r → P (r.close now i j o))
    (ripen : ∀ r, P r → P { r with host := Host.ripen now r.host })
    (goOn : ∀ r, P r → P (r.goOn now)) {r : Roster τ π ρ κ} (h : P r) :
    P (r.settle now) := by
  refine settle_phases (fun r vs hvs hr => ?_) ripen goOn h
  refine closeAll_induction close vs (fun v hv => ?_) ?_ hr
  · exact (mem_verdicts.mp (hvs.subset hv)).1
  · exact (nodup_verdicts now r).sublist (hvs.map _)

/-- What the host keeps at an instant holds of it after the roster has settled then. -/
theorem host_settle_at {P : κ → Prop} {now : Nat} {r : Roster τ π ρ κ}
    (abort : ∀ k i, P k → P (Host.abort i k)) (ripen : ∀ k, P k → P (Host.ripen now k))
    (settle : ∀ k, P k → P (Timed.settle now k)) (hr : P r.host) : P (r.settle now).host :=
  settle_induction (P := fun r => P r.host) (fun r i _ _ _ hr => abort r.host i hr)
    (fun r hr => ripen r.host hr) (fun _ hr => settle _ hr) hr

/-- What the host keeps holds of it after the roster has settled. -/
theorem host_settle {P : κ → Prop} (h : Host.Keeps P) {now : Nat} {r : Roster τ π ρ κ}
    (hr : P r.host) : P (r.settle now).host :=
  host_settle_at (fun _ i => h.abort i) (fun _ => h.ripen now) (fun _ => h.settle now) hr

/-- If each turn lowers the number of open jobs, no runner has a verdict after the roster has
    settled, and what holds whenever the host has gone on holds then, too. -/
theorem settle_rests {P Q : Roster τ π ρ κ → Prop} {now : Nat}
    (closing : ∀ r, P r → P (r.closeAll now (r.verdicts now)))
    (goOn : ∀ r, P r → P (r.goOn now) ∧ Q (r.goOn now))
    (lower : ∀ r, P r → r.verdicts now ≠ [] →
      ((r.closeAll now (r.verdicts now)).goOn now).openCount < r.openCount)
    {r : Roster τ π ρ κ} (h : P (r.ripened now)) :
    P (r.settle now) ∧ Q (r.settle now) ∧ (r.settle now).verdicts now = [] := by
  have first := goOn _ (closing _ h)
  -- A turn is taken only if there is a verdict, and then it lowers the count.
  have turned : ∀ r r', P r ∧ Q r → r.turn now = some r' →
      (P r' ∧ Q r') ∧ r'.openCount < r.openCount := by
    rintro r r' ⟨hr, -⟩ ht
    unfold turn at ht
    split at ht
    · exact nomatch ht
    · next hne =>
      obtain rfl := Option.some.inj ht
      exact ⟨goOn _ (closing r hr), lower r hr hne⟩
  obtain ⟨⟨hP, hQ⟩, hlast⟩ := Timed.exhaust_spec openCount turned _ first (Nat.le_refl _)
  refine ⟨hP, hQ, ?_⟩
  -- No turn is left, so there is no verdict.
  unfold turn at hlast
  split at hlast
  · assumption
  · exact nomatch hlast

end Federation.Roster
