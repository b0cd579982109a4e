import Federation.Proofs.Action.Verdict
import Federation.Proofs.Call.Pledge

/-!
# What becomes of a job whose call ends as it should

If it is known how and when the call of a job ends, it is known what becomes of the job: the call
decides if it ends before the deadline, or at it, and the deadline if it comes first.

## Key results

- `Pledged.settle`, `Pledged.moves`: what is known of a call stays so as time goes on
- `Pledged.launch`: what is known of a call that is made now
-/

namespace Federation.Roster

open LawfulHost (IsSound Live Rests)

variable {τ π ρ κ ω : Type} [Host κ ω ρ] [LawfulHost κ]

/-- What is known of a job that was started on some terms, and whose call ends as `Q` says.  `holds`
    is what is known of the host. -/
structure Pledged (Q : Nat → Ending ρ → Prop) (holds : (begun : Prop) → κ → Prop) (c : Terms)
    (i : Nat) (r : Roster τ π ρ κ) : Prop where
  host : ∃ begun, holds begun r.host ∧
    ∀ j, r.jobs[i]? = some j → j.runner.isActive = true → begun
  prompt : ∀ j, r.jobs[i]? = some j → j.runner.isOpen = true → Host.ended? r.host i = none →
    j.runner.overtakes = false
  late : ∀ j d, r.jobs[i]? = some j → j.runner.isOpen = false → c.deadline = some d →
    Host.ended? r.host i = none → ∃ t e, c.start + d < t ∧ Q t e

variable {Q : Nat → Ending ρ → Prop} {before after : Prop → Nat → κ → Prop} {c : Terms}
  {i now : Nat} {r r' : Roster τ π ρ κ} {vs : List (Nat × Job τ π ρ × Outcome ρ)}

omit [LawfulHost κ] in
/-- What survives one call being given up survives several. -/
private theorem holds_foldl_abort {holds : κ → Prop} (h : ∀ x k, holds k → holds (Host.abort x k))
    (is : List Nat) {k : κ} (hk : holds k) :
    holds (is.foldl (fun k x => Host.abort x k) k) := by
  induction is generalizing k with
  | nil => exact hk
  | cons x is ih => exact ih (h x k hk)

/-! ## At an instant -/

variable [DecidableEq π]

/-- Runners close jobs, but not this one. -/
private theorem Pledged.others {holds : Prop → κ → Prop} (h : Pledged Q holds c i r)
    (habort : ∀ b x k, holds b k → holds b (Host.abort x k)) (hsound : IsSound r.host)
    (hi : i ∉ vs.map Prod.fst) : Pledged Q holds c i (r.closeAll now vs) := by
  obtain ⟨-, -, hended, -, -⟩ := LawfulHost.abortAll (vs.map Prod.fst) hsound
  simp only [← host_closeAll now vs r] at hended
  have hjob := getElem?_jobs_closeAll_of_not_mem now (r := r) hi
  -- The other calls are given up, which leaves this one and its job as they were.
  obtain ⟨b, hb, hactive⟩ := h.host
  refine ⟨⟨b, ?host, fun j hj => hactive j (hjob.symm.trans hj)⟩, ?prompt, ?late⟩
  case host =>
    rw [host_closeAll]
    exact holds_foldl_abort (habort b) _ hb
  case prompt =>
    intro j hj hopen he
    exact h.prompt j (hjob.symm.trans hj) hopen ((hended i).symm.trans he)
  case late =>
    intro j d hj hclosed hd he
    exact h.late j d (hjob.symm.trans hj) hclosed hd ((hended i).symm.trans he)

omit [DecidableEq π] in
/-- If a runner decides although the call has not ended, the deadline has come, and the call would
    have ended later. -/
private theorem Pledged.late_of_verdict {j : Job τ π ρ} {o : Outcome ρ} {d : Nat}
    (hp : Host.Pledge i Q before after) (h : Pledged Q (after · now) c i r) (hr : Mid now r)
    (ht : Tracked c i now r) (hv : (i, j, o) ∈ r.verdicts now) (hd : c.deadline = some d)
    (he : Host.ended? r.host i = none) : ∃ t e, c.start + d < t ∧ Q t e := by
  obtain ⟨hj, hverdict⟩ := mem_verdicts.mp hv
  have hactive := isActive_of_mem_verdicts hv
  have hopen := isOpen_of_isActive hactive
  have hlive : Live r.host i := by
    rcases hr.called i ⟨j, hj, hopen⟩ with hl | ⟨e, he', -⟩
    · exact hl
    · exact nomatch he.symm.trans he'
  obtain ⟨b, hb, hbegun⟩ := h.host
  have hafter : after True now r.host := eq_true (hbegun j hj hactive) ▸ hb
  obtain ⟨t, e, hlt, hQ⟩ := hp.late hr.sound hafter hlive
  refine ⟨t, e, ?_, hQ⟩
  cases ht with
  | answered k _ hk isOpen | overdue k _ hk isOpen =>
    obtain rfl := Option.some.inj (hj.symm.trans hk)
    exact nomatch isOpen.symm.trans hopen
  | running k hk isOpen due stage =>
    obtain rfl := Option.some.inj (hj.symm.trans hk)
    -- Only the deadline can have decided.
    have hrun : j.action.isRunning = true := (Action.isRunning_iff _).mpr stage
    have hdue : Timed.isDue j.runner.due? now = true ∧ Job.overdue j.action = o := by
      simpa [Job.verdict?, hactive, hrun, he] using hverdict
    obtain ⟨u, hu, hle⟩ := Timed.isDue_iff.mp hdue.1
    rw [due, hd, Option.map_some, Option.some.injEq] at hu
    omega

/-- Runners close jobs, and perhaps this one. -/
private theorem Pledged.closeAll (hp : Host.Pledge i Q before after)
    (h : Pledged Q (after · now) c i r) (hr : Mid now r) (ht : Tracked c i now r)
    (hvs : List.Sublist vs (r.verdicts now)) :
    Pledged Q (after · now) c i (r.closeAll now vs) := by
  by_cases hi : i ∈ vs.map Prod.fst
  · have hdistinct : (vs.map Prod.fst).Nodup := (nodup_verdicts now r).sublist (hvs.map _)
    obtain ⟨⟨x, j, o⟩, hv, rfl⟩ := List.mem_map.mp hi
    have hmem := hvs.subset hv
    have hj := (mem_verdicts.mp hmem).1
    have hjob := getElem?_jobs_closeAll_of_mem now hdistinct hv (List.getElem?_eq_some_iff.mp hj).1
    obtain ⟨-, -, hended, -, -⟩ := LawfulHost.abortAll (vs.map Prod.fst) hr.sound
    simp only [← host_closeAll now vs r] at hended
    obtain ⟨b, hb, -⟩ := h.host
    -- The job is closed now, so it neither watches its call nor waits for it.
    refine ⟨⟨b, ?host, ?begun⟩, ?prompt, ?late⟩
    case host =>
      rw [host_closeAll]
      exact holds_foldl_abort (fun x _ hk => hp.abort_after x hk) _ hb
    case begun =>
      intro k hk hactive
      obtain rfl := Option.some.inj (hjob.symm.trans hk)
      exact nomatch hactive
    case prompt =>
      intro k hk hopen _
      obtain rfl := Option.some.inj (hjob.symm.trans hk)
      exact nomatch hopen
    case late =>
      intro k d _ _ hd he
      exact h.late_of_verdict hp hr ht hmem hd ((hended x).symm.trans he)
  · exact h.others (fun b x k hk => hp.abort_after x hk) hr.sound hi

omit [DecidableEq π] in
/-- Jobs that are closed have calls that are not in progress. -/
private theorem not_live_of_closed (hr : Watched r) {j : Job τ π ρ} (hj : r.jobs[i]? = some j)
    (hclosed : j.runner.isOpen = false) : ¬Live r.host i := by
  intro hl
  obtain ⟨k, hk, hopen⟩ := hr.isOpen i hl
  obtain rfl := Option.some.inj (hj.symm.trans hk)
  exact Bool.false_ne_true (hclosed.symm.trans hopen)

omit [DecidableEq π] in
/-- The host goes on, and calls that have ended have ended. -/
private theorem Pledged.runs {holds holds' : Prop → κ → Prop} {k : κ} (h : Pledged Q holds c i r)
    (hr : Watched r) (hholds : ∀ b, holds b r.host → holds' b k)
    (hruns : Host.Runs Live now r.host k) : Pledged Q holds' c i { r with host := k } := by
  have hended : ¬Live r.host i → Host.ended? k i = Host.ended? r.host i := fun hl =>
    hruns.ended?_eq i (.inr hl)
  obtain ⟨b, hb, hactive⟩ := h.host
  refine ⟨⟨b, hholds b hb, hactive⟩, ?prompt, ?late⟩
  case prompt =>
    intro j hj hopen he
    by_cases hl : Live r.host i
    · exact h.prompt j hj hopen (LawfulHost.ended?_of_live hr.sound hl)
    · exact h.prompt j hj hopen ((hended hl).symm.trans he)
  case late =>
    intro j d hj hclosed hd he
    exact h.late j d hj hclosed hd ((hended (not_live_of_closed hr hj hclosed)).symm.trans he)

/-- A job stays pledged when its host ripens. -/
private theorem Pledged.ripened (hp : Host.Pledge i Q before after)
    (h : Pledged Q (before · now) c i r) (hr : Ready now r) :
    Pledged Q (after · now) c i (r.ripened now) := by
  -- The deadline does not overtake a call that is prompt.
  have hi : i ∉ (r.earlyVerdicts now).map Prod.fst := by
    intro hi
    obtain ⟨⟨x, j, o⟩, hv, rfl⟩ := List.mem_map.mp hi
    obtain ⟨hmem, hearly⟩ := List.mem_filter.mp hv
    have hopen := isOpen_of_isActive (isActive_of_mem_verdicts hmem)
    have hj := (mem_verdicts.mp hmem).1
    have hnone := LawfulHost.ended?_of_live hr.sound (hr.live x ⟨j, hj, hopen⟩)
    have hprompt := h.prompt j hj hopen hnone
    exact Bool.false_ne_true (hprompt.symm.trans hearly)
  have hsub : List.Sublist (r.earlyVerdicts now) (r.verdicts now) := List.filter_sublist
  obtain ⟨hmid, -⟩ := hr.mid.closeAll hsub
  have hothers : Pledged Q (before · now) c i (r.closeAll now (r.earlyVerdicts now)) :=
    h.others (fun b x k hk => hp.abort_before x hk) hr.sound hi
  exact hothers.runs hmid.toWatched (fun b hb => hp.ripen hmid.sound hb)
    (LawfulHost.ripen now hmid.sound).2.1

omit [DecidableEq π] in
/-- A job stays pledged when its host goes on, and then its work has begun. -/
private theorem Pledged.goOn (hp : Host.Pledge i Q before after)
    (h : Pledged Q (after · now) c i r) (hr : Mid now r) :
    Pledged Q (fun _ => after True now) c i (r.goOn now) := by
  obtain ⟨hsound, hruns, -⟩ := LawfulHost.settle now hr.sound
  have hwatched := (hr.runs hsound hruns).1
  have hgo : Pledged Q (fun _ => after True now) c i
      { r with host := Timed.settle now r.host } :=
    h.runs hr.toWatched (fun b hb => hp.settle hr.sound hb) hruns
  obtain ⟨b, hb, hactive⟩ := hgo.host
  rw [goOn_eq]
  -- A runner that becomes active changes neither whether the job is open nor its call.
  refine ⟨⟨True, hb, fun _ _ _ => trivial⟩, ?prompt, ?late⟩
  case prompt =>
    intro j' hj' hopen' he
    rw [getElem?_jobs_activated, Option.map_eq_some_iff] at hj'
    obtain ⟨j, hj, rfl⟩ := hj'
    rw [isOpen_activate] at hopen'
    have hprompt := hgo.prompt j hj hopen' he
    have hlive : Live (Timed.settle now r.host) i := by
      rcases hwatched.called i ⟨j, hj, hopen'⟩ with hl | ⟨e, he', -⟩
      · exact hl
      · exact nomatch he.symm.trans he'
    -- The runner begins to watch when the call has begun to wait, so it does not overtake it.
    show (j.runner.activate (Host.due? (Timed.settle now r.host) i).isSome).overtakes = false
    rw [hp.prompt hsound hb hlive]
    cases hrunner : j.runner with
    | fresh => rfl
    | active due isPrompt =>
      rw [hrunner] at hprompt
      exact hprompt
    | absent | closed => rfl
  case late =>
    intro j' d hj' hclosed hd he
    rw [getElem?_jobs_activated, Option.map_eq_some_iff] at hj'
    obtain ⟨j, hj, rfl⟩ := hj'
    rw [isOpen_activate] at hclosed
    exact hgo.late j d hj hclosed hd he

/-- What is known of a call when the roster has settled. -/
theorem Pledged.settle (hp : Host.Pledge i Q before after) (h : Pledged Q (before · now) c i r)
    (hr : Ready now r) (ht : Tracked c i now r) :
    Pledged Q (fun _ => after True now) c i (r.settle now) := by
  have hsub : List.Sublist (r.earlyVerdicts now) (r.verdicts now) := List.filter_sublist
  obtain ⟨hmid, -⟩ := hr.mid.closeAll hsub
  have hripened : Mid now (r.ripened now) ∧ Tracked c i now (r.ripened now) :=
    ⟨hmid.ripen.1, (ht.closeAll hr.mid hsub).runs hmid.toWatched
      (LawfulHost.ripen now hmid.sound).2.1⟩
  -- What is known is kept by every phase of settling, along with what these need.
  refine (settle_of_ripened
    (P := fun s => (Mid now s ∧ Tracked c i now s) ∧ Pledged Q (after · now) c i s)
    ?closing ?goOn ⟨hripened, h.ripened hp hr⟩).2
  case closing =>
    rintro s ⟨⟨hs, ht⟩, h⟩
    have hall := List.Sublist.refl (s.verdicts now)
    exact ⟨⟨(hs.closeAll hall).1, ht.closeAll hs hall⟩, h.closeAll hp hs ht hall⟩
  case goOn =>
    rintro s ⟨⟨hs, ht⟩, h⟩
    have hgo := h.goOn hp hs
    have hruns := (LawfulHost.settle now hs.sound).2.1
    refine ⟨⟨⟨hs.goOn.1, ?_⟩, ?_⟩, hgo⟩
    · rw [goOn_eq]
      exact (ht.runs hs.toWatched hruns).activate _
    · obtain ⟨b, hb, -⟩ := hgo.host
      exact ⟨⟨True, hb, fun _ _ _ => trivial⟩, hgo.prompt, hgo.late⟩

/-! ## As time goes on -/

omit [DecidableEq π] in
/-- What is known after an instant is known before what comes next in it. -/
theorem Pledged.stay (hp : Host.Pledge i Q before after)
    (h : Pledged Q (fun _ => after True now) c i r) : Pledged Q (before · now) c i r := by
  obtain ⟨b, hb, -⟩ := h.host
  exact ⟨⟨True, hp.stay hb, fun _ _ _ => trivial⟩, h.prompt, h.late⟩

omit [DecidableEq π] in
/-- What is known of a settled roster before an instant is known after it. -/
theorem Pledged.rest (hp : Host.Pledge i Q before after) (h : Pledged Q (before · now) c i r)
    (hr : Settled now r) : Pledged Q (fun _ => after True now) c i r := by
  obtain ⟨b, hb, -⟩ := h.host
  exact ⟨⟨True, hp.rest hr.rests hb, fun _ _ _ => trivial⟩, h.prompt, h.late⟩

/-- Time passes until something is due. -/
theorem Pledged.pass {t : Nat} (hp : Host.Pledge i Q before after)
    (h : Pledged Q (fun _ => after True now) c i r) (hr : Settled now r)
    (ht : ∀ u, Timed.next? r = some u → t ≤ u) : Pledged Q (before · t) c i r := by
  obtain ⟨b, hb, -⟩ := h.host
  refine ⟨⟨True, hp.pass hr.sound hb fun u hu => ?_, fun _ _ _ => trivial⟩, h.prompt, h.late⟩
  obtain ⟨v, hv, hvu⟩ := Timed.earlier_le
    (b := Timed.earliest (r.jobs.map fun j => j.runner.due?)) (.inl hu)
  exact Nat.le_trans (ht v hv) hvu

/-- A job stays pledged in the course of time. -/
theorem Pledged.moves {u : Nat} (hp : Host.Pledge i Q before after)
    (h : Pledged Q (fun _ => after True now) c i r) (hr : Settled now r)
    (ht : Tracked c i now r) (hm : Timed.Moves now r u r') :
    Pledged Q (fun _ => after True u) c i r' := by
  -- Induction on the moves, each of which passes to the next instant and settles there.
  induction hm with
  | refl => exact h
  | @step now t u r r' next _ ih =>
    obtain ⟨hlt, hsettled, -⟩ := steady.next hr next
    have hready := hr.ready_of_eq next
    have hpass : Pledged Q (before · t) c i r := h.pass hp hr fun v hv => by
      rw [next, Option.some.injEq] at hv
      omega
    have ht' := ht.mono (Nat.le_of_lt hlt)
    exact ih (hpass.settle hp hready ht') hsettled (ht'.settle hready)

/-! ## Calls of the user -/

omit [LawfulHost κ] [DecidableEq π] in
/-- What is known of a job is read off its runner and its call. -/
theorem Pledged.congr {holds holds' : Prop → κ → Prop} (h : Pledged Q holds c i r)
    (host : ∀ b, holds b r.host → holds' b r'.host)
    (job : ∀ j', r'.jobs[i]? = some j' → ∃ j, r.jobs[i]? = some j ∧ j'.runner = j.runner)
    (ended : Host.ended? r'.host i = Host.ended? r.host i) : Pledged Q holds' c i r' := by
  obtain ⟨b, hb, hactive⟩ := h.host
  -- Each part speaks of the job of the new roster, which has the runner of the old one.
  refine ⟨⟨b, host b hb, ?begun⟩, ?prompt, ?late⟩
  case begun =>
    intro j' hj' ha
    obtain ⟨j, hj, hrunner⟩ := job j' hj'
    exact hactive j hj (hrunner ▸ ha)
  case prompt =>
    intro j' hj' hopen he
    obtain ⟨j, hj, hrunner⟩ := job j' hj'
    rw [hrunner] at hopen ⊢
    exact h.prompt j hj hopen (ended.symm.trans he)
  case late =>
    intro j' d hj' hclosed hd he
    obtain ⟨j, hj, hrunner⟩ := job j' hj'
    rw [hrunner] at hclosed
    exact h.late j d hj hclosed hd (ended.symm.trans he)

omit [DecidableEq π] in
/-- What is known of a call when another one is made. -/
theorem Pledged.launch {a : Action τ π ρ} {request : ω} (hp : Host.Pledge i Q before after)
    (h : Pledged Q (before · now) c i r) (hr : Ready now r) (hi : i < r.jobs.length)
    (ha : a.stage = .idle) (hfinite : LawfulHost.IsFinite κ request) (p : π) :
    Pledged Q (before · now) c i ((r.add a).start now r.jobs.length p request).1 := by
  have hs := launch_eq now p request r ha
  rw [hs]
  obtain ⟨-, -, hended⟩ := hr.submit hfinite
  refine h.congr (fun b hb => hp.submit request (Nat.ne_of_gt hi) hb) (fun j' hj' => ?_)
    (hended i)
  refine ⟨j', ?_, rfl⟩
  rw [List.getElem?_append_left hi] at hj'
  exact hj'

omit [LawfulHost κ] in
/-- What is known of a call when another one is cancelled. -/
theorem Pledged.cancel {holds : Prop → κ → Prop} {x : Nat} (h : Pledged Q holds c i r)
    (hx : x ≠ i) : Pledged Q holds c i (r.cancel now x).1 := by
  refine h.congr (fun _ hb => ?_) (fun j' hj' => ?_) (by rw [host_cancel])
  · rw [host_cancel]
    exact hb
  · rw [getElem?_jobs_cancel, Option.map_eq_some_iff] at hj'
    obtain ⟨j, hj, rfl⟩ := hj'
    refine ⟨j, hj, ?_⟩
    rw [if_neg (Ne.symm hx)]

omit [LawfulHost κ] [DecidableEq π] in
/-- What is known of a call that is made now. -/
theorem pledged_launch {a : Action τ π ρ} {request : ω} {holds : Prop → κ → Prop}
    (h : holds False (Host.submit r.jobs.length request r.host)) (ha : a.stage = .idle)
    (c : Terms) (p : π) :
    Pledged Q holds c r.jobs.length ((r.add a).start now r.jobs.length p request).1 := by
  have hs := launch_eq now p request r ha
  rw [hs]
  have hjob : ∀ j : Job τ π ρ, (r.jobs ++
      [{ action := { a with stage := .running, latest := some p, startedAt := some now }
         runner := .fresh (a.deadline.map (now + ·)) }])[r.jobs.length]? = some j →
      j.runner = .fresh (a.deadline.map (now + ·)) := by
    intro j hj
    rw [List.getElem?_concat_length, Option.some.injEq] at hj
    rw [← hj]
  -- Nothing has begun yet, and the runner does not watch.
  refine ⟨⟨False, h, ?begun⟩, ?prompt, ?late⟩
  case begun =>
    intro j hj hactive
    rw [hjob j hj] at hactive
    exact nomatch hactive
  case prompt =>
    intro j hj _ _
    rw [hjob j hj]
    rfl
  case late =>
    intro j d hj hclosed _ _
    rw [hjob j hj] at hclosed
    exact nomatch hclosed

/-! ## Outcomes -/

omit [DecidableEq π] in
/-- How the call of a job has ended that is closed; if it has not, it would have done so after the
    deadline. -/
theorem Pledged.foretold (hp : Host.Pledge i Q before after)
    (h : Pledged Q (before · now) c i r) (ht : Tracked c i now r) (hi : ¬r.IsOpen i) :
    (∀ e, Host.ended? r.host i = some e → Q e.instant e.ending) ∧
      (Host.ended? r.host i = none → ∀ d, c.deadline = some d → ∃ t e, c.start + d < t ∧ Q t e) := by
  obtain ⟨b, hb, -⟩ := h.host
  refine ⟨fun e he => hp.ended hb he, fun he d hd => ?_⟩
  cases ht with
  | running j hj isOpen => exact absurd ⟨j, hj, isOpen⟩ hi
  | answered j e hj isOpen ended => exact nomatch he.symm.trans ended
  | overdue j d' hj isOpen => exact h.late j d hj isOpen hd he

end Federation.Roster
