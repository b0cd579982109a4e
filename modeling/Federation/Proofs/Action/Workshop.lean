import Federation.Action.Workshop
import Federation.Proofs.Action.Group
import Federation.Proofs.Action.Lasting
import Mathlib.Data.Finset.Card

/-!
# Workshops as lists of actions

However actions are put into a group, started, cancelled, finished and dropped from it, the group is
at any time the list of those that were put into it and have not been dropped.  Nothing that happens
to an action moves it, for its subject stays as it is.

## Key results

- `Bench.cancel_of_not_running`, `Bench.status_cancel`: only an action that runs can be cancelled
- `Keeps`: what happens to actions leaves the group alone
- `cancels_cancelAll`: each action that runs is cancelled and counted once
- `Lists.act`: what one move does to the list
- `workshop_spec`: the group against the list, after any moves
-/

namespace Federation

variable {τ φ : Type}

/-! ## Benches -/

namespace Bench

variable {b b' : Bench τ}

/-- The subject of the action. -/
def subject? (b : Bench τ) : Option Subject := b.action?.map Action.subject

/-- The subject of a bench is that of its roster. -/
theorem subject?_of_subjects (h : b'.roster.subjects = b.roster.subjects) :
    b'.subject? = b.subject? := by
  have hfirst : ∀ b : Bench τ, b.subject? = b.roster.subjects[0]? := by
    intro b
    rw [subject?, action?, Roster.action?, Roster.subjects, List.getElem?_map, Option.map_map]
    rfl
  rw [hfirst, hfirst, h]

/-- A start keeps the subject of a bench. -/
theorem subject?_start (now : Nat) (p : Int) (b : Bench τ) :
    (b.start now p).1.subject? = b.subject? :=
  subject?_of_subjects (Roster.subjects_start now 0 p _ b.roster)

/-- A cancellation keeps the subject of a bench. -/
theorem subject?_cancel (now : Nat) (b : Bench τ) : (b.cancel now).1.subject? = b.subject? :=
  subject?_of_subjects (Roster.subjects_cancel now 0 b.roster)

/-- A callback keeps the subject of a bench. -/
theorem subject?_observe (now : Nat) (c : Callback τ Int) (b : Bench τ) :
    (b.observe now c).subject? = b.subject? :=
  subject?_of_subjects (Roster.subjects_observe now 0 c b.roster)

/-- A release keeps the subject of a bench. -/
theorem subject?_release (now : Nat) (b : Bench τ) : (b.release now).subject? = b.subject? := rfl

/-- Collecting keeps the subject of a bench. -/
theorem subject?_collected (b : Bench τ) : b.collected.subject? = b.subject? := rfl

/-- Settling keeps the subject of a bench. -/
theorem subject?_settle (now : Nat) (b : Bench τ) :
    (Timed.settle now b).subject? = b.subject? :=
  subject?_of_subjects (Roster.subjects_settle now b.roster)

/-- A bench keeps its subject in the course of time. -/
theorem subject?_advanceTo (limit : Nat) (b : Bench τ) :
    (Timed.advanceTo limit b).subject? = b.subject? := by
  have hstep : ∀ t (b' : Bench τ), b'.subject? = b.subject? →
      (Timed.settle t b').subject? = b.subject? :=
    fun t b' h => (subject?_settle t b').trans h
  exact Timed.runFor_induction hstep (fun _ => false) limit (Timed.load b) 0 rfl

/-- A bench is running exactly if its action is. -/
theorem status_eq_running_iff :
    b.status = .running ↔ ∃ a, b.action? = some a ∧ a.stage = .running := by
  unfold status
  cases b.action? with
  | none => simp
  | some a => simp [← Action.isRunning_iff, Action.isRunning]

/-- Cancelling an action tells whether it ran. -/
theorem cancel_snd (now : Nat) (b : Bench τ) : (b.cancel now).2 = decide (b.status = .running) := by
  show (b.roster.cancel now 0).2 = _
  rw [Roster.cancel_snd, Bool.eq_iff_iff, decide_eq_true_iff, status_eq_running_iff,
    Option.any_eq_true]
  simp only [Action.isRunning_iff]
  rfl

/-- An action that does not run is left as it is when it is to be cancelled. -/
theorem cancel_of_not_running (now : Nat) (h : b.status ≠ .running) : b.cancel now = (b, false) := by
  have hstage : ∀ a, b.roster.action? 0 = some a → a.stage ≠ .running :=
    fun a ha hrun => h (status_eq_running_iff.mpr ⟨a, ha, hrun⟩)
  rw [cancel, Roster.cancel_of_not_running hstage]

/-- An action that runs is cancelled. -/
theorem status_cancel (now : Nat) (h : b.status = .running) :
    (b.cancel now).1.status = .cancelled := by
  obtain ⟨a, ha, hrun⟩ := status_eq_running_iff.mp h
  have haction : (b.cancel now).1.action? = some (a.complete now .cancelled).1 := by
    obtain ⟨j, hj, rfl⟩ := Option.map_eq_some_iff.mp ha
    show ((b.roster.cancel now 0).1.jobs[0]?).map Job.action = _
    rw [Roster.getElem?_jobs_cancel, hj]
    rfl
  rw [status, haction, (Action.complete_running now .cancelled hrun).1]
  rfl

end Bench

/-! ## What happens to actions -/

namespace Workshop

variable {w w' w'' : Workshop τ φ} {id : Nat}

/-- The subject of an action is found at its bench. -/
theorem subject?_eq (w : Workshop τ φ) (id : Nat) :
    w.subject? id = (w.bench? id).bind Bench.subject? := by
  rw [subject?, bench?]
  cases w.benches[id]? <;> rfl

/-- The status of an action is found at its bench. -/
theorem status_eq (w : Workshop τ φ) (id : Nat) :
    w.status id = ((w.bench? id).map Bench.status).getD .idle := rfl

/-- Something happens to actions: they keep their subjects, and the group stays as it is. -/
structure Keeps (w w' : Workshop τ φ) : Prop where
  group : w'.group = w.group
  subject? : ∀ id s, w.subject? id = some s → w'.subject? id = some s

/-- A workshop keeps what it has as long as nothing happens. -/
theorem Keeps.refl (w : Workshop τ φ) : Keeps w w := ⟨rfl, fun _ _ h => h⟩

/-- What is kept twice is kept. -/
theorem Keeps.trans (h : Keeps w w') (k : Keeps w' w'') : Keeps w w'' :=
  ⟨k.group.trans h.group, fun id s hs => k.subject? id s (h.subject? id s hs)⟩

/-- It does not matter what happens on which bench, if the subject stays. -/
theorem keeps_of_bench? (hgroup : w'.group = w.group)
    (h : ∀ id b, w.bench? id = some b →
      ∃ b', w'.bench? id = some b' ∧ b'.subject? = b.subject?) : Keeps w w' := by
  refine ⟨hgroup, fun id s hs => ?_⟩
  rw [subject?_eq] at hs ⊢
  obtain ⟨b, hb, hsubject⟩ := Option.bind_eq_some_iff.mp hs
  obtain ⟨b', hb', hsame⟩ := h id b hb
  rw [hb', Option.bind_some, hsame, hsubject]

/-- A new bench takes nothing away. -/
theorem keeps_place (t : Task) (a : Action τ Int Int) (w : Workshop τ φ) :
    Keeps w (w.place t a) := by
  refine keeps_of_bench? rfl fun id b hb => ⟨b, ?_, rfl⟩
  have hlt : id < w.benches.length := (List.getElem?_eq_some_iff.mp hb).1
  exact (List.getElem?_append_left hlt).trans hb

/-- Something is done at one bench only. -/
theorem bench?_mapBench (x : Nat) (f : Bench τ → Bench τ) (w : Workshop τ φ) (id : Nat) :
    (w.mapBench x f).bench? id = (w.bench? id).map fun b => if x = id then f b else b :=
  List.getElem?_modify ..

/-- What keeps the subject of a bench keeps what the workshop has. -/
theorem keeps_mapBench (x : Nat) {f : Bench τ → Bench τ} (hf : ∀ b, (f b).subject? = b.subject?)
    (w : Workshop τ φ) : Keeps w (w.mapBench x f) := by
  refine keeps_of_bench? rfl fun id b hb => ⟨if x = id then f b else b, ?_, ?_⟩
  · rw [bench?_mapBench, hb, Option.map_some]
  · split
    · exact hf b
    · rfl

/-- The same may happen on all benches at once, and meanwhile time may pass. -/
theorem keeps_map {f : Bench τ → Bench τ} (hf : ∀ b, (f b).subject? = b.subject?) (t : Nat)
    (w : Workshop τ φ) : Keeps w { w with now := t, benches := w.benches.map f } := by
  refine keeps_of_bench? rfl fun id b hb => ⟨f b, ?_, hf b⟩
  show (w.benches.map f)[id]? = _
  rw [List.getElem?_map]
  exact congrArg (Option.map f) hb

/-- A cancellation takes nothing away. -/
theorem keeps_cancel (x : Nat) (w : Workshop τ φ) : Keeps w (w.cancel x).1 :=
  keeps_mapBench x (Bench.subject?_cancel w.now) w

/-- Settling takes nothing away. -/
theorem keeps_settle (w : Workshop τ φ) : Keeps w w.settle :=
  keeps_map (Bench.subject?_settle w.now) w.now w

/-- Time takes nothing away. -/
theorem keeps_advanceTo (t : Nat) (w : Workshop τ φ) : Keeps w (w.advanceTo t) :=
  keeps_map (Bench.subject?_advanceTo t) t w

/-- Waiting takes nothing away. -/
theorem keeps_await (patience : Nat) (ids : List Nat) (w : Workshop τ φ) :
    Keeps w (w.await patience ids).1 :=
  (keeps_settle w).trans (keeps_advanceTo _ w.settle)

/-! ## Cancelling all of them -/

/-- A cancellation concerns one bench only. -/
theorem bench?_cancel (x : Nat) (w : Workshop τ φ) (id : Nat) :
    (w.cancel x).1.bench? id =
      (w.bench? id).map fun b => if x = id then (b.cancel w.now).1 else b :=
  bench?_mapBench ..

/-- Whoever does not run cannot be cancelled. -/
theorem cancel_of_not_running (h : w.status id ≠ .running) : w.cancel id = (w, false) := by
  have hbench : ∀ b, w.bench? id = some b → b.status ≠ .running := by
    rintro b hb hrun
    rw [status_eq, hb] at h
    exact h hrun
  -- Cancelling changes no bench, this one included.
  have hsame : (w.mapBench id fun b => (b.cancel w.now).1) = w := by
    have hbenches : w.benches.modify id (fun b => (b.cancel w.now).1) = w.benches := by
      refine List.ext_getElem? fun x => (bench?_mapBench id _ w x).trans ?_
      show _ = w.bench? x
      cases hx : w.bench? x with
      | none => rfl
      | some b =>
        by_cases hid : id = x
        · subst hid
          rw [Option.map_some, if_pos rfl, Bench.cancel_of_not_running w.now (hbench b hx)]
        · rw [Option.map_some, if_neg hid]
    rw [mapBench, hbenches]
  have hfalse : ((w.bench? id).any fun b => (b.cancel w.now).2) = false := by
    cases hb : w.bench? id with
    | none => rfl
    | some b => rw [Option.any_some, Bench.cancel_of_not_running w.now (hbench b hb)]
  rw [cancel, hsame, hfalse]

/-- An action that runs has a bench. -/
theorem exists_of_running (h : w.status id = .running) :
    ∃ b, w.bench? id = some b ∧ b.status = .running := by
  rw [status_eq] at h
  cases hb : w.bench? id with
  | none => exact nomatch hb ▸ h
  | some b => exact ⟨b, rfl, by rwa [hb] at h⟩

/-- Whoever runs is cancelled, and nobody else changes. -/
theorem cancel_running (h : w.status id = .running) :
    (w.cancel id).2 = true ∧
      ∀ x, (w.cancel id).1.status x = if x = id then .cancelled else w.status x := by
  obtain ⟨b, hb, hrun⟩ := exists_of_running h
  refine ⟨?_, fun x => ?_⟩
  · rw [cancel, hb, Option.any_some, Bench.cancel_snd, decide_eq_true hrun]
  · rw [status_eq, bench?_cancel, status_eq]
    by_cases hx : x = id
    · subst hx
      rw [hb, Option.map_some, if_pos rfl, if_pos rfl]
      exact Bench.status_cancel w.now hrun
    · simp only [hx, Ne.symm hx, if_false, Option.map_id']

/-- Those of some actions that run have been cancelled, and there were so many of them. -/
structure Cancels (ids : Finset Nat) (w w' : Workshop τ φ) (n : Nat) : Prop where
  keeps : Keeps w w'
  now : w'.now = w.now
  count : n = (ids.filter fun id => w.status id = .running).card
  bench? : ∀ id, w'.bench? id =
    if id ∈ ids ∧ w.status id = .running then (w.bench? id).map fun b => (b.cancel w.now).1
    else w.bench? id

/-- One action is cancelled, and then others. -/
theorem Cancels.cons {ids : Finset Nat} {n : Nat} (h : Cancels ids (w.cancel id).1 w' n) :
    Cancels (insert id ids) w w' (if (w.cancel id).2 then n + 1 else n) := by
  by_cases hrun : w.status id = .running
  · obtain ⟨htrue, hstatus⟩ := cancel_running hrun
    -- Once it has been cancelled, the action is not counted a second time.
    have hagain : ∀ x, (w.cancel id).1.status x = .running ↔ x ≠ id ∧ w.status x = .running := by
      intro x
      rw [hstatus]
      by_cases hx : x = id <;> simp [hx]
    have hfilter : ((insert id ids).filter fun x => w.status x = .running) =
        insert id (ids.filter fun x => (w.cancel id).1.status x = .running) := by
      ext x
      simp only [Finset.mem_filter, Finset.mem_insert, hagain]
      by_cases hx : x = id
      · simp [hx, hrun]
      · simp [hx]
    have hnew : id ∉ ids.filter fun x => (w.cancel id).1.status x = .running := by
      simp [hagain]
    refine ⟨(keeps_cancel id w).trans h.keeps, h.now, ?count, fun x => ?bench⟩
    case count => rw [if_pos htrue, hfilter, Finset.card_insert_of_notMem hnew, h.count]
    case bench =>
      rw [h.bench?, bench?_cancel]
      simp only [hagain, Finset.mem_insert]
      by_cases hx : x = id
      · subst hx
        simp [hrun]
      · simp only [hx, Ne.symm hx, ne_eq, not_false_eq_true, true_and, false_or, if_false,
          Option.map_id']
        rfl
  -- Nothing is cancelled here, so the others alone count.
  · rw [cancel_of_not_running hrun] at h ⊢
    refine ⟨h.keeps, h.now, ?count, fun x => ?bench⟩
    case count => rw [Finset.filter_insert, if_neg hrun, if_neg Bool.false_ne_true, h.count]
    case bench =>
      rw [h.bench?]
      by_cases hx : x = id
      · simp [hx, hrun]
      · simp [hx]

/-- Each action of the group that runs is cancelled and counted once, even if it is there more than
    once. -/
theorem cancels_cancelAll (w : Workshop τ φ) :
    Cancels (w.group.members.map Group.Member.id).toFinset w w.cancelAll.1 w.cancelAll.2 := by
  rw [cancelAll, Group.cancelAll]
  generalize w.group.members = ms
  -- Induction on the actions, of which some have been counted.
  suffices h : ∀ (w : Workshop τ φ) (n : Nat), ∃ k,
      let r := ms.foldl (fun x m =>
        ((x.1.cancel m.id).1, if (x.1.cancel m.id).2 then x.2 + 1 else x.2)) (w, n)
      r.2 = n + k ∧ Cancels (ms.map Group.Member.id).toFinset w r.1 k by
    obtain ⟨k, hk, h⟩ := h w 0
    exact (hk.trans (Nat.zero_add k)) ▸ h
  induction ms with
  | nil =>
    intro w n
    exact ⟨0, rfl, .refl w, rfl, rfl, fun id => by simp⟩
  | cons m ms ih =>
    intro w n
    obtain ⟨k, hk, h⟩ := ih (w.cancel m.id).1 (if (w.cancel m.id).2 then n + 1 else n)
    refine ⟨if (w.cancel m.id).2 then k + 1 else k, ?_, ?_⟩
    · rw [List.foldl_cons, hk]
      split <;> omega
    · rw [List.map_cons, List.toFinset_cons]
      exact h.cons

/-! ## Moves -/

/-- What can be done in a workshop. -/
inductive Move (τ φ : Type) where
  /-- Put an action on a bench, and not into the group. -/
  | place (t : Task) (a : Action τ Int Int)
  | add (t : Task) (a : Action τ Int Int) (form : φ)
  /-- Put an action into the group, be it for the first time or not. -/
  | insert (id : Nat) (form : φ)
  | prune
  | start (id : Nat) (p : Int)
  | cancel (id : Nat)
  | release (id : Nat)
  | observe (id : Nat) (c : Callback τ Int)
  | cancelAll
  | settle
  | advanceTo (t : Nat)
  | await (patience : Nat) (ids : List Nat)
  | awaitAll (patience : Nat)
  | collect

/-- Make a move. -/
def act (w : Workshop τ φ) : Move τ φ → Workshop τ φ
  | .place t a => w.place t a
  | .add t a form => w.add t a form
  | .insert id form => w.insertAgain id form
  | .prune => w.prune.1
  | .start id p => (w.start id p).1
  | .cancel id => (w.cancel id).1
  | .release id => w.release id
  | .observe id c => w.observe id c
  | .cancelAll => w.cancelAll.1
  | .settle => w.settle
  | .advanceTo t => w.advanceTo t
  | .await patience ids => (w.await patience ids).1
  | .awaitAll patience => (w.awaitAll patience).1
  | .collect => w.collected

/-- The workshop after some moves. -/
def play (moves : List (Move τ φ)) (w : Workshop τ φ) : Workshop τ φ := moves.foldl act w

/-- The actions of a list that have not ended. -/
def unended (w : Workshop τ φ) (xs : List (Group.Member φ)) : List (Group.Member φ) :=
  xs.filter fun m => !(w.status m.id).isTerminal

/-- What a move does to the list of the actions that were put into the group and not dropped. -/
def enlist (w : Workshop τ φ) (xs : List (Group.Member φ)) : Move τ φ → List (Group.Member φ)
  | .add _ _ form => xs ++ [⟨w.benches.length, form⟩]
  | .insert id form => if (w.subject? id).isSome then xs ++ [⟨id, form⟩] else xs
  | .prune => w.unended xs
  | _ => xs

/-- The list after some moves. -/
def listed : List (Move τ φ) → Workshop τ φ → List (Group.Member φ) → List (Group.Member φ)
  | [], _, xs => xs
  | m :: moves, w, xs => listed moves (w.act m) (w.enlist xs m)

/-- A group holds the actions of a list, each of them about its subject. -/
def Lists (xs : List (Group.Member φ)) (w : Workshop τ φ) : Prop :=
  ∃ ys : List (Subject × Group.Member φ), ys.map Prod.snd = xs ∧
    (∀ y ∈ ys, w.subject? y.2.id = some y.1) ∧ Group.Holds ys w.group

variable {xs : List (Group.Member φ)}

/-- The list stays true as long as the workshop keeps what it has. -/
theorem Lists.keeps (h : Lists xs w) (k : Keeps w w') : Lists xs w' := by
  obtain ⟨ys, hys, hsubject, holds⟩ := h
  exact ⟨ys, hys, fun y hy => k.subject? _ _ (hsubject y hy), k.group ▸ holds⟩

/-- An action that is inserted once more is listed once more. -/
theorem Lists.insertAgain (h : Lists xs w) (id : Nat) (form : φ) :
    Lists (w.enlist xs (.insert id form)) (w.insertAgain id form) := by
  rw [Workshop.insertAgain, enlist]
  cases hs : w.subject? id with
  | none => exact h
  | some s =>
    obtain ⟨ys, rfl, hsubject, holds⟩ := h
    refine ⟨ys ++ [(s, ⟨id, form⟩)], by simp, fun y hy => ?_, holds.insert s ⟨id, form⟩⟩
    rcases List.mem_append.mp hy with hy | hy
    · exact hsubject y hy
    · obtain rfl := List.mem_singleton.mp hy
      exact hs

/-- To add an action is to put it on a bench and then into the group. -/
theorem add_eq (t : Task) (a : Action τ Int Int) (form : φ) (w : Workshop τ φ) :
    (w.place t a).subject? w.benches.length = some a.subject ∧
      w.add t a form = (w.place t a).insertAgain w.benches.length form := by
  have hsubject : (w.place t a).subject? w.benches.length = some a.subject := by
    have hbench : (w.place t a).bench? w.benches.length = some (.ofAction t a) :=
      List.getElem?_concat_length
    rw [subject?_eq, hbench]
    rfl
  refine ⟨hsubject, ?_⟩
  rw [Workshop.insertAgain, hsubject]
  rfl

/-- A new action that is inserted is listed last. -/
theorem Lists.add (h : Lists xs w) (t : Task) (a : Action τ Int Int) (form : φ) :
    Lists (w.enlist xs (.add t a form)) (w.add t a form) := by
  obtain ⟨hsubject, hadd⟩ := add_eq t a form w
  have hinsert := (h.keeps (keeps_place t a w)).insertAgain w.benches.length form
  rw [enlist, hsubject] at hinsert
  rw [hadd]
  exact hinsert

/-- Pruning takes those off the list that have ended. -/
theorem Lists.prune (h : Lists xs w) : Lists (w.unended xs) w.prune.1 := by
  obtain ⟨ys, rfl, hsubject, holds⟩ := h
  refine ⟨ys.filter fun y => !(w.status y.2.id).isTerminal, ?_, fun y hy => ?_,
    holds.prune w.status⟩
  · rw [unended, List.filter_map]
    rfl
  · exact hsubject y (List.mem_filter.mp hy).1

/-- One move does to the list what it is to do, and nothing if it is about the actions only. -/
theorem Lists.act (h : Lists xs w) (m : Move τ φ) : Lists (w.enlist xs m) (w.act m) := by
  -- Only inserting and pruning change the group; all other moves keep every subject.
  cases m with
  | place t a => exact h.keeps (keeps_place t a w)
  | add t a form => exact h.add t a form
  | insert id form => exact h.insertAgain id form
  | prune => exact h.prune
  | start id p => exact h.keeps (keeps_mapBench id (Bench.subject?_start w.now p) w)
  | cancel id => exact h.keeps (keeps_cancel id w)
  | release id => exact h.keeps (keeps_mapBench id (Bench.subject?_release w.now) w)
  | observe id c => exact h.keeps (keeps_mapBench id (Bench.subject?_observe w.now c) w)
  | cancelAll => exact h.keeps (cancels_cancelAll w).keeps
  | settle => exact h.keeps (keeps_settle w)
  | advanceTo t => exact h.keeps (keeps_advanceTo t w)
  | await patience ids => exact h.keeps (keeps_await patience ids w)
  | awaitAll patience => exact h.keeps (keeps_await patience _ w)
  | collect => exact h.keeps (keeps_map Bench.subject?_collected w.now w)

/-- Any moves do to the list what they are to do. -/
theorem Lists.play (h : Lists xs w) (moves : List (Move τ φ)) :
    Lists (listed moves w xs) (play moves w) := by
  induction moves generalizing w xs with
  | nil => exact h
  | cons m moves ih => exact ih (h.act m)

/-! ## The group from outside -/

/-- What a group returns whose actions are those of a list. -/
structure Shows [DecidableEq φ] (xs : List (Group.Member φ)) (w : Workshop τ φ) : Prop where
  known : ∀ m ∈ xs, (w.subject? m.id).isSome
  get : ∀ s, w.group.get s = xs.filter fun m => w.subject? m.id = some s
  find? : ∀ s form, w.group.find? s form =
    (((w.group.get s).filter fun m => m.form = form).getLast?).map Group.Member.id
  size : w.group.size = xs.length
  members : w.group.members.Perm xs

/-- A group shows what is on the list. -/
theorem Lists.shows [DecidableEq φ] (h : Lists xs w) : Shows xs w := by
  obtain ⟨ys, rfl, hsubject, holds⟩ := h
  refine ⟨fun m hm => ?known, fun s => ?get, Group.find?_eq w.group, ?size, holds.members⟩
  case known =>
    obtain ⟨y, hy, rfl⟩ := List.mem_map.mp hm
    rw [hsubject y hy]
    rfl
  case get =>
    rw [holds.get, Group.about, List.filter_map]
    refine congrArg _ (List.filter_congr fun y hy => ?_)
    rw [Function.comp_apply, hsubject y hy]
    simp
  case size => rw [holds.size, List.length_map]

/-- A group keeps the actions that were put into it and have not been dropped, in the order in which
    they came.  Of these it returns for a subject all that are about it, and finds the last one that
    has a form.  Pruning drops those that have ended, tells how many they were, and leaves the others
    in their order.  Cancelling all of them cancels those that run, tells how many different ones
    they were, and leaves all others as they are. -/
theorem workshop_spec [DecidableEq φ] (moves : List (Move τ φ)) :
    let w := play moves {}
    let xs := listed moves {} []
    let ran (id : Nat) : Prop := id ∈ xs.map Group.Member.id ∧ w.status id = .running
    Shows xs w ∧
    (Shows (w.unended xs) w.prune.1 ∧ w.prune.1.benches = w.benches ∧
      w.prune.2 = xs.countP fun m => (w.status m.id).isTerminal) ∧
    (Shows xs w.cancelAll.1 ∧ w.cancelAll.1.group = w.group ∧
      w.cancelAll.2 = ((xs.map Group.Member.id).toFinset.filter
        fun id => w.status id = .running).card ∧
      (∀ id, ran id → w.cancelAll.1.status id = .cancelled ∧
        w.cancelAll.1.bench? id = (w.bench? id).map fun b => (b.cancel w.now).1) ∧
      ∀ id, ¬ran id → w.cancelAll.1.bench? id = w.bench? id) := by
  intro w xs ran
  have hlists : Lists xs w := Lists.play ⟨[], rfl, nofun, Group.holds_empty⟩ moves
  have hshows := hlists.shows
  have hcancels := cancels_cancelAll w
  -- The group is stored by subject, so its members agree with the list up to their order.
  have hids : (w.group.members.map Group.Member.id).toFinset = (xs.map Group.Member.id).toFinset :=
    List.toFinset_eq_of_perm _ _ (hshows.members.map _)
  rw [hids] at hcancels
  have hmem : ∀ id, id ∈ (xs.map Group.Member.id).toFinset ∧ w.status id = .running ↔ ran id :=
    fun _ => and_congr_left' List.mem_toFinset
  refine ⟨hshows, ⟨hlists.prune.shows, rfl, ?pruned⟩, (hlists.keeps hcancels.keeps).shows,
    hcancels.keeps.group, hcancels.count, fun id hran => ?ran, fun id hnot => ?still⟩
  -- Those that have ended and those that are left make up the whole list.
  case pruned =>
    have hleft : w.prune.1.group.size = xs.countP fun m => !(w.status m.id).isTerminal := by
      rw [hlists.prune.shows.size, unended, List.countP_eq_length_filter]
    have hall := List.length_eq_countP_add_countP (fun m => (w.status m.id).isTerminal) (l := xs)
    simp only [Bool.not_eq_true, Bool.decide_eq_false] at hall
    show w.group.size - w.prune.1.group.size = _
    rw [hshows.size, hleft, hall, Nat.add_sub_cancel]
  case ran =>
    have hbench := hcancels.bench? id
    rw [if_pos ((hmem id).mpr hran)] at hbench
    refine ⟨?_, hbench⟩
    -- An action that runs has a bench, at which it is cancelled.
    obtain ⟨b, hb, hrun⟩ := exists_of_running hran.2
    rw [status_eq, hbench, hb]
    exact Bench.status_cancel w.now hrun
  case still =>
    have hbench := hcancels.bench? id
    rwa [if_neg fun h => hnot ((hmem id).mp h)] at hbench

/-- An action that is in the group twice is cancelled once. -/
theorem workshop_spec_twice :
    let moves : List (Move Unit Unit) :=
      [.add {} { subject := .text "jdoe" } (), .insert 0 (), .start 0 1]
    (play moves {}).group.get (.text "jdoe") = [⟨0, ()⟩, ⟨0, ()⟩] ∧ (play moves {}).cancelAll.2 = 1 := by
  intro moves
  obtain ⟨hshows, -, -, -, hcount, -⟩ := workshop_spec moves
  exact ⟨(hshows.get _).trans (by rfl), hcount.trans (by rfl)⟩

end Workshop

end Federation
