import Federation.Proofs.Action.Deeds

/-!
# Callbacks in line

The callbacks of an action wait in a line.  Once the action has finished, they are called one by
one, from the front, while those that are registered meanwhile go to the end.  When nobody is left,
the observer of the federation is told of the end, and the outcome is published to those who wait.

`Line` is such a line on its own, and a `Moment` is what can happen to it.  The moments of a deed
are what happens to the callbacks of an action while the deed is done, in the order in which it
happens; they follow the definitions of the deeds step by step, and the line allows all of them.

## Key results

- `Line.Run.conserves`: callbacks are called in the order in which they are registered
- `Serves`: what happens to the callbacks of an action that has finished
- `AtRest.performed`: every deed does to the callbacks what the line allows
-/

namespace Federation

variable {τ π ρ : Type}

/-! ## Moments -/

/-- What happens to the callbacks of an action, and who is told of its end. -/
inductive Moment (τ ρ : Type) where
  | registered (tag : τ)
  | finished (o : Outcome ρ)
  /-- A callback begins. -/
  | called (tag : τ) (o : Outcome ρ)
  /-- The observer of the federation is told that the action has finished. -/
  | told (s : Status)
  /-- Those who wait see the outcome. -/
  | published (o : Outcome ρ)

namespace Moment

def registration? : Moment τ ρ → Option τ
  | registered tag => some tag
  | _ => none

def call? : Moment τ ρ → Option τ
  | called tag _ => some tag
  | _ => none

/-- Whether a moment concerns one callback. -/
def isOfCallback : Moment τ ρ → Bool
  | registered _ | called .. => true
  | finished _ | told _ | published _ => false

/-- Whether a moment can be seen from outside. -/
def isSeen : Moment τ ρ → Bool
  | called .. | told _ => true
  | registered _ | finished _ | published _ => false

/-- The tags of the callbacks that are registered, in this order. -/
def registrations (ms : List (Moment τ ρ)) : List τ := ms.filterMap registration?

/-- The tags of the callbacks that are called, in this order. -/
def calls (ms : List (Moment τ ρ)) : List τ := ms.filterMap call?

/-- The registrations of one stretch after another. -/
theorem registrations_append (ms ns : List (Moment τ ρ)) :
    registrations (ms ++ ns) = registrations ms ++ registrations ns := List.filterMap_append

/-- Among the moments of callbacks, no others happen. -/
theorem not_mem_of_own {ms : List (Moment τ ρ)} {m : Moment τ ρ}
    (own : ∀ m ∈ ms, m.isOfCallback = true) (hm : m.isOfCallback = false) : m ∉ ms :=
  fun hmem => Bool.eq_false_iff.mp hm (own m hmem)

end Moment

/-- The moment that a note tells of. -/
def Note.moment? : Note τ ρ → Option (Moment τ ρ)
  | .called tag o => some (.called tag o)
  | .told (.finished _ s) => some (.told s)
  | .told _ | .answered _ => none

/-! ## The line -/

/-- The tags of the callbacks that wait, and the outcome once there is one. -/
structure Line (τ ρ : Type) where
  waiting : List τ
  outcome? : Option (Outcome ρ)

namespace Line

open Moment (registrations calls)

/-- What can happen to a line: whoever comes is the last, and once there is an outcome whoever is
    called is the first.  Nobody else is told the outcome before the line is empty. -/
inductive Step : Line τ ρ → Moment τ ρ → Line τ ρ → Prop
  | registered (tags : List τ) (o? : Option (Outcome ρ)) (tag : τ) :
    Step ⟨tags, o?⟩ (.registered tag) ⟨tags ++ [tag], o?⟩
  | finished (tags : List τ) (o : Outcome ρ) : Step ⟨tags, none⟩ (.finished o) ⟨tags, some o⟩
  | called (tags : List τ) (o : Outcome ρ) (tag : τ) :
    Step ⟨tag :: tags, some o⟩ (.called tag o) ⟨tags, some o⟩
  | told (o : Outcome ρ) : Step ⟨[], some o⟩ (.told o.status) ⟨[], some o⟩
  | published (o : Outcome ρ) : Step ⟨[], some o⟩ (.published o) ⟨[], some o⟩

/-- What can happen to a line in some moments. -/
inductive Run : Line τ ρ → List (Moment τ ρ) → Line τ ρ → Prop
  | nil (l : Line τ ρ) : Run l [] l
  | cons {l l' l'' : Line τ ρ} {m : Moment τ ρ} {ms : List (Moment τ ρ)} (step : Step l m l')
    (run : Run l' ms l'') : Run l (m :: ms) l''

variable {l l' l'' : Line τ ρ} {m : Moment τ ρ} {ms ns : List (Moment τ ρ)} {o : Outcome ρ}

/-- One stretch of moments after another. -/
theorem Run.append (h : Run l ms l') (k : Run l' ns l'') : Run l (ms ++ ns) l'' := by
  induction h with
  | nil => exact k
  | cons step _ ih => exact .cons step (ih k)

/-- Moments in two stretches have a line in between. -/
theorem Run.split (h : Run l (ms ++ ns) l'') : ∃ l', Run l ms l' ∧ Run l' ns l'' := by
  induction ms generalizing l with
  | nil => exact ⟨l, .nil l, h⟩
  | cons m ms ih =>
    cases h with
    | cons step run =>
      obtain ⟨l', hms, hns⟩ := ih run
      exact ⟨l', .cons step hms, hns⟩

/-- A line is at any moment what it was before, with those who have come and without those who
    have been called, who were the first. -/
theorem Run.conserves (h : Run l ms l') :
    l.waiting ++ registrations ms = calls ms ++ l'.waiting := by
  induction h with
  | nil => exact List.append_nil _
  | cons step _ ih =>
    cases step with
    | registered tags o? tag =>
      rw [← List.append_cons] at ih
      exact ih
    | called tags o tag => exact congrArg (tag :: ·) ih
    | finished | told | published => exact ih

/-- The outcome is final. -/
theorem Run.outcome? (h : Run l ms l') (ho : l.outcome? = some o) : l'.outcome? = some o := by
  induction h with
  | nil => exact ho
  | cons step _ ih =>
    refine ih ?_
    cases step with
    | finished => exact nomatch ho
    | registered | called | told | published => exact ho

/-- What has finished does not finish again. -/
theorem Run.finished_not_mem (h : Run l ms l') (ho : l.outcome? = some o) (p : Outcome ρ) :
    .finished p ∉ ms := by
  induction h with
  | nil => exact List.not_mem_nil
  | cons step _ ih =>
    cases step with
    | finished => exact nomatch ho
    | registered | called | told | published =>
      rw [List.mem_cons, not_or]
      exact ⟨nofun, ih ho⟩

/-- There is an outcome exactly if there was a moment at which the action finished. -/
theorem Run.finished_mem_iff (h : Run l ms l') (hl : l.outcome? = none) :
    .finished o ∈ ms ↔ l'.outcome? = some o := by
  induction h with
  | nil => simp [hl]
  | cons step run ih =>
    -- The outcome comes with the moment at which the action finishes, and with no other.
    cases step with
    | finished tags p =>
      rw [run.outcome? rfl, List.mem_cons, Option.some.injEq]
      constructor
      · rintro (he | hmem)
        · exact (Moment.finished.inj he).symm
        · exact absurd hmem (run.finished_not_mem rfl o)
      · rintro rfl
        exact .inl rfl
    | registered =>
      rw [← ih hl, List.mem_cons, or_iff_right]
      exact nofun
    | called | told | published => exact nomatch hl

/-- Callbacks are told the outcome. -/
theorem Run.outcome?_of_called_mem (h : Run l ms l') {tag : τ} (hm : .called tag o ∈ ms) :
    l'.outcome? = some o := by
  obtain ⟨pre, post, rfl⟩ := List.mem_iff_append.mp hm
  obtain ⟨l₁, -, hpost⟩ := h.split
  cases hpost with
  | cons step run =>
    cases step with
    | called => exact run.outcome? rfl

/-- As long as there is no outcome, nobody is called. -/
theorem Run.calls_eq_nil (h : Run l ms l') (hl : l'.outcome? = none) : calls ms = [] := by
  refine List.filterMap_eq_nil_iff.mpr fun m hm => ?_
  cases m with
  | called tag o => exact nomatch hl.symm.trans (h.outcome?_of_called_mem hm)
  | _ => rfl

end Line

/-! ## The callbacks of an action that has finished -/

open Moment (registrations calls)

namespace Action

/-- The tags of the callbacks that wait. -/
def waiting (a : Action τ π ρ) : List τ := a.callbacks.map Callback.tag

/-- The tags of the callbacks that those who wait will register. -/
def promised (a : Action τ π ρ) : List τ :=
  a.callbacks.flatMap fun c => Reaction.tagsOfList c.reactions

variable {a b c : Action τ π ρ} {o : Outcome ρ} {o? : Option (Outcome ρ)}

/-- Nobody waits in the line of an action that has finished, as long as nobody is told anything. -/
theorem AtRest.waiting_eq_nil (h : a.AtRest) (ho : a.stage = .finished o) : a.waiting = [] := by
  rw [waiting, h.callbacks o ho, List.map_nil]

/-- Once an action at rest has finished, its callbacks are to register nobody any more. -/
theorem AtRest.promised_eq_nil (h : a.AtRest) (ho : a.stage = .finished o) : a.promised = [] := by
  rw [promised, h.callbacks o ho, List.flatMap_nil]

/-- From one state of an action to another, while its outcome has not changed, the line has changed
    as it should, what is seen is what has happened, and callbacks of some tags have been or will be
    registered, besides those that were to be registered anyway. -/
structure Serves (o? : Option (Outcome ρ)) (a b : Action τ π ρ) (tags : List τ)
    (notes : List (Note τ ρ)) (ms : List (Moment τ ρ)) : Prop where
  run : Line.Run ⟨a.waiting, o?⟩ ms ⟨b.waiting, o?⟩
  seen : notes.filterMap Note.moment? = ms.filter Moment.isSeen
  own : ∀ m ∈ ms, m.isOfCallback = true
  registered : (registrations ms ++ b.promised).Perm (a.promised ++ tags)

/-- Nothing happens but that someone is answered. -/
theorem Serves.nil {notes : List (Note τ ρ)} (h : b.callbacks = a.callbacks)
    (hnotes : notes.filterMap Note.moment? = []) : Serves o? a b [] notes [] where
  run := by
    rw [waiting, waiting, h]
    exact .nil _
  seen := hnotes
  own := nofun
  registered := by
    rw [List.append_nil, promised, promised, h]
    exact .refl _

/-- One stretch of service after another. -/
theorem Serves.append {xs ys : List τ} {notes notes' : List (Note τ ρ)}
    {ms ns : List (Moment τ ρ)} (h : Serves o? a b xs notes ms) (k : Serves o? b c ys notes' ns) :
    Serves o? a c (xs ++ ys) (notes ++ notes') (ms ++ ns) where
  run := h.run.append k.run
  seen := by rw [List.filterMap_append, List.filter_append, h.seen, k.seen]
  own := by
    intro m hm
    rcases List.mem_append.mp hm with hm | hm
    · exact h.own m hm
    · exact k.own m hm
  registered := by
    rw [Moment.registrations_append, List.append_assoc, ← List.append_assoc a.promised]
    refine (k.registered.append_left _).trans ?_
    rw [← List.append_assoc]
    exact h.registered.append_right ys

/-- A callback comes. -/
theorem Serves.enqueue (a : Action τ π ρ) (c : Callback τ π) {notes : List (Note τ ρ)}
    (hnotes : notes.filterMap Note.moment? = []) :
    Serves o? a (a.enqueue c) c.tags notes [.registered c.tag] where
  run := by
    have hwaiting : (a.enqueue c).waiting = a.waiting ++ [c.tag] := by
      simp [waiting, Action.enqueue]
    rw [hwaiting]
    exact .cons (.registered _ _ _) (.nil _)
  seen := hnotes
  own := by simp [Moment.isOfCallback]
  registered := by
    have hpromised : (a.enqueue c).promised =
        a.promised ++ Reaction.tagsOfList c.reactions := by
      simp [promised, Action.enqueue]
    have hcomes : (c.tag :: (a.promised ++ Reaction.tagsOfList c.reactions)).Perm
        (a.promised ++ c.tags) := List.perm_middle.symm
    rw [hpromised]
    exact hcomes

/-- A callback comes when nobody else is in the line, and is called at once. -/
theorem Serves.pass (h : a.callbacks = []) (tag : τ) {tags : List τ} {notes : List (Note τ ρ)}
    {ms : List (Moment τ ρ)} (k : Serves (some o) a b tags notes ms) :
    Serves (some o) a b (tag :: tags) (.called tag o :: notes)
      (.registered tag :: .called tag o :: ms) where
  run := by
    have hrun := k.run
    have hwaiting : a.waiting = [] := by rw [waiting, h, List.map_nil]
    rw [hwaiting] at hrun ⊢
    exact .cons (.registered [] _ tag) (.cons (.called [] o tag) hrun)
  seen := congrArg (Moment.called tag o :: ·) k.seen
  -- The two moments of the callback stand before those that follow.
  own := by
    intro m hm
    simp only [List.mem_cons] at hm
    rcases hm with rfl | rfl | hm
    · rfl
    · rfl
    · exact k.own m hm
  registered := (k.registered.cons tag).trans List.perm_middle.symm

variable [DecidableEq π]

mutual
/-- The moments of a reaction. -/
def reactMoments (now : Nat) (a : Action τ π ρ) : Reaction τ π → List (Moment τ ρ)
  | .observe tag rs =>
    match a.stage, a.isNotifying with
    | .finished o, false => .registered tag :: .called tag o :: reactAllMoments now a rs
    | _, _ => [.registered tag]
  | .cancel | .status | .result | .start _ | .run _ | .startOrJoin _ | .wait => []
/-- The moments of some reactions. -/
def reactAllMoments (now : Nat) (a : Action τ π ρ) : List (Reaction τ π) → List (Moment τ ρ)
  | [] => []
  | x :: xs => reactMoments now a x ++ reactAllMoments now (react now a x).1 xs
end

omit [DecidableEq π] in
/-- What a reaction leaves as it is: the action has the outcome, and only while callbacks are told
    do any wait. -/
private theorem Reacted.settled {tags : List τ} {r : Action τ π ρ × List (Note τ ρ)}
    (h : Reacted a o tags r) (ho : a.stage = .finished o)
    (hquiet : a.isNotifying = false → a.callbacks = []) :
    r.1.stage = .finished o ∧ (r.1.isNotifying = false → r.1.callbacks = []) := by
  obtain ⟨cs, hr, -, hidle⟩ := h.queued
  rw [hr]
  refine ⟨ho, fun hn => ?_⟩
  rw [hquiet hn, hidle hn, List.append_nil]

mutual
/-- A reaction of a callback registers its own callbacks only, and calls them unless others are
    being called. -/
theorem react_serves {a : Action τ π ρ} {o : Outcome ρ} (now : Nat) (h : a.stage = .finished o)
    (hquiet : a.isNotifying = false → a.callbacks = []) (x : Reaction τ π) :
    Serves (some o) a (react now a x).1 x.tags (react now a x).2 (reactMoments now a x) := by
  cases x with
  -- Only a reaction that registers a callback touches the line.
  | observe tag rs =>
    cases hn : a.isNotifying with
    | true =>
      simp only [react, reactMoments, h, hn]
      exact .enqueue a ⟨tag, rs⟩ rfl
    | false =>
      simp only [react, reactMoments, h, hn]
      have hrs := (reactAll_serves now h hquiet rs).pass (hquiet hn) tag
      have hanswer : Serves (some o) (reactAll now a rs).1 (reactAll now a rs).1 []
          [.answered .observed] [] := .nil rfl rfl
      simpa [Reaction.tags] using hrs.append hanswer
  | status | result | wait => exact .nil rfl rfl
  | cancel =>
    simp only [react, tryCancel_finished now h]
    exact .nil rfl rfl
  | start p | run p =>
    simp only [react, tryStart_finished now p h]
    exact .nil rfl rfl
  | startOrJoin p =>
    simp only [react, join?_finished p h, tryStart_finished now p h]
    exact .nil rfl rfl
/-- So do the reactions of a callback, one after the other. -/
theorem reactAll_serves {a : Action τ π ρ} {o : Outcome ρ} (now : Nat) (h : a.stage = .finished o)
    (hquiet : a.isNotifying = false → a.callbacks = []) (xs : List (Reaction τ π)) :
    Serves (some o) a (reactAll now a xs).1 (Reaction.tagsOfList xs) (reactAll now a xs).2
      (reactAllMoments now a xs) := by
  cases xs with
  | nil => exact .nil rfl rfl
  | cons x xs =>
    obtain ⟨hstage, hquiet'⟩ := (react_finished now h x).settled h hquiet
    exact (react_serves now h hquiet x).append (reactAll_serves now hstage hquiet' xs)
end

/-- The moments of the delivery. -/
def deliverMoments (now : Nat) (o : Outcome ρ) (a : Action τ π ρ) : List (Moment τ ρ) :=
  match _h : a.callbacks with
  | [] => []
  | c :: rest =>
    let b := { a with callbacks := rest }
    .called c.tag o :: reactAllMoments now b c.reactions ++
      deliverMoments now o (reactAll now b c.reactions).1
termination_by a.pending
decreasing_by exact pending_reactAll_lt now _h

/-- Delivery calls all callbacks that wait and those that they register, in the order in which they
    were registered. -/
theorem deliver_serves (now : Nat) (h : a.stage = .finished o) (hn : a.isNotifying = true) :
    Serves (some o) a (a.deliver now o).1 [] (a.deliver now o).2 (a.deliverMoments now o) := by
  fun_induction deliverMoments now o a with
  | case1 a hc =>
    rw [deliver_nil hc]
    exact .nil rfl rfl
  | case2 a c rest hc b ih =>
    rw [deliver_cons hc]
    have hreact := reactAll_finished (a := b) now h c.reactions
    have hstage := hreact.stage_eq.trans h
    have hnotifying : (reactAll now b c.reactions).1.isNotifying = true := by
      obtain ⟨cs, hr, -⟩ := hreact.queued
      rw [hr]
      exact hn
    -- The callback has left the line before it reacts, so those that it registers come last.
    have hloud : b.isNotifying ≠ false := by simp [b, hn]
    have hrest := (reactAll_serves now h (fun hquiet => absurd hquiet hloud) c.reactions
      (a := b)).append (ih hstage hnotifying)
    have hwaiting : a.waiting = c.tag :: b.waiting := by
      simp only [waiting, hc, List.map_cons, b]
    have hpromised : a.promised = Reaction.tagsOfList c.reactions ++ b.promised := by
      simp only [promised, hc, List.flatMap_cons, b]
    refine ⟨?_, ?_, ?_, ?_⟩
    · rw [hwaiting]
      exact .cons (.called _ o _) hrest.run
    · exact congrArg (Moment.called c.tag o :: ·) hrest.seen
    · intro m hm
      rcases List.mem_cons.mp hm with rfl | hm
      · rfl
      · exact hrest.own m hm
    · rw [List.append_nil, hpromised]
      have hregistered := hrest.registered
      rw [List.append_nil] at hregistered
      exact hregistered.trans List.perm_append_comm

/-! ## Deeds -/

/-- The moments in which those are told that come after the callbacks. -/
def lastMoments (o : Outcome ρ) (a : Action τ π ρ) : List (Moment τ ρ) :=
  (if a.isFollowed then [.told o.status] else []) ++ [.published o]

/-- The moments in which everyone is told that an action has finished. -/
def notifyMoments (now : Nat) (o : Outcome ρ) (a : Action τ π ρ) : List (Moment τ ρ) :=
  a.deliverMoments now o ++ a.lastMoments o

/-- The moments of a completion. -/
def completeMoments (now : Nat) (o : Outcome ρ) (a : Action τ π ρ) : List (Moment τ ρ) :=
  match a.tryFinish now o with
  | (a, true) => .finished o :: a.notifyMoments now o
  | (_, false) => []

/-- The moments of a registration. -/
def observeMoments (now : Nat) (c : Callback τ π) (a : Action τ π ρ) : List (Moment τ ρ) :=
  match a.stage, a.isNotifying with
  | .finished o, false => .registered c.tag :: .called c.tag o :: reactAllMoments now a c.reactions
  | _, _ => [.registered c.tag]

/-- The moments of a deed. -/
def moments (now : Nat) (a : Action τ π ρ) : Deed τ π ρ → List (Moment τ ρ)
  | .nothing | .start _ => []
  | .startUnattended p =>
    match a.start now p with
    | (a, _, .ok .started) => a.completeMoments now (.failed unattended)
    | _ => []
  | .complete o => a.completeMoments now o
  | .observe c => a.observeMoments now c

/-- The line of an action. -/
def line (a : Action τ π ρ) : Line τ ρ := ⟨a.waiting, a.stage.outcome?⟩

end Action

/-- The tags of the callbacks that a deed registers, directly or through them. -/
def Deed.tags : Deed τ π ρ → List τ
  | .observe c => c.tags
  | .nothing | .start _ | .startUnattended _ | .complete _ => []

/-- The moments in which an action finishes: everyone in the line is called, and then those are told
    who come last. -/
inductive Moment.Ends (o : Outcome ρ) : List (Moment τ ρ) → Prop
  | intro (ms es : List (Moment τ ρ)) (own : ∀ m ∈ ms, m.isOfCallback = true)
      (last : ∀ m ∈ es, m = .told o.status ∨ m = .published o) (published : .published o ∈ es) :
    Ends o (.finished o :: (ms ++ es))

namespace Moment.Ends

variable {o p : Outcome ρ} {ms pre post : List (Moment τ ρ)} {m : Moment τ ρ}

/-- An action that ends has a moment at which it finishes. -/
theorem finished_mem (h : Ends o ms) : .finished o ∈ ms := by
  cases h with
  | intro => exact List.mem_cons_self

/-- The outcome is published in the same moments in which the action finishes. -/
theorem published_mem_iff (h : Ends o ms) : .published p ∈ ms ↔ .finished p ∈ ms := by
  obtain ⟨ns, es, own, last, published⟩ := h
  rw [List.mem_cons, List.mem_cons, List.mem_append, List.mem_append]
  -- Both moments stand outside those of the callbacks, and belong to the same outcome.
  constructor
  · rintro (he | hp | hp)
    · exact nomatch he
    · exact absurd hp (not_mem_of_own own rfl)
    · rcases last _ hp with he | he
      · exact nomatch he
      · exact .inl (congrArg Moment.finished (Moment.published.inj he))
  · rintro (he | hp | hp)
    · obtain rfl := Moment.finished.inj he
      exact .inr (.inr published)
    · exact absurd hp (not_mem_of_own own rfl)
    · rcases last _ hp with he | he <;> exact nomatch he

/-- When somebody who comes last is told, no callback is registered any more. -/
theorem registrations_eq (h : Ends o (pre ++ m :: post)) (hm : m.isOfCallback = false)
    (hfinished : ∀ p, m ≠ .finished p) :
    registrations pre = registrations (pre ++ m :: post) := by
  generalize hms : pre ++ m :: post = ms at h
  obtain ⟨ns, es, own, last, -⟩ := h
  cases pre with
  | nil => exact absurd (List.cons.inj hms).1 (hfinished o)
  | cons x pre =>
    rw [List.cons_append] at hms
    obtain ⟨rfl, htail⟩ := List.cons.inj hms
    -- The moment comes after those of the callbacks.
    have hsplit : ∃ as, pre = ns ++ as ∧ es = as ++ m :: post := by
      rcases List.append_eq_append_iff.mp htail with ⟨as, hns, hes⟩ | ⟨as, hpre, hes⟩
      · cases as with
        | nil => exact ⟨[], by rw [hns, List.append_nil, List.append_nil], hes.symm⟩
        | cons y as =>
          obtain ⟨rfl, -⟩ := List.cons.inj hes
          have hmem : m ∈ ns := by rw [hns]; exact List.mem_append_right _ List.mem_cons_self
          exact absurd hmem (not_mem_of_own own hm)
      · exact ⟨as, hpre, hes⟩
    obtain ⟨as, rfl, rfl⟩ := hsplit
    have hnone : ∀ xs : List (Moment τ ρ), xs ⊆ as ++ m :: post → registrations xs = [] := by
      intro xs hxs
      refine List.filterMap_eq_nil_iff.mpr fun x hx => ?_
      rcases last x (hxs hx) with rfl | rfl <;> rfl
    have hsame : registrations (ns ++ as) = registrations (ns ++ (as ++ m :: post)) := by
      rw [registrations_append, registrations_append, hnone as (List.subset_append_left ..),
        hnone _ (List.Subset.refl _)]
    exact hsame

end Moment.Ends

namespace Action

variable [DecidableEq π] {a b c : Action τ π ρ} {o : Outcome ρ} {o? : Option (Outcome ρ)}

/-- From one state of an action to another, the line has changed as it should, what is seen is what
    has happened, callbacks of some tags have been or will be registered, besides those that were
    to be registered anyway, and if someone is told of the end it is after all callbacks. -/
structure Performed (a b : Action τ π ρ) (tags : List τ) (notes : List (Note τ ρ))
    (ms : List (Moment τ ρ)) : Prop where
  run : Line.Run a.line ms b.line
  seen : notes.filterMap Note.moment? = ms.filter Moment.isSeen
  registered : (Moment.registrations ms ++ b.promised).Perm (a.promised ++ tags)
  ends : (∀ m ∈ ms, m.isOfCallback = true) ∨ (tags = [] ∧ ∃ o, Moment.Ends o ms)

omit [DecidableEq π] in
/-- A deed that nobody notices. -/
theorem Performed.unnoticed {notes : List (Note τ ρ)} (hline : b.line = a.line)
    (hcallbacks : b.callbacks = a.callbacks) (hnotes : notes.filterMap Note.moment? = []) :
    Performed a b [] notes [] where
  run := by
    rw [hline]
    exact .nil _
  seen := hnotes
  registered := by
    rw [List.append_nil, promised, promised, hcallbacks]
    exact .refl _
  ends := .inl nofun

omit [DecidableEq π] in
/-- What is done to the callbacks of an action while its outcome does not change. -/
theorem Serves.performed {tags : List τ} {notes : List (Note τ ρ)} {ms : List (Moment τ ρ)}
    (h : Serves o? a b tags notes ms) (ha : a.stage.outcome? = o?) (hb : b.stage.outcome? = o?) :
    Performed a b tags notes ms where
  run := by
    rw [line, line, ha, hb]
    exact h.run
  seen := h.seen
  registered := h.registered
  ends := .inl h.own

omit [DecidableEq π] in
/-- Those who come last are told when nobody is left in the line, and they do not change it. -/
theorem run_lastMoments (o : Outcome ρ) (a : Action τ π ρ) :
    Line.Run ⟨[], some o⟩ (a.lastMoments o) ⟨[], some o⟩ := by
  unfold lastMoments
  split
  · exact .cons (.told o) (.cons (.published o) (.nil _))
  · exact .cons (.published o) (.nil _)

omit [DecidableEq π] in
/-- What is told at last is what is seen of the last moments. -/
theorem seen_lastMoments (o : Outcome ρ) (a : Action τ π ρ) :
    (a.tell (.finished a.subject o.status)).filterMap Note.moment? =
      (a.lastMoments o).filter Moment.isSeen := by
  unfold lastMoments tell
  split <;> rfl

omit [DecidableEq π] in
/-- Nobody is registered in the last moments. -/
theorem registrations_lastMoments (o : Outcome ρ) (a : Action τ π ρ) :
    registrations (a.lastMoments o) = [] := by
  unfold lastMoments
  split <;> rfl

/-- When an action finishes, everyone in the line is told before those who come last. -/
theorem performed_complete (now : Nat) (o : Outcome ρ) (a : Action τ π ρ) :
    Performed a (a.complete now o).1 [] (a.complete now o).2.1 (a.completeMoments now o) := by
  by_cases hs : a.stage = .running
  -- An action that does not run is left alone.
  case neg =>
    rw [complete_of_not_running now o hs, completeMoments, tryFinish_of_not_running now o hs]
    exact .unnoticed rfl rfl rfl
  let b : Action τ π ρ :=
    { a with stage := .finished o, finishedAt := some now, isNotifying := true }
  have htry : a.tryFinish now o = (b, true) := tryFinish_running now o hs
  -- First everyone in the line is called, and then those are told who come last.
  let d := b.deliver now o
  have hempty : d.1 = { b with callbacks := [], isNotifying := false } :=
    (deliver_finished now rfl).1
  have hserves : Serves (some o) b d.1 [] d.2 (b.deliverMoments now o) := deliver_serves now rfl rfl
  obtain ⟨hrun, hseen, hown, hregistered⟩ := hserves
  rw [hempty] at hrun hregistered
  have hcomplete : a.complete now o =
      ({ d.1 with published := some o }, d.2 ++ b.tell (.finished b.subject o.status), true) := by
    simp only [complete, htry, notify, d]
  have hmoments : a.completeMoments now o =
      .finished o :: (b.deliverMoments now o ++ b.lastMoments o) := by
    simp only [completeMoments, htry, notifyMoments]
  rw [hcomplete, hmoments, hempty]
  refine ⟨?_, ?_, ?_, .inr ⟨rfl, o, .intro _ _ hown ?_ ?_⟩⟩
  · have hline : a.line = ⟨a.waiting, none⟩ := by rw [line, hs]; rfl
    rw [hline]
    exact .cons (.finished _ o) (hrun.append (b.run_lastMoments o))
  · rw [List.filterMap_append, hseen, seen_lastMoments, ← List.filter_append]
    rfl
  · have hsame : registrations (.finished o :: (b.deliverMoments now o ++ b.lastMoments o)) =
        registrations (b.deliverMoments now o) := by
      have hlast := registrations_lastMoments o b
      exact (Moment.registrations_append ..).trans (by rw [hlast, List.append_nil])
    rw [hsame]
    exact hregistered
  all_goals
    unfold lastMoments
    split <;> simp

/-- A callback that is registered late is called at once. -/
theorem performed_observe (h : a.AtRest) (now : Nat) (c : Callback τ π) :
    Performed a (a.observe now c).1 c.tags (a.observe now c).2 (a.observeMoments now c) := by
  -- After the end nobody else is in the line, as the action is at rest.
  cases hs : a.stage.outcome? with
  | some o =>
    have ho := Stage.outcome?_eq_some_iff.mp hs
    have hempty := h.callbacks o ho
    have hreact := reactAll_serves now ho (fun _ => hempty) c.reactions
    have hstage := (reactAll_finished now ho c.reactions).stage_eq.trans ho
    simp only [observe, observeMoments, ho, h.isNotifying]
    exact (hreact.pass hempty c.tag).performed hs (Stage.outcome?_eq_some_iff.mpr hstage)
  | none =>
    have hnot := Stage.ne_finished_of_outcome? hs
    have hmoments : a.observeMoments now c = [.registered c.tag] := by
      unfold observeMoments
      split
      · next o ho _ => exact absurd ho (hnot o)
      · rfl
    rw [observe_of_not_finished now c hnot, hmoments]
    exact (Serves.enqueue a c rfl).performed hs hs

omit [DecidableEq π] in
/-- A deed after one that nobody has noticed. -/
theorem Performed.after {tags : List τ} {notes notes' : List (Note τ ρ)} {ms : List (Moment τ ρ)}
    (h : Performed b c tags notes ms) (k : Performed a b [] notes' []) :
    Performed a c tags (notes' ++ notes) ms where
  run := k.run.append h.run
  seen := by rw [List.filterMap_append, k.seen, h.seen, List.filter_nil, List.nil_append]
  registered := by
    have hpromised : b.promised.Perm (a.promised ++ []) := k.registered
    rw [List.append_nil] at hpromised
    exact h.registered.trans (hpromised.append_right tags)
  ends := h.ends

omit [DecidableEq π] in
/-- A start is nothing to those who wait for the end. -/
theorem performed_start (now : Nat) (p : π) (a : Action τ π ρ) :
    Performed a (a.start now p).1 [] (a.start now p).2.1 [] := by
  by_cases hs : a.stage = .idle
  · rw [start_idle now p hs]
    refine .unnoticed ?_ rfl ?_
    · rw [line, line, hs]
      rfl
    · unfold tell
      split <;> rfl
  · obtain ⟨hsame, hnotes⟩ := start_of_not_idle now p hs
    rw [hsame, hnotes]
    exact .unnoticed rfl rfl rfl

/-- A start with nobody to do the work is a start followed by a failure. -/
theorem performed_startUnattended (now : Nat) (p : π) (a : Action τ π ρ) :
    Performed a (a.startUnattended now p).1 [] (a.startUnattended now p).2.1
      (a.moments now (.startUnattended p)) := by
  by_cases hs : a.stage = .idle
  · obtain ⟨hsame, hnotes⟩ := startUnattended_idle now p hs
    have hmoments : a.moments now (.startUnattended p) =
        (a.start now p).1.completeMoments now (.failed unattended) := by
      simp only [moments, start_idle now p hs]
    rw [hsame, hnotes, hmoments]
    exact (performed_complete now (.failed unattended) (a.start now p).1).after
      (performed_start now p a)
  -- Nothing is started, and so nothing fails.
  · obtain ⟨hsame, hnotes⟩ := startUnattended_of_not_idle now p hs
    have hmoments : a.moments now (.startUnattended p) = [] := by
      cases hstage : a.stage with
      | idle => exact absurd hstage hs
      | running | finished => simp only [moments, start, tryStart, hstage]
    rw [hsame, hnotes, hmoments]
    exact .unnoticed rfl rfl rfl

/-- Every deed does to the callbacks of an action what the line allows. -/
theorem AtRest.performed (h : a.AtRest) (now : Nat) (d : Deed τ π ρ) :
    Performed a (a.perform now d).1 d.tags (a.perform now d).2 (a.moments now d) := by
  cases d with
  | nothing => exact .unnoticed rfl rfl rfl
  | start p => exact performed_start now p a
  | startUnattended p => exact performed_startUnattended now p a
  | complete o => exact performed_complete now o a
  | observe c => exact performed_observe h now c

end Action

end Federation
