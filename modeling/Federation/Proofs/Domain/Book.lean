import Federation.Proofs.Domain.Lawful
import Federation.Proofs.Lists

/-!
# The book of a domain

The orders that come to a domain draw tickets, and a `Book` is kept about them: who came, who waits,
who is admitted, and when each of this happened.  An order is admitted when its turn comes, and then
it has the domain to itself until it is released.

The book knows nothing of handles.  What is entered is up to the one who keeps it; but if whoever
waits first is admitted as soon as nobody else is, then the book shows it.

## Key results

- `Book.Tidy`: one order after the other is admitted, in the order of the tickets
- `Book.Prompt`: who is admitted has just come, or the one before has just been released
- `Book.Tidy.come`, `Book.Tidy.part`, `Book.Tidy.follow`: whatever is entered, a book stays tidy
- `Book.Prompt.come`, `Book.Prompt.part`, `Book.Prompt.follow`: it also shows that nobody waits
  for longer than needed
-/

namespace Federation.Domain

variable {η σ α : Type}

/-! ## Marks -/

/-- How an order is released. -/
inductive Exit (α : Type) where
  /-- The call ended. -/
  | ended (e : Ended α)
  /-- The call was given up. -/
  | aborted
  /-- The handle is closed; there was no call. -/
  | closed

/-- The end of the call. -/
def Exit.ended? : Exit α → Option (Ended α)
  | ended e => some e
  | aborted | closed => none

/-- An order may be released like this at an instant. -/
def Exit.Suits (now : Nat) (o : Order η σ α) : Exit α → Prop
  | ended e => e.instant = now ∧ ∃ mode work, o = .call e.id mode work
  | aborted => ∃ id mode work, o = .call id mode work
  | closed => o = .reset

/-- How an order of a domain was released, from what the domain reported meanwhile. -/
def exit (before after : Domain η σ α) : Exit α :=
  match after.ended[before.ended.length]? with
  | some e => .ended e
  | none => .closed

/-- What happens to an order, which is known by its ticket: how many orders came before it. -/
inductive Mark (α : Type) where
  | came (ticket instant : Nat)
  /-- The order is given up while it waits. -/
  | left (ticket instant : Nat)
  | admitted (ticket instant : Nat)
  | released (ticket instant : Nat) (exit : Exit α)

namespace Mark

def instant : Mark α → Nat
  | came _ t | left _ t | admitted _ t | released _ t _ => t

def came? : Mark α → Option Nat
  | came n _ => some n
  | _ => none

def left? : Mark α → Option Nat
  | left n _ => some n
  | _ => none

def admitted? : Mark α → Option Nat
  | admitted n _ => some n
  | _ => none

def released? : Mark α → Option Nat
  | released n _ _ => some n
  | _ => none

/-- The instant of a release. -/
def release? : Mark α → Option Nat
  | released _ t _ => some t
  | _ => none

/-- The end of a call. -/
def ended? : Mark α → Option (Ended α)
  | released _ _ x => x.ended?
  | _ => none

/-- The tickets of the orders that came. -/
def arrivals (ms : List (Mark α)) : List Nat := ms.filterMap came?

/-- The tickets of the orders that were given up while they waited. -/
def departures (ms : List (Mark α)) : List Nat := ms.filterMap left?

/-- The tickets of the orders that were admitted. -/
def admissions (ms : List (Mark α)) : List Nat := ms.filterMap admitted?

/-- The tickets of the orders that were released. -/
def releases (ms : List (Mark α)) : List Nat := ms.filterMap released?

/-- When an order was last released. -/
def lastRelease? (ms : List (Mark α)) : Option Nat := (ms.filterMap release?).getLast?

/-- The marks are in the order of time, and whoever is admitted has just come, or the one before has
    just been released. -/
structure Timely (now : Nat) (ms : List (Mark α)) : Prop where
  sorted : (ms.map instant).Pairwise (· ≤ ·)
  le_now : ∀ m ∈ ms, m.instant ≤ now
  admitted : ∀ before after n t, ms = before ++ .admitted n t :: after →
    .came n t ∈ before ∨ lastRelease? before = some t

/-! ### Marks that are added -/

variable {now : Nat} {ms new : List (Mark α)}

/-- The arrivals of one stretch after another. -/
theorem arrivals_append (ms ns : List (Mark α)) :
    arrivals (ms ++ ns) = arrivals ms ++ arrivals ns := List.filterMap_append

/-- The departures of one stretch after another. -/
theorem departures_append (ms ns : List (Mark α)) :
    departures (ms ++ ns) = departures ms ++ departures ns := List.filterMap_append

/-- The admissions of one stretch after another. -/
theorem admissions_append (ms ns : List (Mark α)) :
    admissions (ms ++ ns) = admissions ms ++ admissions ns := List.filterMap_append

/-- The releases of one stretch after another. -/
theorem releases_append (ms ns : List (Mark α)) :
    releases (ms ++ ns) = releases ms ++ releases ns := List.filterMap_append

/-- Marks without a release leave the last release as it was. -/
theorem lastRelease?_append_of_not_release (h : new.filterMap release? = []) :
    lastRelease? (ms ++ new) = lastRelease? ms := by
  rw [lastRelease?, List.filterMap_append, h, List.append_nil, lastRelease?]

/-- The last release is the one just marked. -/
theorem lastRelease?_concat (n t : Nat) (x : Exit α) :
    lastRelease? (ms ++ [.released n t x]) = some t := by
  rw [lastRelease?, List.filterMap_append]
  exact List.getLast?_concat

/-- What passes over departures finds nothing in a run of them. -/
theorem filterMap_left {β : Type} {f : Mark α → Option β} {t : Nat} (hf : ∀ n, f (.left n t) = none)
    (ns : List Nat) : (ns.map (Mark.left · t)).filterMap f = [] := by
  rw [List.filterMap_map]
  exact List.filterMap_eq_nil_iff.mpr fun n _ => hf n

/-- A run of departures is those who left. -/
theorem departures_left (ns : List Nat) (t : Nat) :
    departures (ns.map (Mark.left · t) : List (Mark α)) = ns := by
  rw [departures, List.filterMap_map]
  exact List.filterMap_some

/-- New marks keep a list timely if they are of the present instant and each admission among them
    has its reason before it. -/
theorem Timely.append (h : Timely now ms) (hnew : ∀ m ∈ new, m.instant = now)
    (hadmitted : ∀ before after n t, new = before ++ .admitted n t :: after →
      .came n t ∈ ms ++ before ∨ lastRelease? (ms ++ before) = some t) :
    Timely now (ms ++ new) where
  sorted := by
    rw [List.map_append, List.pairwise_append]
    refine ⟨h.sorted, ?_, fun t ht t' ht' => ?_⟩
    · rw [List.pairwise_map]
      refine List.pairwise_of_forall_mem_list fun m hm m' hm' => ?_
      exact Nat.le_of_eq ((hnew m hm).trans (hnew m' hm').symm)
    · obtain ⟨m, hm, rfl⟩ := List.mem_map.mp ht
      obtain ⟨m', hm', rfl⟩ := List.mem_map.mp ht'
      rw [hnew m' hm']
      exact h.le_now m hm
  le_now m hm := by
    rcases List.mem_append.mp hm with hm | hm
    · exact h.le_now m hm
    · exact Nat.le_of_eq (hnew m hm)
  admitted before after n t heq := by
    -- The admission is an old one, or one of the new marks.
    rcases append_eq_append_cons heq with ⟨rest, hms⟩ | ⟨rest, rfl, hnew'⟩
    · exact h.admitted before rest n t hms
    · exact hadmitted rest after n t hnew'

/-- If nobody is admitted, the marks only have to be in the order of time. -/
theorem Timely.append_of_not_admitted (h : Timely now ms) (hnew : ∀ m ∈ new, m.instant = now)
    (hadmitted : new.filterMap admitted? = []) : Timely now (ms ++ new) := by
  refine h.append hnew fun before after n t heq => ?_
  have hmem : .admitted n t ∈ new := heq ▸ List.mem_append_right _ List.mem_cons_self
  exact nomatch List.filterMap_eq_nil_iff.mp hadmitted _ hmem

/-- Marks stay timely as time goes on. -/
theorem Timely.mono (h : Timely now ms) {later : Nat} (hle : now ≤ later) : Timely later ms :=
  ⟨h.sorted, fun m hm => Nat.le_trans (h.le_now m hm) hle, h.admitted⟩

end Mark

/-! ## Books -/

/-- What is known about the orders of a domain. -/
structure Book (η σ α : Type) where
  now : Nat := 0
  /-- The orders that came, by their tickets. -/
  orders : List (Order η σ α) := []
  /-- The tickets of the orders that wait. -/
  waiting : List Nat := []
  /-- The ticket of the order that is admitted. -/
  holder : Option Nat := none
  marks : List (Mark α) := []

namespace Book

/-- An order comes. -/
def come (o : Order η σ α) (b : Book η σ α) : Book η σ α :=
  { b with
    orders := b.orders ++ [o]
    waiting := b.waiting ++ [b.orders.length]
    marks := b.marks ++ [.came b.orders.length b.now] }

/-- Some of the orders that wait are given up. -/
def part (gone : Nat → Bool) (b : Book η σ α) : Book η σ α :=
  { b with
    waiting := b.waiting.filter fun n => !gone n
    marks := b.marks ++ (b.waiting.filter gone).map (.left · b.now) }

/-- The first of the orders that wait is admitted. -/
def letIn (b : Book η σ α) : Book η σ α :=
  match b.waiting with
  | [] => b
  | n :: rest =>
    { b with waiting := rest, holder := some n, marks := b.marks ++ [.admitted n b.now] }

/-- The order that is admitted is released. -/
def release (exit : Exit α) (b : Book η σ α) : Book η σ α :=
  match b.holder with
  | none => b
  | some n => { b with holder := none, marks := b.marks ++ [.released n b.now exit] }

/-- A turn leads a domain from one state to another.  If nobody was admitted, somebody is; and who
    has no lease afterwards is released. -/
def follow (before after : Domain η σ α) (b : Book η σ α) : Book η σ α :=
  let b := if before.lease.isSome then b else b.letIn
  if after.lease.isSome then b else b.release (before.exit after)

/-- One after the other is admitted, in the order of the tickets. -/
structure Tidy (b : Book η σ α) : Prop where
  arrivals : Mark.arrivals b.marks = List.range b.orders.length
  departures : ∀ n ∈ Mark.departures b.marks, n < b.orders.length
  line : Mark.admissions b.marks ++ b.waiting =
    (List.range b.orders.length).filter (· ∉ Mark.departures b.marks)
  releases : Mark.admissions b.marks = Mark.releases b.marks ++ b.holder.toList

/-- Nobody waits for longer than needed. -/
structure Prompt (b : Book η σ α) : Prop where
  timely : Mark.Timely b.now b.marks
  idle : b.holder = none → ∀ n ∈ b.waiting,
    .came n b.now ∈ b.marks ∨ Mark.lastRelease? b.marks = some b.now

/-! ### In line -/

variable {b : Book η σ α}

/-- Nobody is both admitted and waiting, and nobody is so twice. -/
theorem Tidy.nodup (h : b.Tidy) : (Mark.admissions b.marks ++ b.waiting).Nodup :=
  h.line ▸ List.nodup_range.filter _

/-- Who waits is the number of an order that came. -/
theorem Tidy.lt_of_waiting (h : b.Tidy) {n : Nat} (hn : n ∈ b.waiting) : n < b.orders.length := by
  have hmem : n ∈ Mark.admissions b.marks ++ b.waiting := List.mem_append_right _ hn
  rw [h.line, List.mem_filter, List.mem_range] at hmem
  exact hmem.1

/-- An order that comes keeps a book tidy. -/
theorem Tidy.come (h : b.Tidy) (o : Order η σ α) : (b.come o).Tidy := by
  have harrivals : Mark.arrivals (b.come o).marks = Mark.arrivals b.marks ++ [b.orders.length] :=
    Mark.arrivals_append _ _
  have hdepartures : Mark.departures (b.come o).marks = Mark.departures b.marks :=
    (Mark.departures_append _ _).trans (List.append_nil _)
  have hadmissions : Mark.admissions (b.come o).marks = Mark.admissions b.marks :=
    (Mark.admissions_append _ _).trans (List.append_nil _)
  have hreleases : Mark.releases (b.come o).marks = Mark.releases b.marks :=
    (Mark.releases_append _ _).trans (List.append_nil _)
  have hlength : (b.come o).orders.length = b.orders.length + 1 := List.length_append
  have hnew : b.orders.length ∉ Mark.departures b.marks := fun hn =>
    Nat.lt_irrefl _ (h.departures _ hn)
  refine ⟨?arrivals, fun n hn => ?departures, ?line, ?releases⟩
  case arrivals => rw [harrivals, h.arrivals, hlength, List.range_succ]
  case departures =>
    rw [hdepartures] at hn
    rw [hlength]
    exact Nat.lt_succ_of_lt (h.departures n hn)
  case line =>
    -- The new ticket is the last one.
    rw [hadmissions, hdepartures, hlength, List.range_succ, List.filter_append, ← h.line]
    simp [Book.come, hnew]
  case releases =>
    rw [hadmissions, hreleases]
    exact h.releases

/-- Orders that are given up do nothing else. -/
theorem filterMap_part {β : Type} {f : Mark α → Option β} (hf : ∀ n, f (.left n b.now) = none)
    (gone : Nat → Bool) : (b.part gone).marks.filterMap f = b.marks.filterMap f := by
  rw [part, List.filterMap_append, Mark.filterMap_left hf, List.append_nil]

/-- Those who leave the line keep a book tidy. -/
theorem Tidy.part (h : b.Tidy) (gone : Nat → Bool) : (b.part gone).Tidy := by
  have harrivals : Mark.arrivals (b.part gone).marks = Mark.arrivals b.marks :=
    filterMap_part (fun _ => rfl) gone
  have hdepartures : Mark.departures (b.part gone).marks =
      Mark.departures b.marks ++ b.waiting.filter gone := by
    rw [Book.part, Mark.departures_append, Mark.departures_left]
  have hadmissions : Mark.admissions (b.part gone).marks = Mark.admissions b.marks :=
    filterMap_part (fun _ => rfl) gone
  have hreleases : Mark.releases (b.part gone).marks = Mark.releases b.marks :=
    filterMap_part (fun _ => rfl) gone
  refine ⟨harrivals.trans h.arrivals, fun n hn => ?departures, ?line, ?releases⟩
  case departures =>
    rw [hdepartures] at hn
    rcases List.mem_append.mp hn with hn | hn
    · exact h.departures n hn
    · exact h.lt_of_waiting (List.mem_filter.mp hn).1
  -- Whoever leaves goes from those who wait to those who departed.
  case line =>
    rw [hadmissions, hdepartures]
    exact append_filter_not h.line h.nodup gone
  case releases =>
    rw [hadmissions, hreleases]
    exact h.releases

/-- A book stays tidy if somebody goes from those who wait to those who are admitted, or from these
    to those who are released. -/
theorem Tidy.move {b' : Book η σ α} (h : b.Tidy) (horders : b'.orders = b.orders)
    (harrivals : Mark.arrivals b'.marks = Mark.arrivals b.marks)
    (hdepartures : Mark.departures b'.marks = Mark.departures b.marks)
    (hline : Mark.admissions b'.marks ++ b'.waiting = Mark.admissions b.marks ++ b.waiting)
    (hreleases : Mark.admissions b'.marks = Mark.releases b'.marks ++ b'.holder.toList) :
    b'.Tidy where
  arrivals := by rw [harrivals, horders, h.arrivals]
  departures := by
    rw [hdepartures, horders]
    exact h.departures
  line := by rw [hline, horders, hdepartures, h.line]
  releases := hreleases

/-- Letting the first one in keeps a book tidy. -/
theorem Tidy.letIn (h : b.Tidy) (hfree : b.holder = none) : b.letIn.Tidy := by
  unfold Book.letIn
  split
  · exact h
  · next n rest hwaiting =>
    have hadmissions : Mark.admissions (b.marks ++ [.admitted n b.now]) =
        Mark.admissions b.marks ++ [n] := Mark.admissions_append _ _
    have hreleases : Mark.releases (b.marks ++ [.admitted n b.now]) = Mark.releases b.marks :=
      (Mark.releases_append _ _).trans (List.append_nil _)
    -- The first one in line moves from those who wait to those who were admitted.
    refine h.move rfl ((Mark.arrivals_append _ _).trans (List.append_nil _))
      ((Mark.departures_append _ _).trans (List.append_nil _)) ?line ?releases
    case line => rw [hadmissions, hwaiting, List.append_assoc, List.singleton_append]
    case releases =>
      rw [hadmissions, hreleases, h.releases, hfree, Option.toList_none, List.append_nil]
      rfl

/-- Releasing the holder keeps a book tidy. -/
theorem Tidy.release (h : b.Tidy) (x : Exit α) : (b.release x).Tidy := by
  unfold Book.release
  split
  · exact h
  · next n hholder =>
    have hadmissions : Mark.admissions (b.marks ++ [.released n b.now x]) =
        Mark.admissions b.marks := (Mark.admissions_append _ _).trans (List.append_nil _)
    have hreleases : Mark.releases (b.marks ++ [.released n b.now x]) =
        Mark.releases b.marks ++ [n] := Mark.releases_append _ _
    -- Nobody moves in the line; the one who was the holder counts as released.
    refine h.move rfl ((Mark.arrivals_append _ _).trans (List.append_nil _))
      ((Mark.departures_append _ _).trans (List.append_nil _)) ?line ?releases
    case line => rw [hadmissions]
    case releases =>
      rw [hadmissions, hreleases, h.releases, hholder, Option.toList_none, List.append_nil]
      rfl

/-- A book stays tidy while a domain has a turn, if nobody is admitted when no handle is lent. -/
theorem Tidy.follow (h : b.Tidy) {before : Domain η σ α}
    (hfree : before.lease = none → b.holder = none) (after : Domain η σ α) :
    (b.follow before after).Tidy := by
  -- Somebody is let in first, if the turn began with no handle lent.
  have hbegin : (if before.lease.isSome then b else b.letIn).Tidy := by
    split
    · exact h
    · next hlease => exact h.letIn (hfree (by simpa using hlease))
  unfold Book.follow
  dsimp only
  split
  · exact hbegin
  · exact hbegin.release _

/-! ### Without delay -/

/-- An order that comes keeps a book prompt, since it comes at the present instant. -/
theorem Prompt.come (h : b.Prompt) (o : Order η σ α) : (b.come o).Prompt where
  timely := h.timely.append_of_not_admitted (by simp [Mark.instant]) rfl
  idle hfree n hn := by
    -- Who waited before was prompt already, and who comes now has arrived at this instant.
    rcases List.mem_append.mp hn with hn | hn
    · have hlast : Mark.lastRelease? (b.come o).marks = Mark.lastRelease? b.marks :=
        Mark.lastRelease?_append_of_not_release rfl
      rw [hlast]
      exact (h.idle hfree n hn).imp_left (List.mem_append_left _)
    · obtain rfl := List.mem_singleton.mp hn
      exact .inl (List.mem_append_right _ List.mem_cons_self)

/-- Those who leave the line keep a book prompt. -/
theorem Prompt.part (h : b.Prompt) (gone : Nat → Bool) : (b.part gone).Prompt where
  timely := by
    refine h.timely.append_of_not_admitted (fun m hm => ?_) (Mark.filterMap_left (fun _ => rfl) _)
    obtain ⟨n, -, rfl⟩ := List.mem_map.mp hm
    rfl
  idle hfree n hn := by
    -- Nobody is released by this, so the last release is the one from before.
    have hlast : Mark.lastRelease? (b.part gone).marks = Mark.lastRelease? b.marks :=
      Mark.lastRelease?_append_of_not_release (Mark.filterMap_left (fun _ => rfl) _)
    rw [hlast]
    exact (h.idle hfree n (List.mem_filter.mp hn).1).imp_left (List.mem_append_left _)

/-- Letting the first one in keeps a book prompt, since nobody has the handle. -/
theorem Prompt.letIn (h : b.Prompt) (hfree : b.holder = none) : b.letIn.Prompt := by
  unfold Book.letIn
  split
  · exact h
  · next n rest hwaiting =>
    refine ⟨h.timely.append (by simp [Mark.instant]) fun before after m t heq => ?_, nofun⟩
    -- Nobody was admitted, so the first one has just come, or the last one has just been released.
    cases before with
    | cons m before => simp at heq
    | nil =>
      obtain ⟨rfl, rfl⟩ := Mark.admitted.inj (List.cons.inj heq).1
      rw [List.append_nil]
      exact h.idle hfree n (hwaiting ▸ List.mem_cons_self)

/-- Releasing the holder keeps a book prompt, since the next may be let in at once. -/
theorem Prompt.release (h : b.Prompt) (x : Exit α) : (b.release x).Prompt := by
  unfold Book.release
  split
  · exact h
  · next n hholder =>
    refine ⟨h.timely.append_of_not_admitted (by simp [Mark.instant]) rfl, fun _ m _ => .inr ?_⟩
    exact Mark.lastRelease?_concat n b.now x

/-- Time passes if nobody waits, or somebody is admitted. -/
theorem Prompt.pass (h : b.Prompt) (hidle : b.holder = none → b.waiting = []) (now : Nat)
    (hnow : b.now ≤ now) : ({ b with now := now } : Book η σ α).Prompt where
  timely := h.timely.mono hnow
  idle hfree n hn := by
    have hnil : b.waiting = [] := hidle hfree
    exact absurd (hnil ▸ hn) List.not_mem_nil

/-- Letting somebody in takes no time. -/
theorem now_letIn (b : Book η σ α) : b.letIn.now = b.now := by
  unfold letIn
  split <;> rfl

/-- Releasing somebody takes no time. -/
theorem now_release (x : Exit α) (b : Book η σ α) : (b.release x).now = b.now := by
  unfold release
  split <;> rfl

/-- Following a turn takes no time. -/
theorem now_follow (before after : Domain η σ α) (b : Book η σ α) :
    (b.follow before after).now = b.now := by
  unfold follow
  split <;> split <;> simp only [now_release, now_letIn]

/-- A book that follows a turn stays prompt. -/
theorem Prompt.follow (h : b.Prompt) {before : Domain η σ α}
    (hfree : before.lease = none → b.holder = none) (after : Domain η σ α) :
    (b.follow before after).Prompt := by
  -- As with tidiness, the admission comes before the release.
  have hbegin : (if before.lease.isSome then b else b.letIn).Prompt := by
    split
    · exact h
    · next hlease => exact h.letIn (hfree (by simpa using hlease))
  unfold Book.follow
  dsimp only
  split
  · exact hbegin
  · exact hbegin.release _

/-! ### One entry more -/

/-- Letting somebody in brings no order. -/
theorem orders_letIn (b : Book η σ α) : b.letIn.orders = b.orders := by
  unfold letIn
  split <;> rfl

/-- Releasing somebody brings no order. -/
theorem orders_release (x : Exit α) (b : Book η σ α) : (b.release x).orders = b.orders := by
  unfold release
  split <;> rfl

/-- A turn brings no orders. -/
theorem orders_follow (before after : Domain η σ α) (b : Book η σ α) :
    (b.follow before after).orders = b.orders := by
  unfold follow
  split <;> split <;> simp only [orders_release, orders_letIn]

/-- Releasing somebody admits nobody. -/
theorem admissions_release (x : Exit α) (b : Book η σ α) :
    Mark.admissions (b.release x).marks = Mark.admissions b.marks := by
  unfold release
  split
  · rfl
  · exact (Mark.admissions_append _ _).trans (List.append_nil _)

/-- Only the first one who waits is let in. -/
theorem admissions_letIn (b : Book η σ α) :
    Mark.admissions b.letIn.marks = Mark.admissions b.marks ++ b.waiting.head?.toList := by
  unfold letIn
  split
  · next hnil => rw [hnil, List.head?_nil, Option.toList_none, List.append_nil]
  · next n rest hcons =>
    rw [hcons]
    exact Mark.admissions_append _ _

/-- A turn admits nobody if the handle is lent. -/
theorem admissions_follow_of_lease {before : Domain η σ α} (h : before.lease.isSome = true)
    (after : Domain η σ α) (b : Book η σ α) :
    Mark.admissions (b.follow before after).marks = Mark.admissions b.marks := by
  unfold follow
  rw [if_pos h]
  split
  · rfl
  · exact admissions_release _ b

/-- Otherwise it admits the first one who waits. -/
theorem admissions_follow_of_no_lease {before : Domain η σ α} (h : before.lease = none)
    (after : Domain η σ α) (b : Book η σ α) :
    Mark.admissions (b.follow before after).marks =
      Mark.admissions b.marks ++ b.waiting.head?.toList := by
  unfold follow
  rw [h, Option.isSome_none, if_neg Bool.false_ne_true, ← admissions_letIn]
  split
  · rfl
  · exact admissions_release _ _

end Book

end Federation.Domain
