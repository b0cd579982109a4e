import Federation.Action.Outcome
import Federation.Subject
import Federation.Table

/-! # Groups of actions

A `Group` keeps actions about any subjects together and finds them by subject.  Several actions may
be about one subject, such as successive attempts; they stay in the order in which they came.  An
action is known to the group by a number, by which its status can be asked for, and by the form of
its parameters and results.

* `get_insert` — an insertion puts the action behind the others about its subject.
* `mem_members_prune` — pruning keeps exactly the actions that have not ended. -/

namespace Federation

/-- An action in a group. -/
structure Group.Member (φ : Type) where
  id : Nat
  /-- The form of the action's parameters and results. -/
  form : φ
  deriving DecidableEq, Repr

/-- Actions by subject.  No subject is without actions. -/
structure Group (φ : Type) where
  buckets : Table Subject (List (Group.Member φ)) := Table.empty

namespace Group

variable {φ σ : Type}

/-- The group without actions. -/
def empty : Group φ := {}

/-- The actions about a subject, oldest first. -/
def get (g : Group φ) (s : Subject) : List (Member φ) := (g.buckets.get? s).getD []

/-- Add an action. -/
def insert (s : Subject) (m : Member φ) (g : Group φ) : Group φ :=
  ⟨g.buckets.insert s (g.get s ++ [m])⟩

/-- Every action, subject by subject. -/
def members (g : Group φ) : List (Member φ) := g.buckets.entries.flatMap Prod.snd

/-- The number of actions. -/
def size (g : Group φ) : Nat := g.members.length

/-- Whether there are no actions. -/
def isEmpty (g : Group φ) : Bool := g.size = 0

/-- The newest action about a subject that has a form. -/
def find? [DecidableEq φ] (g : Group φ) (s : Subject) (form : φ) : Option Nat :=
  ((g.get s).reverse.find? fun m => m.form = form).map Member.id

/-- How many actions run, given the status of each. -/
def running (status : Nat → Status) (g : Group φ) : Nat :=
  g.members.countP fun m => status m.id = .running

/-- Cancel every action that runs, given how one is cancelled; also tell how many there were. -/
def cancelAll (cancel : Nat → σ → σ × Bool) (g : Group φ) (s : σ) : σ × Nat :=
  g.members.foldl
    (fun (s, n) m =>
      let r := cancel m.id s
      (r.1, if r.2 then n + 1 else n))
    (s, 0)

/-- The actions that everyone waits for: those that have been started, given the status of each. -/
def started (status : Nat → Status) (g : Group φ) : List (Member φ) :=
  g.members.filter fun m => status m.id ≠ .idle

/-- A subject with those of its actions that are kept, unless none is. -/
def keep (kept : Member φ → Bool) (e : Subject × List (Member φ)) :
    Option (Subject × List (Member φ)) :=
  match e.2.filter kept with
  | [] => none
  | m :: ms => some (e.1, m :: ms)

/-- Drop every action that has ended, given the status of each. -/
def prune (status : Nat → Status) (g : Group φ) : Group φ :=
  ⟨⟨g.buckets.entries.filterMap (keep fun m => !(status m.id).isTerminal)⟩⟩

theorem get_insert (s q : Subject) (m : Member φ) (g : Group φ) :
    (g.insert s m).get q = if q = s then g.get s ++ [m] else g.get q := by
  simp only [get, insert, Table.get?_insert]
  split <;> rfl

theorem members_prune (status : Nat → Status) (g : Group φ) :
    (g.prune status).members = g.members.filter fun m => !(status m.id).isTerminal := by
  simp only [members, prune]
  induction g.buckets.entries with
  | nil => rfl
  | cons e es ih =>
    rw [List.filterMap_cons, List.flatMap_cons, List.filter_append, ← ih]
    unfold keep
    cases h : e.2.filter fun m => !(status m.id).isTerminal <;> simp

theorem mem_members_prune {status : Nat → Status} {g : Group φ} {m : Member φ} :
    m ∈ (g.prune status).members ↔ m ∈ g.members ∧ (status m.id).isTerminal = false := by
  simp [members_prune]

end Group

end Federation
