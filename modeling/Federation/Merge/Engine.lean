import Federation.LogicalUser
import Federation.Merge.Priority

/-! # Merging records

An `Engine` combines the records of several providers into a `LogicalUser`.  The records are
brought into the order of priority, and each property is resolved on its own from its *candidates*:
the reported values that pass the property's check.  A value that does not pass is left out with a
warning, as if it had not been reported.

* `get_merge` — each property is resolved from its candidates alone.
* `candidates_append` — candidates, warnings and support are read record by record. -/

namespace Federation.Merge

/-- How the values of a property are combined. -/
inductive Strategy where
  /-- The value of highest priority wins. -/
  | firstSet
  /-- The lists are united.  Properties without a list are resolved as by `firstSet`. -/
  | union
  deriving DecidableEq, Repr

namespace Strategy

instance : Inhabited Strategy := ⟨firstSet⟩

/-- Every strategy. -/
def all : List Strategy := [firstSet, union]

/-- The name of a strategy in documents. -/
def name : Strategy → String
  | firstSet => "first_set"
  | union => "union"

/-- The name of a strategy in diagnostics. -/
def caption : Strategy → String
  | firstSet => "FirstSet"
  | union => "Union"

end Strategy

/-- A reported value and its provider. -/
structure Candidate where
  provider : ProviderId
  value : Value
  deriving DecidableEq, Repr

/-- What one record contributes to a property. -/
def candidate? (p : Property) (r : Record) : Option Candidate :=
  match r.get p with
  | .set v =>
    match p.check v with
    | .ok () => some ⟨r.provider, v⟩
    | .error _ => none
  | _ => none

/-- The warning that one record gives rise to. -/
def warning? (p : Property) (r : Record) : Option MergeWarning :=
  match r.get p with
  | .set v =>
    match p.check v with
    | .ok () => none
    | .error e => some ⟨p, r.provider, e⟩
  | _ => none

/-- The usable values of a property. -/
def candidates (p : Property) (ordered : List Record) : List Candidate :=
  ordered.filterMap (candidate? p)

/-- The warnings about a property. -/
def warnings (p : Property) (ordered : List Record) : List MergeWarning :=
  ordered.filterMap (warning? p)

/-- Which providers can report a property. -/
def support (p : Property) (ordered : List Record) : Support where
  setBy := (candidates p ordered).map Candidate.provider
  unsupportedBy := (ordered.filter fun r => (r.get p).isUnsupported).map Record.provider
  unsetBy := (ordered.filter fun r => (r.get p).isUnset).map Record.provider

theorem candidates_append (p : Property) (rs ss : List Record) :
    candidates p (rs ++ ss) = candidates p rs ++ candidates p ss :=
  List.filterMap_append

theorem warnings_append (p : Property) (rs ss : List Record) :
    warnings p (rs ++ ss) = warnings p rs ++ warnings p ss :=
  List.filterMap_append

/-- The first value wins.  If `contested`, later providers with another value are listed. -/
def resolveFirst (contested : Bool) : List Candidate → Resolution
  | [] => .notReported
  | c :: rest =>
    .resolved c.value (.provider c.provider)
      (if contested then (rest.filter fun d => d.value ≠ c.value).map Candidate.provider else [])

/-- The items of some lists, each at its first place only. -/
def unite (lists : List (List String)) : List String :=
  lists.flatten.foldl (fun seen x => if seen.contains x then seen else seen ++ [x]) []

/-- The union of the values.  It is empty if none of them is a list. -/
def resolveUnion (cs : List Candidate) : Resolution :=
  if cs.isEmpty then .notReported
  else
    let lists := cs.filterMap fun c => c.value.asTextList?
    .resolved (if lists.isEmpty then .null else .textList (unite lists))
      (.union (cs.map Candidate.provider)) []

/-- A merge priority and a strategy for each property. -/
structure Engine where
  priority : Priority := {}
  strategies : Table Property Strategy := Table.empty

namespace Engine

/-- The strategy of a property; the first value wins where nothing else is chosen. -/
def strategy (e : Engine) (p : Property) : Strategy := (e.strategies.get? p).getD default

/-- Choose the strategy of a property. -/
def withStrategy (e : Engine) (p : Property) (s : Strategy) : Engine :=
  { e with strategies := e.strategies.insert p s }

/-- How a property is resolved from its candidates. -/
def resolve (e : Engine) (p : Property) (cs : List Candidate) : Resolution :=
  if e.strategy p = .union ∧ p.kind = .textList then resolveUnion cs
  else resolveFirst (!p.isLocal) cs

/-- Merge records about one user. -/
def merge (e : Engine) (rs : List Record) : LogicalUser :=
  let ordered := e.priority.order rs
  -- Every property sees all records, whatever became of the others.
  { get := fun p => e.resolve p (candidates p ordered)
    support := fun p => Merge.support p ordered
    warnings := Property.all.flatMap fun p => Merge.warnings p ordered
    accounts := ordered.map Record.account }

theorem get_merge (e : Engine) (rs : List Record) (p : Property) :
    (e.merge rs).get p = e.resolve p (candidates p (e.priority.order rs)) := rfl

theorem sources_merge (e : Engine) (rs : List Record) :
    (e.merge rs).sources = (e.priority.order rs).map Record.provider := by
  rw [LogicalUser.sources, merge, List.map_map]
  rfl

theorem strategy_withStrategy (e : Engine) (p q : Property) (s : Strategy) :
    (e.withStrategy p s).strategy q = if q = p then s else e.strategy q := by
  simp only [strategy, withStrategy, Table.get?_insert]
  split <;> rfl

/-- The engine as diagnostics show it. -/
def inspect (e : Engine) : String :=
  let ranks := e.priority.ranks.entries.map fun r => r.1.inspect ++ ": " ++ toString r.2
  let strategies := e.strategies.entries.map fun s => s.1.caption ++ ": " ++ s.2.caption
  "MergeEngine \x7b priority: ProviderPriority \x7b ranks: \x7b" ++
    String.intercalate ", " ranks ++ "\x7d \x7d, strategies: \x7b" ++
    String.intercalate ", " strategies ++ "\x7d \x7d"

end Engine

end Federation.Merge
