import Federation.ProviderId
import Federation.Span

/-! # Faults

Everything that can go wrong is a `Cause`; a `Fault` is one cause or an ordered collection of
faults.  The text of a fault is `Fault.message`, and nothing else words one.

`FaultList` collects the independent failures of one piece of work.  Adding a collection adds its
members, so that collections do not pile up.

* `leaves_collection` — the causes of a collection are those of its members, in order.
* `toFault?_eq_none_iff` — only the empty list yields no fault. -/

namespace Federation

/-- One thing that went wrong. -/
inductive Cause where
  /-- The action is running already. -/
  | alreadyInProgress
  /-- The action has no outcome yet. -/
  | notFinished
  /-- The operation took longer than it was allowed to. -/
  | timeout (operation : String) (limit : Span)
  /-- The provider is not able to do this. -/
  | unsupportedOperation (provider : ProviderId) (operation : String)
  /-- No provider has this identifier. -/
  | unknownProvider (provider : ProviderId)
  /-- The operation was cancelled. -/
  | cancelled
  /-- The provider does not know its local id of the user that `source` names. -/
  | cannotInferLocalId (provider : ProviderId) (source : String)
  /-- The provider failed. -/
  | provider (provider : ProviderId) (message : String)
  /-- The handle of an access domain could not be used.  There is no message if the call that had
      the handle broke off. -/
  | domainUnavailable (domain : String) (message : Option String)
  /-- The configuration is not acceptable. -/
  | invalidConfiguration (message : String)
  /-- Something that must not happen. -/
  | internal (message : String)
  deriving DecidableEq, Repr

/-- The text of a cause. -/
def Cause.message : Cause → String
  | alreadyInProgress => "Operation already in progress"
  | notFinished => "Operation is not finished"
  | timeout operation limit => s!"Operation '{operation}' timed out after {limit.text}"
  | unsupportedOperation p operation =>
    s!"Provider '{p}' does not support operation '{operation}'"
  | unknownProvider p => s!"Unknown provider '{p}'"
  | cancelled => "Operation cancelled"
  | cannotInferLocalId p source => s!"Provider '{p}' cannot infer a local id from '{source}'"
  | provider p message => s!"Provider '{p}' error: {message}"
  | domainUnavailable domain message =>
    s!"Access domain '{domain}' unavailable: " ++ message.getD "the call broke off"
  | invalidConfiguration message => s!"Invalid configuration: {message}"
  | internal message => s!"Internal error: {message}"

/-- A failure: one cause, or a collection of failures. -/
inductive Fault where
  | one (c : Cause)
  | collection (faults : List Fault)
  deriving Repr

namespace Fault

mutual
/-- Equality of faults is decided by structure. -/
def decEq : (a b : Fault) → Decidable (a = b)
  | one c, one d =>
    if h : c = d then isTrue (h ▸ rfl) else isFalse fun e => h (Fault.one.inj e)
  | collection fs, collection gs =>
    match decEqList fs gs with
    | isTrue h => isTrue (h ▸ rfl)
    | isFalse h => isFalse fun e => h (Fault.collection.inj e)
  | one _, collection _ => isFalse Fault.noConfusion
  | collection _, one _ => isFalse Fault.noConfusion
/-- Equality of lists of faults is decided by structure. -/
def decEqList : (fs gs : List Fault) → Decidable (fs = gs)
  | [], [] => isTrue rfl
  | f :: fs, g :: gs =>
    match decEq f g, decEqList fs gs with
    | isTrue h, isTrue hs => isTrue (h ▸ hs ▸ rfl)
    | isFalse h, _ => isFalse fun e => h (List.cons.inj e).1
    | _, isFalse hs => isFalse fun e => hs (List.cons.inj e).2
  | [], _ :: _ => isFalse fun e => (List.cons_ne_nil _ _ e.symm).elim
  | _ :: _, [] => isFalse fun e => (List.cons_ne_nil _ _ e).elim
end

instance : DecidableEq Fault := decEq

instance : Inhabited Fault := ⟨one .cancelled⟩

@[match_pattern] abbrev alreadyInProgress : Fault := one .alreadyInProgress
@[match_pattern] abbrev notFinished : Fault := one .notFinished
@[match_pattern] abbrev timeout (operation : String) (limit : Span) : Fault :=
  one (.timeout operation limit)
@[match_pattern] abbrev unsupportedOperation (p : ProviderId) (operation : String) : Fault :=
  one (.unsupportedOperation p operation)
@[match_pattern] abbrev unknownProvider (p : ProviderId) : Fault := one (.unknownProvider p)
@[match_pattern] abbrev cancelled : Fault := one .cancelled
@[match_pattern] abbrev cannotInferLocalId (p : ProviderId) (source : String) : Fault :=
  one (.cannotInferLocalId p source)
@[match_pattern] abbrev provider (p : ProviderId) (message : String) : Fault :=
  one (.provider p message)
@[match_pattern] abbrev domainUnavailable (domain message : String) : Fault :=
  one (.domainUnavailable domain (some message))
@[match_pattern] abbrev brokenOff (domain : String) : Fault := one (.domainUnavailable domain none)
@[match_pattern] abbrev invalidConfiguration (message : String) : Fault :=
  one (.invalidConfiguration message)
@[match_pattern] abbrev internal (message : String) : Fault := one (.internal message)

mutual
/-- The text of a fault.  A collection tells the number of its members and then their texts. -/
def message : Fault → String
  | one c => c.message
  | collection fs => s!"{fs.length} error(s)" ++ memberText true fs
/-- The texts of the members of a collection, each after its separator. -/
def memberText : (first : Bool) → List Fault → String
  | _, [] => ""
  | first, f :: fs => (if first then ": " else "; ") ++ f.message ++ memberText false fs
end

mutual
/-- The causes of a fault, from left to right. -/
def leaves : Fault → List Cause
  | one c => [c]
  | collection fs => leavesOfList fs
/-- The causes of several faults, from left to right. -/
def leavesOfList : List Fault → List Cause
  | [] => []
  | f :: fs => f.leaves ++ leavesOfList fs
end

theorem leavesOfList_eq (fs : List Fault) : leavesOfList fs = fs.flatMap leaves := by
  induction fs with
  | nil => rfl
  | cons f fs ih => simp [leavesOfList, ih]

@[simp] theorem leaves_one (c : Cause) : (one c).leaves = [c] := rfl

@[simp] theorem leaves_collection (fs : List Fault) :
    (collection fs).leaves = fs.flatMap leaves := by
  rw [leaves, leavesOfList_eq]

mutual
/-- Whether the last thing that went wrong is that a local id could not be inferred: then another
    attempt with an inferred id is worth while. -/
def isCannotInfer : Fault → Bool
  | one (.cannotInferLocalId ..) => true
  | one _ => false
  | collection fs => endsInCannotInfer fs
/-- Whether the last of several faults is such a fault. -/
def endsInCannotInfer : List Fault → Bool
  | [] => false
  | [f] => f.isCannotInfer
  | _ :: f :: fs => endsInCannotInfer (f :: fs)
end

/-- Whether the fault is a cancellation and not a failure. -/
def isCancelled (f : Fault) : Bool := f = cancelled

/-- Whether the fault is a collection. -/
def isCollection : Fault → Bool
  | one _ => false
  | collection _ => true

end Fault

/-- An ordered aggregate of independent failures. -/
structure FaultList where
  faults : List Fault := []
  deriving DecidableEq, Repr

namespace FaultList

/-- The members that a fault contributes: those of a collection, otherwise the fault itself. -/
def members : Fault → List Fault
  | .collection fs => fs
  | .one c => [.one c]

/-- The list with one more failure; the members of a collection are added one by one. -/
def push (l : FaultList) (f : Fault) : FaultList := ⟨l.faults ++ members f⟩

/-- The list of the given failures, added from left to right. -/
def ofList (fs : List Fault) : FaultList := fs.foldl push {}

/-- The number of failures. -/
def size (l : FaultList) : Nat := l.faults.length

/-- Whether nothing failed. -/
def isEmpty (l : FaultList) : Bool := l.faults.isEmpty

/-- The failures as one fault, even if there are none. -/
def toFault (l : FaultList) : Fault := .collection l.faults

/-- The failures as one fault: none for an empty list, the only one of a list of one. -/
def toFault? (l : FaultList) : Option Fault :=
  match l.faults with
  | [] => none
  | [f] => some f
  | fs => some (.collection fs)

@[simp] theorem faults_push (l : FaultList) (f : Fault) :
    (l.push f).faults = l.faults ++ members f := rfl

@[simp] theorem faults_ofList (fs : List Fault) : (ofList fs).faults = fs.flatMap members := by
  have step : ∀ (fs : List Fault) (l : FaultList),
      (fs.foldl push l).faults = l.faults ++ fs.flatMap members := by
    intro fs
    induction fs with
    | nil => simp
    | cons f fs ih => intro l; simp [ih]
  simpa [ofList] using step fs {}

theorem toFault?_eq_none_iff (l : FaultList) : l.toFault? = none ↔ l.faults = [] := by
  unfold toFault?; split <;> simp_all

end FaultList

end Federation
