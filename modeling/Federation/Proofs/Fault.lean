import Federation.Fault
import Mathlib.Data.List.Basic
import Mathlib.Logic.Function.Iterate

/-! # What adding to a list of faults makes of collections

A `FaultList` that is given a collection takes its members as they are.  This takes one level of
nesting away and no more: a collection among the members is a member of the list from then on, and
it counts as one failure.

`Fault.depth` measures the nesting.  The causes and their order are never touched.

## Key results

- `depthOfList_ofList`: adding faults takes exactly one level of nesting away.
- `members_iterate`: to add what comes out again, as often as the faults are deep, leaves the bare
  causes.
- `ofList_eq_iff`: grouping faults beforehand is without effect exactly if no collection is grouped.
- `flattening_spec`: the laws of adding faults, whichever way and however deep they are.
- `push_keeps_inner_collection`: two causes that count as one failure. -/

namespace Federation

namespace Fault

mutual
/-- How many collections lie around the innermost part of a fault. -/
def depth : Fault → Nat
  | one _ => 0
  | collection fs => depthOfList fs + 1
/-- The depth of the deepest of several faults. -/
def depthOfList : List Fault → Nat
  | [] => 0
  | f :: fs => max f.depth (depthOfList fs)
end

mutual
/-- How many collections a fault is made of. -/
def nests : Fault → Nat
  | one _ => 0
  | collection fs => nestsOfList fs + 1
/-- How many collections several faults are made of. -/
def nestsOfList : List Fault → Nat
  | [] => 0
  | f :: fs => f.nests + nestsOfList fs
end

@[simp] theorem depth_one (c : Cause) : (one c).depth = 0 := rfl

@[simp] theorem depth_collection (fs : List Fault) :
    (collection fs).depth = depthOfList fs + 1 := rfl

@[simp] theorem depthOfList_nil : depthOfList [] = 0 := rfl

@[simp] theorem depthOfList_cons (f : Fault) (fs : List Fault) :
    depthOfList (f :: fs) = max f.depth (depthOfList fs) := rfl

/-- The depth of two lists together is that of the deeper one. -/
@[simp] theorem depthOfList_append (fs gs : List Fault) :
    depthOfList (fs ++ gs) = max (depthOfList fs) (depthOfList gs) := by
  induction fs with
  | nil => simp
  | cons f fs ih => simp [ih, Nat.max_assoc]

/-- The depth of a list is that of its deepest fault. -/
theorem depthOfList_le_iff {fs : List Fault} {n : Nat} :
    depthOfList fs ≤ n ↔ ∀ f ∈ fs, f.depth ≤ n := by
  induction fs with
  | nil => simp
  | cons f fs ih => rw [depthOfList_cons, Nat.max_le, ih, List.forall_mem_cons]

/-- A fault without depth is a bare cause. -/
theorem depth_eq_zero_iff (f : Fault) : f.depth = 0 ↔ f.isCollection = false := by
  cases f <;> simp [isCollection]

/-- Faults without depth are their causes. -/
theorem eq_map_leaves_iff (fs : List Fault) :
    fs = (fs.flatMap leaves).map one ↔ depthOfList fs = 0 := by
  rw [← Nat.le_zero, depthOfList_le_iff]
  constructor
  · intro h f mem
    rw [h, List.mem_map] at mem
    obtain ⟨c, -, rfl⟩ := mem
    exact Nat.le_refl 0
  · intro bare
    -- The other way around, induction on the faults: none of them is a collection.
    induction fs with
    | nil => rfl
    | cons f fs ih =>
      rw [List.forall_mem_cons] at bare
      cases f with
      | one c => simpa using ih bare.2
      | collection gs => exact absurd bare.1 (by simp)

@[simp] theorem nests_one (c : Cause) : (one c).nests = 0 := rfl

@[simp] theorem nests_collection (fs : List Fault) :
    (collection fs).nests = nestsOfList fs + 1 := rfl

@[simp] theorem nestsOfList_nil : nestsOfList [] = 0 := rfl

@[simp] theorem nestsOfList_cons (f : Fault) (fs : List Fault) :
    nestsOfList (f :: fs) = f.nests + nestsOfList fs := rfl

/-- The collections of two lists together are those of both. -/
@[simp] theorem nestsOfList_append (fs gs : List Fault) :
    nestsOfList (fs ++ gs) = nestsOfList fs + nestsOfList gs := by
  induction fs with
  | nil => simp
  | cons f fs ih => simp [ih, Nat.add_assoc]

end Fault

namespace FaultList

open Fault

/-- Only the collection of nothing has no members. -/
theorem members_eq_nil_iff (f : Fault) : members f = [] ↔ f = .collection [] := by
  cases f <;> simp [members]

/-- A fault has the causes of its members. -/
theorem leaves_members (f : Fault) : (members f).flatMap leaves = f.leaves := by
  cases f <;> simp [members]

/-- The members of a fault are less deep than the fault by one. -/
theorem depthOfList_members (f : Fault) : depthOfList (members f) = f.depth - 1 := by
  cases f <;> simp [members]

/-- Taking the members undoes one collection, if there is one. -/
theorem nestsOfList_members (f : Fault) :
    nestsOfList (members f) + f.isCollection.toNat = f.nests := by
  cases f <;> simp [members, isCollection]

/-- A list to which faults are added is the list of those that it was made of and these. -/
theorem foldl_push_ofList (fs gs : List Fault) : gs.foldl push (ofList fs) = ofList (fs ++ gs) :=
  (List.foldl_append ..).symm

/-- Adding faults loses no cause and keeps the causes in order. -/
theorem leaves_ofList (fs : List Fault) : (ofList fs).faults.flatMap leaves = fs.flatMap leaves := by
  simp only [faults_ofList, List.flatMap_assoc, leaves_members]

/-- Adding faults takes exactly one level of nesting away. -/
theorem depthOfList_ofList (fs : List Fault) :
    depthOfList (ofList fs).faults = depthOfList fs - 1 := by
  rw [faults_ofList]
  induction fs with
  | nil => rfl
  | cons f fs ih =>
    rw [List.flatMap_cons, depthOfList_append, depthOfList_members, ih, depthOfList_cons]
    omega

/-- What comes out is free of collections exactly if no added fault nests them. -/
theorem isCollection_ofList_iff (fs : List Fault) :
    (∀ f ∈ (ofList fs).faults, f.isCollection = false) ↔ ∀ f ∈ fs, f.depth ≤ 1 := by
  simp only [← depth_eq_zero_iff, ← Nat.le_zero, ← depthOfList_le_iff, depthOfList_ofList]
  omega

/-- What comes out are the bare causes exactly if no added fault nests collections. -/
theorem ofList_eq_leaves_iff (fs : List Fault) :
    (ofList fs).faults = (fs.flatMap leaves).map one ↔ ∀ f ∈ fs, f.depth ≤ 1 := by
  rw [← leaves_ofList, eq_map_leaves_iff, depthOfList_ofList, ← depthOfList_le_iff]
  omega

/-- Adding what comes out to a new list, as often as the faults are deep, leaves the bare causes. -/
theorem members_iterate (n : Nat) (fs : List Fault) (deep : depthOfList fs ≤ n) :
    (fun gs => (ofList gs).faults)^[n] fs = (fs.flatMap leaves).map one := by
  induction n generalizing fs with
  | zero => exact (eq_map_leaves_iff fs).mpr (Nat.le_zero.mp deep)
  | succ n ih =>
    rw [Function.iterate_succ_apply, ih _ (by rw [depthOfList_ofList]; omega), leaves_ofList]

/-- Each collection that is added takes one away from those that the faults are made of. -/
theorem nestsOfList_ofList (fs : List Fault) :
    nestsOfList (ofList fs).faults + fs.countP isCollection = nestsOfList fs := by
  rw [faults_ofList]
  induction fs with
  | nil => rfl
  | cons f fs ih =>
    have one := nestsOfList_members f
    rw [List.flatMap_cons, nestsOfList_append, List.countP_cons, nestsOfList_cons]
    cases f <;> simp [isCollection] at one ⊢ <;> omega

/-! ## Grouping -/

/-- What someone who has faults adds to a list in one go: a fault as it is, or several faults that
    were made into a collection. -/
inductive Parcel where
  | lone (f : Fault)
  | group (fs : List Fault)

namespace Parcel

/-- The fault that is added. -/
def fault : Parcel → Fault
  | lone f => f
  | group fs => .collection fs

/-- The faults that there were before some of them were grouped. -/
def contents : Parcel → List Fault
  | lone f => [f]
  | group fs => fs

/-- The faults that were grouped. -/
def grouped : Parcel → List Fault
  | lone _ => []
  | group fs => fs

/-- A group keeps the collections that adding its faults one by one would undo. -/
theorem nestsOfList_members_fault (x : Parcel) :
    nestsOfList (members x.fault) =
      nestsOfList (ofList x.contents).faults + x.grouped.countP isCollection := by
  cases x with
  | lone f => simp [fault, contents, grouped]
  | group fs =>
    have := nestsOfList_ofList fs
    simp only [fault, contents, grouped, members]
    omega

/-- Where no collection is grouped, a parcel adds what its faults add one by one. -/
theorem members_fault {x : Parcel} (bare : ∀ f ∈ x.grouped, f.isCollection = false) :
    members x.fault = x.contents.flatMap members := by
  cases x with
  | lone f => simp [fault, contents]
  | group fs =>
    have each : ∀ f ∈ fs, members f = [f] := by
      intro f mem
      have := bare f mem
      cases f <;> simp_all [isCollection, members]
    simp [fault, contents, members, List.flatMap_congr each]

end Parcel

/-- If some faults are grouped before they are collected, one collection more is left for each of
    them that is a collection itself. -/
private theorem nestsOfList_parcels (xs : List Parcel) :
    nestsOfList (ofList (xs.map Parcel.fault)).faults =
      nestsOfList (ofList (xs.flatMap Parcel.contents)).faults +
        (xs.flatMap Parcel.grouped).countP isCollection := by
  simp only [faults_ofList]
  induction xs with
  | nil => rfl
  | cons x xs ih =>
    -- One parcel accounts for itself; the rest is the induction hypothesis, and the numbers add up.
    have one := x.nestsOfList_members_fault
    simp only [faults_ofList] at one
    simp only [List.map_cons, List.flatMap_cons, List.flatMap_append, nestsOfList_append,
      List.countP_append]
    omega

/-- Grouping faults beforehand is without effect exactly if no collection is grouped. -/
theorem ofList_eq_iff (xs : List Parcel) :
    ofList (xs.map Parcel.fault) = ofList (xs.flatMap Parcel.contents) ↔
      ∀ f ∈ xs.flatMap Parcel.grouped, f.isCollection = false := by
  constructor
  · intro same
    -- Count the collections on both sides: those that are grouped are the difference.
    have nests := nestsOfList_parcels xs
    rw [same, Nat.left_eq_add, List.countP_eq_zero] at nests
    intro f mem
    simpa using nests f mem
  · intro bare
    have each : ∀ x ∈ xs, members x.fault = x.contents.flatMap members := fun x mem =>
      x.members_fault fun f grouped => bare f (List.mem_flatMap.mpr ⟨x, mem, grouped⟩)
    have faults : (ofList (xs.map Parcel.fault)).faults =
        (ofList (xs.flatMap Parcel.contents)).faults := by
      simp only [faults_ofList, List.flatMap_map, List.flatMap_assoc]
      exact List.flatMap_congr each
    exact congrArg FaultList.mk faults

/-- The list that faults of any depth are added to, some when it is made and the others one by one.
    It is the same list however they are divided.  It holds the causes of the faults in order, and
    one level of nesting less than the faults.  So it is the list of the bare causes, and its number
    of failures and its text count each cause once, exactly as long as no fault has a collection in
    a collection; in general this takes as many rounds as the faults are deep.  Grouping some faults
    beforehand makes no difference exactly if no collection is put into a group. -/
theorem flattening_spec (fs gs : List Fault) (xs : List Parcel) :
    gs.foldl push (ofList fs) = ofList (fs ++ gs) ∧
    (ofList fs).faults.flatMap leaves = fs.flatMap leaves ∧
    depthOfList (ofList fs).faults = depthOfList fs - 1 ∧
    ((∀ f ∈ (ofList fs).faults, f.isCollection = false) ↔ ∀ f ∈ fs, f.depth ≤ 1) ∧
    ((ofList fs).faults = (fs.flatMap leaves).map one ↔ ∀ f ∈ fs, f.depth ≤ 1) ∧
    ((∀ f ∈ fs, f.depth ≤ 1) →
      (ofList fs).size = (fs.flatMap leaves).length ∧
      (ofList fs).toFault.message = s!"{(fs.flatMap leaves).length} error(s)" ++
        memberText true ((fs.flatMap leaves).map one)) ∧
    (fun hs => (ofList hs).faults)^[depthOfList fs] fs = (fs.flatMap leaves).map one ∧
    (ofList (xs.map Parcel.fault) = ofList (xs.flatMap Parcel.contents) ↔
      ∀ f ∈ xs.flatMap Parcel.grouped, f.isCollection = false) := by
  refine ⟨foldl_push_ofList fs gs, leaves_ofList fs, depthOfList_ofList fs,
    isCollection_ofList_iff fs, ofList_eq_leaves_iff fs, ?count,
    members_iterate _ fs (Nat.le_refl _), ofList_eq_iff xs⟩
  case count =>
    intro flat
    have bare := (ofList_eq_leaves_iff fs).mpr flat
    simp only [size, toFault, message, bare, List.length_map, true_and]

/-- A collection in a collection stays a collection: the two causes in it count as one failure, in
    the number as in the text, where the same causes grouped only once count as two. -/
theorem push_keeps_inner_collection :
    let inner : Fault := .collection [.cancelled, .notFinished]
    let l := push {} (.collection [inner])
    l = ofList [.collection [inner]] ∧
    l.faults = [inner] ∧ inner.isCollection = true ∧
    l.faults ≠ ((Fault.collection [inner]).leaves).map one ∧
    l.size = 1 ∧ (Fault.collection [inner]).leaves.length = 2 ∧
    l.toFault.message =
      "1 error(s): 2 error(s): Operation cancelled; Operation is not finished" ∧
    l ≠ ofList [inner] := by
  decide

end FaultList

end Federation
