import Federation.Record
import Mathlib.Data.List.Basic

/-!
# What is said of a user

A record is built from statements about single properties, in whatever order they come.  Each of
them is a report, so of several statements about one property the last counts, and what is said
about the identifier does not.

## Key results

- `ofStatements_eq`, `get_ofStatements`: what the finished record says about a property
- `map_fst_reported_sublist`: the properties of a record are listed in canonical order
-/

namespace Federation.Record

namespace Statement

/-- The property that a statement is about. -/
def property : Statement → Property
  | .persistentId _ => .persistentId
  | firstName _ => .firstName
  | lastName _ => .lastName
  | nickname _ => .nickname
  | isSuspended _ => .isSuspended
  | emails _ => .emails
  | answer p _ => p
  | unsupported p => p
  | report p _ => p

/-- What a statement says about its property. -/
def state : Statement → Remote Value
  | .persistentId s => .set (.text s)
  | firstName s? => .set (.ofText? s?)
  | lastName s? => .set (.ofText? s?)
  | nickname s? => .set (.ofText? s?)
  | isSuspended b? => .set (.ofFlag? b?)
  | emails xs => .set (.textList xs)
  | answer _ v => .set v
  | unsupported _ => .unsupported
  | report _ state => state

end Statement

/-- A statement is a report. -/
theorem say_eq (r : Record) (s : Statement) : r.say s = r.report s.property s.state := by
  cases s <;> rfl

/-- A record that is made by statements is one that is made by reports. -/
theorem ofStatements_eq (a : Account) (ss : List Statement) :
    ofStatements a ss = ofReports a (ss.map fun s => (s.property, s.state)) := by
  have hsay : say = fun r s => r.report s.property s.state := funext fun r => funext (say_eq r)
  rw [ofStatements, ofReports, List.foldl_map, hsay]

/-- The last statement about a property counts. -/
theorem get_ofStatements {p : Property} (hp : p ≠ .id) (a : Account) (ss : List Statement) :
    (ofStatements a ss).get p =
      ((ss.reverse.find? fun s => s.property = p).map Statement.state).getD .unset := by
  rw [ofStatements_eq, get_ofReports hp, ← List.map_reverse, List.find?_map, Option.map_map]
  rfl

/-- The properties of a record are listed in canonical order. -/
theorem map_fst_reported_sublist (r : Record) : (r.reported.map Prod.fst).Sublist Property.all := by
  have hfilter : r.reported.map Prod.fst = Property.all.filter fun p => !(r.get p).isUnset := by
    rw [reported, List.map_filterMap, ← List.filterMap_eq_filter]
    refine List.filterMap_congr fun p _ => ?_
    cases h : (r.get p).isUnset <;> simp [Option.guard, h]
  rw [hfilter]
  exact List.filter_sublist

end Federation.Record
