import Federation.Merge.Engine

/-! # Merging step by step

`Engine.mergeObserved` merges records as it happens: property by property, and for each property
record by record.  What a record says about a property goes to exactly one place of the `Tally`.  A
value that does not pass its check goes to the warnings, and the observer is told of it at once. -/

namespace Federation.Merge

/-- What has been read about one property.  The warnings are those of the whole merge so far. -/
structure Tally where
  support : Support := {}
  reported : List Candidate := []
  /-- The warnings that the merged user keeps. -/
  warnings : List MergeWarning
  /-- The warnings that the observer was told of. -/
  told : List MergeWarning

/-- Read what one more record says about a property. -/
def Tally.read (p : Property) (t : Tally) (r : Record) : Tally :=
  match r.get p with
  | .unset => { t with support.unsetBy := t.support.unsetBy ++ [r.provider] }
  | .unsupported => { t with support.unsupportedBy := t.support.unsupportedBy ++ [r.provider] }
  | .set v =>
    match p.check v with
    | .ok () =>
      { t with
        support.setBy := t.support.setBy ++ [r.provider]
        reported := t.reported ++ [⟨r.provider, v⟩] }
    | .error e =>
      let w : MergeWarning := ⟨p, r.provider, e⟩
      { t with told := t.told ++ [w], warnings := t.warnings ++ [w] }

/-- A merge on its way. -/
structure Draft where
  /-- The user, as far as merged. -/
  user : LogicalUser
  /-- The warnings that the observer was told of. -/
  told : List MergeWarning := []

/-- The user of whom no property was read yet. -/
def Draft.start (ordered : List Record) : Draft where
  user :=
    { get := fun _ => .notReported
      support := fun _ => {}
      warnings := []
      accounts := ordered.map Record.account }

namespace Engine

/-- Merge one more property of the records in merge order. -/
def addProperty (e : Engine) (ordered : List Record) (d : Draft) (p : Property) : Draft :=
  let t := ordered.foldl (Tally.read p) { warnings := d.user.warnings, told := d.told }
  { user :=
      { d.user with
        get := fun q => if q = p then e.resolve p t.reported else d.user.get q
        support := fun q => if q = p then t.support else d.user.support q
        warnings := t.warnings }
    told := t.told }

/-- Merge records about one user, and give what the observer was told meanwhile. -/
def mergeObserved (e : Engine) (rs : List Record) : LogicalUser × List MergeWarning :=
  let ordered := e.priority.order rs
  let d := Property.all.foldl (e.addProperty ordered) (.start ordered)
  (d.user, d.told)

end Engine

end Federation.Merge
