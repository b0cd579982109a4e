import Federation.Double

/-! # JSON values

Documents are exchanged as JSON.  An integer that fits a machine word of 64 bits is kept as such;
any other number is a double.

A text may be well formed and still have no meaning: a string with half of a surrogate pair, or a
number too large for any double.  Such a part reads as `senseless`.  It can be skipped, but not
used. -/

namespace Federation

/-- A JSON value.  The members of an object are in the order in which they are written, and a name
    may occur more than once. -/
inductive Json where
  | null
  | bool (b : Bool)
  | integer (n : Int)
  | double (x : Double)
  | string (s : String)
  | array (items : List Json)
  | object (members : List (String × Json))
  /-- A well-formed part that has no meaning. -/
  | senseless
  deriving Repr

namespace Json

instance : Inhabited Json := ⟨null⟩

/-- The string of a string value. -/
def string? : Json → Option String
  | string s => some s
  | _ => none

/-- The flag of a boolean value. -/
def bool? : Json → Option Bool
  | bool b => some b
  | _ => none

/-- The number of an integer value. -/
def integer? : Json → Option Int
  | integer n => some n
  | _ => none

/-- The number of an integer value that is not negative. -/
def natural? : Json → Option Nat
  | integer n => if 0 ≤ n then some n.toNat else none
  | _ => none

/-- The items of an array. -/
def array? : Json → Option (List Json)
  | array xs => some xs
  | _ => none

/-- The members of an object. -/
def object? : Json → Option (List (String × Json))
  | object ms => some ms
  | _ => none

/-- The first member of an object with the given name. -/
def member? (j : Json) (name : String) : Option Json :=
  j.object?.bind fun ms => (ms.find? fun m => m.1 == name).map Prod.snd

/-- Whether the value is `null`. -/
def isNull : Json → Bool
  | null => true
  | _ => false

/-- A value that may be absent. -/
def ofOption {α : Type} (f : α → Json) : Option α → Json
  | some a => f a
  | none => null

/-- A natural number. -/
def natural (n : Nat) : Json := integer n

/-- A string that may be absent. -/
def ofString? : Option String → Json := ofOption string

/-- An array of strings. -/
def strings (ss : List String) : Json := array (ss.map string)

/-- The members that are present. -/
def ofMembers (ms : List (String × Option Json)) : Json :=
  object (ms.filterMap fun m => m.2.map fun j => (m.1, j))

mutual
/-- The number of arrays and objects that stand inside each other. -/
def depth : Json → Nat
  | array xs => depthOfItems xs + 1
  | object ms => depthOfMembers ms + 1
  | _ => 0
/-- The greatest depth of some items. -/
def depthOfItems : List Json → Nat
  | [] => 0
  | x :: xs => max x.depth (depthOfItems xs)
/-- The greatest depth of some members. -/
def depthOfMembers : List (String × Json) → Nat
  | [] => 0
  | (_, x) :: ms => max x.depth (depthOfMembers ms)
end

mutual
/-- Whether every part of the value has a meaning. -/
def isMeaningful : Json → Bool
  | senseless => false
  | array xs => itemsMeaningful xs
  | object ms => membersMeaningful ms
  | _ => true
/-- Whether every part of some items has a meaning. -/
def itemsMeaningful : List Json → Bool
  | [] => true
  | x :: xs => x.isMeaningful && itemsMeaningful xs
/-- Whether every part of some members has a meaning. -/
def membersMeaningful : List (String × Json) → Bool
  | [] => true
  | (_, x) :: ms => x.isMeaningful && membersMeaningful ms
end

mutual
/-- The value with the repeated names of its objects resolved: the last member of a name counts. -/
def distinctNames : Json → Json
  | array xs => array (distinctItems xs)
  | object ms => object (distinctMembers ms)
  | j => j
/-- Some items with their repeated names resolved. -/
def distinctItems : List Json → List Json
  | [] => []
  | x :: xs => x.distinctNames :: distinctItems xs
/-- The last member of each name, with the repeated names inside it resolved. -/
def distinctMembers : List (String × Json) → List (String × Json)
  | [] => []
  | (name, x) :: ms =>
    let rest := distinctMembers ms
    if rest.any fun m => m.1 == name then rest else (name, x.distinctNames) :: rest
end

end Json

end Federation
