import Federation.ProviderId

/-! # Subjects of actions

Providers identify users in different ways, and actions about them live side by side.  A `Subject`
is the user that an action is about, whatever the form of its identifier.  Subjects of different
forms are never equal, even if they hold the same text.

The forms that have a constructor are those of which more is known than that: how a text is quoted,
or what an account consists of.  Any other form is a name together with what is shown of the
identifier, so that two of them are equal if they have the same form and the same value. -/

namespace Federation

/-- The user an action is about. -/
inductive Subject where
  | text (s : String)
  | number (n : Nat)
  | distinguishedName (s : String)
  | account (a : Account)
  /-- An identifier of another form; `value` is the identifier as diagnostics show it. -/
  | other (form value : String)
  deriving DecidableEq, Repr

namespace Subject

/-- The subject as diagnostics show it. -/
def inspect : Subject → String
  | text s => Text.quote s
  | number n => toString n
  | distinguishedName s => "DistinguishedName(" ++ Text.quote s ++ ")"
  | account a => a.inspect
  | other _ value => value

/-- The text of a textual subject. -/
def text? : Subject → Option String
  | text s => some s
  | _ => none

/-- The number of a numeric subject. -/
def number? : Subject → Option Nat
  | number n => some n
  | _ => none

/-- The name of a subject that is a distinguished name. -/
def distinguishedName? : Subject → Option String
  | distinguishedName s => some s
  | _ => none

/-- The account of a subject that is one. -/
def account? : Subject → Option Account
  | account a => some a
  | _ => none

/-- The name of the form of identifier, where it has one that does not depend on its
    surroundings. -/
def form? : Subject → Option String
  | number _ => some "u64"
  | other form _ => some form
  | _ => none

/-- The subject with its form, where that has a name. -/
def inspectWithForm? (s : Subject) : Option String :=
  s.form?.map fun form => "SubjectToken<" ++ form ++ ">(" ++ s.inspect ++ ")"

/-- The subjects without repetitions, in their order. -/
def distinct (ss : List Subject) : List Subject :=
  ss.foldl (fun seen s => if seen.contains s then seen else seen ++ [s]) []

end Subject

end Federation
