import Federation.Action.Basic
import Federation.Wire.Event
import Federation.Wire.Fault

/-! # Documents of actions

What can be told of an action with numbers for parameters and results, and what was seen of it. -/

namespace Federation.Wire

/-- The document of a status. -/
def ofStatus (s : Status) : Json := .string s.name

/-- The document of an outcome that is a number. -/
def ofNumber : Outcome Int → Json := ofOutcome .integer

/-- The document of what an attempt to start an action found. -/
def ofLaunch : Except Fault (Launch Int) → Json :=
  ofResult fun
    | .started => .string "started"
    | .alreadyFinished o => .object [("already_finished", ofNumber o)]

/-- The items of the document of what a reaction was answered. -/
def itemsOfAnswer : Answer Int → List Json
  | .observed => [.string "observe", .null]
  | .cancelled moved => [.string "cancel", .bool moved]
  | .status s => [.string "status", ofStatus s]
  | .result r => [.string "result", ofResult ofNumber r]
  | .started r => [.string "start", ofLaunch r]
  | .replied (.known o) => [.string "reply", ofNumber o]
  | .replied .awaited => [.string "reply", .null]

/-- What a listener writes of a note; `called` tells how a callback is written that is told an
    outcome. -/
def ofNote? {τ : Type} (l : Listener) (called : τ → Outcome Int → Json) :
    Note τ Int → Option Json
  | .told e => l.write? e
  | .called tag o => some (called tag o)
  | .answered a => some (.array (.string "nested" :: itemsOfAnswer a))

/-- What can be told of an action about a textual subject. -/
def ofAction {τ : Type} (a : Action τ Int Int) : Json :=
  let ordered :=
    match a.startedAt, a.finishedAt with
    | some t, some u => Json.bool (decide (t ≤ u))
    | _, _ => .null
  .object
    [ ("subject", Json.ofString? a.subject.text?), ("label", .string a.label),
      ("deadline_ms", Json.ofOption .natural a.deadline),
      ("parameters", Json.ofOption .integer a.latest), ("running", .bool a.isRunning),
      ("started_at", .bool a.startedAt.isSome), ("finished_at", .bool a.finishedAt.isSome),
      ("ordered", ordered), ("same_id", .bool true), ("id_text", .string "<id>"),
      ("debug", .string a.inspect) ]

end Federation.Wire
