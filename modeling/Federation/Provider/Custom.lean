import Federation.Call.Pool
import Federation.Request

/-! # Custom providers

A `Custom` provider is described by what it answers: how it finds its local identifiers, and how the
n-th request to it is answered.  Its requests are served at the same time, and it remembers them. -/

namespace Federation

/-- How a request is answered. -/
structure Custom.Response where
  /-- How many milliseconds the answer takes. -/
  delay : Nat := 0
  ending : Ending Output

/-- A provider described by its answers. -/
structure Custom where
  id : ProviderId
  capabilities : Capabilities := .all
  /-- The local identifier of the user that a caller knows by another one. -/
  localId : String → Except Fault String := .ok
  /-- The local identifier of the user of whom another provider has a record.  A provider need not
      be able to find one. -/
  localIdFrom : Record → Except Fault String := fun r => orCannotInfer id r.account.text none
  /-- The answer to the n-th request, counted from one. -/
  respond : Nat → Request → Custom.Response
  /-- The requests in progress, and all that have come so far. -/
  pool : Pool (List Request) Output := { shared := [] }

namespace Custom

/-- The responses of a script, whose last step is repeated. -/
def script (steps : List Response) (n : Nat) (_ : Request) : Response :=
  (steps[n - 1]?).getD (steps.getLast?.getD { ending := .returned (.ok .notFound) })

/-- The requests that have come so far. -/
def seen (c : Custom) : List Request := c.pool.shared

/-- The work of a request. -/
def work (c : Custom) (r : Request) : Work Unit (List Request) Output := fun _ seen =>
  let response := c.respond (seen.length + 1) r
  ((), seen ++ [r],
    { pause := some response.delay
      finish := fun _ seen => ((), seen, response.ending)
      leave := fun seen => seen })

instance : Host Custom Request Output where
  settle now c := { c with pool := Timed.settle now c.pool }
  next? c := Timed.next? c.pool
  load c := Timed.load c.pool
  submit id r c := { c with pool := Host.submit id (c.work r) c.pool }
  ripen now c := { c with pool := Host.ripen now c.pool }
  due? c id := Host.due? c.pool id
  abort id c := { c with pool := Host.abort id c.pool }
  ended? c id := Host.ended? c.pool id

end Custom

end Federation
