import Federation.Proofs.Action.Pledge
import Federation.Proofs.Provider.Profile

/-!
# How custom providers answer

The answer of a custom provider to a request is one of its responses to this request, and it takes as
long as the response says.  So it is known what an action amounts to that calls such a provider.

## Key results

- `Provider.pledge`: a call into a custom provider ends as one of its responses
- `Custom.result_of_amounts`: what an action amounts to that makes such a call
-/

namespace Federation

open Roster (Amounts)

/-- What an action with a label and a deadline amounts to, given the response to its call. -/
def Custom.Response.result (label : String) (deadline : Option Nat) (x : Custom.Response) :
    Except Fault Output :=
  match deadline with
  | some d =>
    if x.delay ≤ d then (Job.outcome label x.ending).toExcept
    else .error (.timeout label (.ofMillis d))
  | none => (Job.outcome label x.ending).toExcept

/-- Whether a call that was made at an instant ends as one of the responses to its request. -/
def Custom.Ends (respond : Nat → Request → Custom.Response) (request : Request) (start t : Nat)
    (e : Ending Output) : Prop :=
  ∃ n, t = start + (respond n request).delay ∧ e = (respond n request).ending

/-- The end of the call, or the deadline that came first, decides what an action amounts to. -/
theorem Custom.result_of_amounts {respond : Nat → Request → Custom.Response} {request : Request}
    {c : Terms} {now : Nat} {ended : Option (Ended Output)} {r : Except Fault Output}
    (h : Amounts c now ended r)
    (ends : ∀ e, ended = some e → Custom.Ends respond request c.start e.instant e.ending)
    (late : ended = none → ∀ d, c.deadline = some d →
      ∃ t e, c.start + d < t ∧ Custom.Ends respond request c.start t e) :
    ∃ n, r = (respond n request).result c.label c.deadline := by
  -- A call that ends in time decides.
  have inTime : ∀ (n : Nat) (e : Ended Output), e.instant = c.start + (respond n request).delay →
      (∀ d, c.deadline = some d → e.instant ≤ c.start + d) →
      (respond n request).result c.label c.deadline =
        (Job.outcome c.label (respond n request).ending).toExcept := by
    intro n e he hle
    unfold Custom.Response.result
    cases hd : c.deadline with
    | none => rfl
    | some d =>
      have := hle d hd
      exact if_pos (by omega)
  cases h with
  | returned e r call since hle ending =>
    obtain ⟨n, ht, he⟩ := ends e call
    refine ⟨n, ?_⟩
    rw [inTime n e ht hle, ← he, ending, Job.outcome, Outcome.toExcept_ofExcept]
  | crashed e call since hle ending =>
    obtain ⟨n, ht, he⟩ := ends e call
    refine ⟨n, ?_⟩
    rw [inTime n e ht hle, ← he, ending]
    rfl
  | overdue d call deadline passed =>
    -- A call that was given up would have ended after the deadline.
    obtain ⟨t, e, hlt, n, ht, -⟩ := late call d deadline
    refine ⟨n, ?_⟩
    unfold Custom.Response.result
    rw [deadline]
    exact (if_neg (by omega)).symm

namespace Provider

/-- How a provider responds, if it is a custom one. -/
def respond? : Provider → Option (Nat → Request → Custom.Response)
  | directory _ => none
  | custom c => some c.respond

/-- How a provider answers does not depend on the calls that were made to it. -/
theorem respond?_profile (p : Provider) : p.profile.respond? = p.respond? := by
  cases p <;> rfl

/-- What is known of a call into a custom provider. -/
def Owes (i start : Nat) (Q : Nat → Ending Output → Prop) (bound : Nat → Prop) (begun : Prop)
    (now : Nat) : Provider → Prop
  | directory _ => False
  | custom c => c.pool.Owes i start Q bound begun now

/-- A call into a custom provider ends as is known of it. -/
theorem pledge (i start : Nat) (Q : Nat → Ending Output → Prop) :
    Host.Pledge i Q (fun b now p => Provider.Owes i start Q (now ≤ ·) b now p)
      (fun b now p => Provider.Owes i start Q (now < ·) b now p) where
  -- Nothing is said of directories, and a custom provider is a pool of calls.
  submit {_ _ p _} w hx h := by
    cases p with
    | directory d => exact h.elim
    | custom c => exact (Pool.pledge i start Q).submit (c.work w) hx h
  abort_before {_ _ p} x h := by
    cases p with
    | directory d => exact h.elim
    | custom c => exact (Pool.pledge i start Q).abort_before x h
  abort_after {_ _ p} x h := by
    cases p with
    | directory d => exact h.elim
    | custom c => exact (Pool.pledge i start Q).abort_after x h
  ripen {_ _ p} hsound h := by
    cases p with
    | directory d => exact h.elim
    | custom c => exact (Pool.pledge i start Q).ripen hsound h
  settle {_ _ p} hsound h := by
    cases p with
    | directory d => exact h.elim
    | custom c => exact (Pool.pledge i start Q).settle hsound h
  stay {_ _ p} h := by
    cases p with
    | directory d => exact h.elim
    | custom c => exact (Pool.pledge i start Q).stay h
  rest {_ _ p} hrests h := by
    cases p with
    | directory d => exact h.elim
    | custom c => exact (Pool.pledge i start Q).rest hrests h
  pass {_ _ p} hsound h ht := by
    cases p with
    | directory d => exact h.elim
    | custom c => exact (Pool.pledge i start Q).pass hsound h ht
  prompt {_ p} hsound h hi := by
    cases p with
    | directory d => exact h.elim
    | custom c => exact (Pool.pledge i start Q).prompt hsound h hi
  late {_ p} hsound h hi := by
    cases p with
    | directory d => exact h.elim
    | custom c => exact (Pool.pledge i start Q).late hsound h hi
  ended {_ _ p _} h he := by
    cases p with
    | directory d => exact h.elim
    | custom c => exact (Pool.pledge i start Q).ended h he

/-- What is known of a call into a custom provider that is made now. -/
theorem owes_submit {p : Provider} {i : Nat} {respond : Nat → Request → Custom.Response}
    (hrespond : p.respond? = some respond) (hnew : ¬LawfulHost.Live p i)
    (hended : Host.ended? p i = none) (request : Request) (now : Nat) :
    (Host.submit i request p).Owes i now (Custom.Ends respond request now) (now ≤ ·) False now := by
  cases p with
  | directory d => exact nomatch hrespond
  | custom c =>
    obtain rfl := Option.some.inj hrespond
    refine Pool.owes_submit hnew hended fun seen => ?_
    exact ⟨(c.respond (seen.length + 1) request).delay, rfl,
      fun _ => ⟨seen.length + 1, rfl, rfl⟩⟩

end Provider

end Federation
