import Mathlib.Logic.Function.Basic
import Xript.Number.Decimal

namespace Xript

/-- What a pool's workers share. A map of the source is a function here, absent keys being `none`,
`false` or the empty queue; what a waker does lies outside, only its presence is kept. `σ` is the bus
state that the kernel's JSON text spells. -/
structure HubState (σ : Type) where
  version : Nat
  state : Option σ
  inbox : Nat → List JSString
  replies : Nat → Option JSString
  awaiting : Nat → Option Nat
  nextTicket : Nat
  wakers : Nat → Bool
  retired : Nat → Bool
  replyWakers : Nat → Bool

def skippedOutcome : JSString := js "\x7b\"ran\":false\x7d"

def doneText (outcome : JSString) : JSString := js "\x7b\"done\":true,\"outcome\":" ++ outcome ++ js "\x7d"

/-- `text.strip_prefix(start)`. -/
def stripPrefix (start text : JSString) : Option JSString :=
  if start <+: text then some (text.drop start.length) else none

def requestId (request : JSString) : Option Nat :=
  match stripPrefix (js "\x7b\"id\":") request with
  | none => none
  | some rest =>
    let digits := rest.takeWhile isDigit
    if digits ≠ [] ∧ readDigits 10 digits < 2 ^ 64 then some (readDigits 10 digits) else none

/-- The outcome inside the envelope of `doneText`. -/
def outcomeOf (answer : JSString) : JSString :=
  match stripPrefix (js "\x7b\"done\":true,\"outcome\":") answer with
  | some rest => if rest.getLast? = some 125 then rest.dropLast else skippedOutcome
  | none => skippedOutcome

/-- The text queued for a request: its ticket stands first. -/
def queuedText (ticket : Nat) (request : JSString) : JSString :=
  let body := (stripPrefix (js "\x7b") request).getD (js "\x7d")
  let separator := if body.head? = some 125 then [] else js ","
  js "\x7b\"id\":" ++ decimal ticket ++ separator ++ body

namespace HubState

variable {σ : Type}

def empty : HubState σ :=
  ⟨0, none, fun _ => [], fun _ => none, fun _ => none, 0, fun _ => false, fun _ => false, fun _ => false⟩

def read (hub : HubState σ) : Nat × Option σ := (hub.version, hub.state)

/-- Commits `state` if nobody committed since `version` was read. -/
def write (hub : HubState σ) (version : Nat) (state : σ) : HubState σ × Bool :=
  if hub.version ≠ version then (hub, false)
  else ({ hub with version := hub.version + 1, state := some state }, true)

def register (hub : HubState σ) (worker : Nat) : HubState σ :=
  { hub with retired := Function.update hub.retired worker false, wakers := Function.update hub.wakers worker true }

/-- Answers one request that was still queued when its worker retired. -/
def answerQueued (hub : HubState σ) (request : JSString) : HubState σ :=
  match requestId request with
  | some id =>
    { hub with
      replies := Function.update hub.replies id (some (doneText skippedOutcome))
      awaiting := Function.update hub.awaiting id none }
  | none => hub

def retire (hub : HubState σ) (worker : Nat) : HubState σ :=
  let left := { hub with
    retired := Function.update hub.retired worker true
    wakers := Function.update hub.wakers worker false
    inbox := Function.update hub.inbox worker [] }
  let answered := (hub.inbox worker).foldl answerQueued left
  let stranded := fun id => answered.awaiting id = some worker
  { answered with
    awaiting := fun id => if stranded id then none else answered.awaiting id
    replies := fun id => if stranded id then some (doneText skippedOutcome) else answered.replies id
    replyWakers := fun _ => false }

/-- Queues a request for a worker; the number is the ticket its answer arrives under. -/
def call (hub : HubState σ) (worker : Nat) (request : JSString) : HubState σ × Nat :=
  let ticket := hub.nextTicket + 1
  let hub := { hub with nextTicket := ticket }
  if hub.retired worker ∨ !hub.wakers worker then
    ({ hub with replies := Function.update hub.replies ticket (some (doneText skippedOutcome)) }, ticket)
  else
    ({ hub with
      inbox := Function.update hub.inbox worker (hub.inbox worker ++ [queuedText ticket request])
      awaiting := Function.update hub.awaiting ticket (some worker) }, ticket)

def take (hub : HubState σ) (worker : Nat) : HubState σ × Option JSString :=
  match hub.inbox worker with
  | request :: queue => ({ hub with inbox := Function.update hub.inbox worker queue }, some request)
  | [] => (hub, none)

/-- One turn of the loop in `poll`, under one hold of the lock. A first turn that finds nothing waits
and is followed by a second one; the answer of a turn that finds nothing is `none`. -/
def poll (hub : HubState σ) (worker ticket : Nat) : HubState σ × Option JSString :=
  match hub.replies ticket with
  | some answer => ({ hub with replies := Function.update hub.replies ticket none }, some answer)
  | none =>
    let served := hub.take worker
    (served.1, served.2.map fun request => js "\x7b\"serve\":" ++ request ++ js "\x7d")

def reply (hub : HubState σ) (id : Nat) (outcome : JSString) : HubState σ :=
  if (hub.awaiting id).isSome then
    { hub with
      awaiting := Function.update hub.awaiting id none
      replies := Function.update hub.replies id (some (doneText outcome))
      replyWakers := Function.update hub.replyWakers id false }
  else hub

def pollAnswer (hub : HubState σ) (ticket : Nat) : HubState σ × Option JSString :=
  match hub.replies ticket with
  | some answer =>
    ({ hub with
      replies := Function.update hub.replies ticket none
      replyWakers := Function.update hub.replyWakers ticket false }, some (outcomeOf answer))
  | none => ({ hub with replyWakers := Function.update hub.replyWakers ticket true }, none)

/-- Stops waiting for a ticket. The entry in `awaiting` stays. -/
def abandon (hub : HubState σ) (ticket : Nat) : HubState σ :=
  { hub with
    replyWakers := Function.update hub.replyWakers ticket false
    replies := Function.update hub.replies ticket none }

end HubState

end Xript
