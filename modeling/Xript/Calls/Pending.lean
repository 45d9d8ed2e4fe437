import Xript.Machine.Runs
import Xript.Text.CodeUnit

namespace Xript

/-- The errors of a call that the result's own channel makes, next to those of the call. -/
inductive XriptError where
  | engine (message : JSString)
  | timeout (stillRunning : Bool)
  | other (message : JSString)
  deriving DecidableEq

abbrev CallResult (T : Type) := Except XriptError T

/-- What a dropped `Pending` does to the call behind it. -/
inductive DropPolicy where
  | cancel
  | detach
  deriving DecidableEq

inductive SlotState where
  | empty
  | ready
  | taken
  deriving DecidableEq

/-- The oneshot between a call and its consumer, with what waits on it. -/
structure CallSlot (T W C : Type) where
  state : SlotState
  value : Option (CallResult T)
  waker : Option W
  onComplete : Option C

/-- How a consuming method took a `Pending`. -/
inductive Consumption where
  | wait (timed : Bool)
  | onComplete
  | detach
  deriving DecidableEq

/-- Who a result was handed to. -/
inductive Receiver (C : Type) where
  | tryTake
  | poll
  | wait
  | callback (f : C)
  deriving DecidableEq

/-- Where the loop of `wait_inner` stands: before its `take`, before its `TAKEN` check, before its lock, or asleep
on the condition variable. -/
inductive WaitPoint where
  | take
  | check
  | lock
  | asleep
  deriving DecidableEq

/-- Where the `Pending` is: in the host's hands, inside a method of its own, about to be dropped at the end of
a consuming method, or dropped. -/
inductive PendingPhase (W : Type) where
  | held
  | polling (waker : W)
  | polled
  | waiting (timed : Bool) (point : WaitPoint)
  | leaving (consumed : Consumption)
  | gone

/-- Where the `Completer` is: unused, past its locked section with what it took there, or done. -/
inductive CompleterPhase (W C : Type) where
  | working
  | published (callback : Option C) (waker : Option W)
  | finished

/-- Why a call's token was tripped: by `cancel()`, or by the drop of a `Pending` in a state of its slot, at the end
of a consuming method or on its own. -/
inductive Trip where
  | cancelled
  | dropped (consumed : Option Consumption) (state : SlotState)
  deriving DecidableEq

/-- A call's two halves and its token, with what has come of it: the results handed over, the callback registered
before anyone took, and what tripped the token. -/
structure CallState (T W C : Type) where
  slot : CallSlot T W C
  completer : CompleterPhase W C
  pending : PendingPhase W
  onDrop : DropPolicy
  token : Bool
  produced : Option (CallResult T)
  handed : List (Receiver C × CallResult T)
  registered : Option C
  trips : List Trip

/-- One step of either half, a locked section being one. -/
inductive CallEvent (T W C : Type) where
  | complete (value : CallResult T)
  | dropCompleter
  | deliver
  | tryTake
  | poll (waker : W)
  | register
  | pollAgain
  | wait (timed : Bool)
  | loop
  | lock (expired : Bool)
  | wake
  | expire
  | onComplete (f : C)
  | detach
  | cancel
  | drop

variable {T W C : Type}

namespace CallState

def start : CallState T W C := ⟨⟨.empty, none, none, none⟩, .working, .held, .cancel, false, none, [], none, []⟩

/-- `Slot::take` on behalf of a receiver: the one compare-exchange from `READY` to `TAKEN`. -/
def take (s : CallState T W C) (receiver : Receiver C) : Option (CallState T W C) :=
  match s.slot.state, s.slot.value with
  | .ready, some value =>
    some { s with slot := { s.slot with state := .taken, value := none }, handed := s.handed ++ [(receiver, value)] }
  | _, _ => none

/-- The locked section of `deliver` and of the completer's drop. -/
def publish (s : CallState T W C) (value : CallResult T) : CallState T W C :=
  { s with
    slot := ⟨.ready, some value, none, none⟩
    completer := .published s.slot.onComplete s.slot.waker
    produced := some value }

/-- What `on_complete` has done when it enters its locked section. -/
def leaveWith (s : CallState T W C) (f : C) : CallState T W C :=
  { s with
    onDrop := .detach
    pending := .leaving .onComplete
    registered := if s.slot.state = .taken then s.registered else some f }

def droppedResponse : CallResult T := .error (.engine (js "runtime thread dropped response"))

/-- The drop of a `Pending`. -/
def dropPending (s : CallState T W C) (consumed : Option Consumption) : CallState T W C :=
  let s := { s with pending := .gone }
  if s.onDrop = .cancel ∧ s.slot.state = .empty then
    { s with token := true, trips := s.trips ++ [.dropped consumed s.slot.state] }
  else s

/-- A step, where its half of the call stands at it. -/
def step (s : CallState T W C) : CallEvent T W C → Option (CallState T W C)
  | .complete value =>
    match s.completer with
    | .working => some (s.publish value)
    | _ => none
  | .dropCompleter =>
    match s.completer with
    | .working => some (s.publish droppedResponse)
    | _ => none
  | .deliver =>
    match s.completer with
    | .published (some f) _ => some { (s.take (.callback f)).getD s with completer := .finished }
    | .published none _ => some { s with completer := .finished }
    | _ => none
  | .tryTake =>
    match s.pending with
    | .held => some ((s.take .tryTake).getD s)
    | _ => none
  | .poll waker =>
    match s.pending with
    | .held => some ((s.take .poll).getD { s with pending := .polling waker })
    | _ => none
  | .register =>
    match s.pending with
    | .polling waker => some { s with slot := { s.slot with waker := some waker }, pending := .polled }
    | _ => none
  | .pollAgain =>
    match s.pending with
    | .polled => some { (s.take .poll).getD s with pending := .held }
    | _ => none
  | .wait timed =>
    match s.pending with
    | .held => some { s with pending := .waiting timed .take }
    | _ => none
  | .loop =>
    match s.pending with
    | .waiting timed .take =>
      match s.take .wait with
      | some taken => some { taken with pending := .leaving (.wait timed) }
      | none => some { s with pending := .waiting timed .check }
    | .waiting timed .check =>
      if s.slot.state = .taken then some { s with pending := .leaving (.wait timed) }
      else some { s with pending := .waiting timed .lock }
    | _ => none
  | .lock expired =>
    match s.pending with
    | .waiting timed .lock =>
      if expired = true ∧ timed = false then none
      else if s.slot.state ≠ .empty then some { s with pending := .waiting timed .take }
      else if expired then some { s with pending := .leaving (.wait timed) }
      else some { s with pending := .waiting timed .asleep }
    | _ => none
  | .wake =>
    match s.pending with
    | .waiting timed .asleep => some { s with pending := .waiting timed .take }
    | _ => none
  | .expire =>
    match s.pending with
    | .waiting true .asleep =>
      if s.slot.state = .empty then some { s with pending := .leaving (.wait true) }
      else some { s with pending := .waiting true .take }
    | _ => none
  | .onComplete f =>
    match s.pending with
    | .held =>
      some (((s.leaveWith f).take (.callback f)).getD
        { s.leaveWith f with slot := { s.slot with onComplete := some f } })
    | _ => none
  | .detach =>
    match s.pending with
    | .held => some { s with onDrop := .detach, pending := .leaving .detach }
    | _ => none
  | .cancel => some { s with token := true, trips := s.trips ++ [.cancelled] }
  | .drop =>
    match s.pending with
    | .held => some (s.dropPending none)
    | .leaving consumed => some (s.dropPending (some consumed))
    | _ => none

end CallState

end Xript
