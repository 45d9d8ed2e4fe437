import Mathlib.Data.List.Basic
import Xript.Machine.Runs

namespace Xript

/-- How far `dispatch` has come with a call it has handed to the worker's runtime. -/
inductive Dispatching where
  | built
  | counted
  | queued
  | registered
  deriving DecidableEq

/-- The slot of the runtime's own `Pending`. -/
inductive ReplySlot where
  | empty
  | ready
  | taken
  deriving DecidableEq

/-- How far the callback that `dispatch` registers has come. -/
inductive Replying where
  | waiting
  | called
  | won
  | lowered
  | retained
  | lost
  | finished (won : Bool)
  deriving DecidableEq

/-- How far a pass of `answer_queued` has come with a call. -/
inductive Shedding where
  | untouched
  | removed
  | won
  | lowered
  | cancelled
  | lost
  | finished
  deriving DecidableEq

/-- Who completed a caller's `Pending`: the runtime's reply, or the pool's error. -/
inductive AnsweredBy where
  | runtime
  | pool
  deriving DecidableEq

/-- A call admitted to a worker, with what its threads share of it: the flag set by whoever answers it first, whether its
holder still has the completer, its token, and what its `Pending` was completed with. -/
structure AdmittedCall where
  dispatching : Dispatching
  slot : ReplySlot
  replying : Replying
  shedding : Shedding
  settled : Bool
  held : Bool
  cancelled : Bool
  answers : List AnsweredBy

/-- One atomic access of a thread to what it shares with others about a call. -/
inductive CallAccess where
  | count
  | push
  | register
  | complete
  | cancel
  | settle
  | lower
  | retain
  | deliver
  | remove
  | claim
  | lowerShed
  | trip
  | fail
  deriving DecidableEq

namespace AdmittedCall

def built : AdmittedCall := ⟨.built, .empty, .waiting, .untouched, false, true, false, []⟩

/-- What an access makes of a call, where its thread has come that far. -/
def access (x : AdmittedCall) : CallAccess → Option AdmittedCall
  | .count => if x.dispatching = .built then some { x with dispatching := .counted } else none
  | .push => if x.dispatching = .counted then some { x with dispatching := .queued } else none
  | .register =>
    if x.dispatching = .queued then
      match x.slot with
      -- The call has completed already, so its callback runs on this thread.
      | .ready => some { x with dispatching := .registered, slot := .taken, replying := .called }
      | _ => some { x with dispatching := .registered }
    else none
  | .complete =>
    if x.slot = .empty then
      match x.dispatching with
      | .registered => some { x with slot := .taken, replying := .called }
      | _ => some { x with slot := .ready }
    else none
  | .cancel => some { x with cancelled := true }
  | .settle =>
    if x.replying = .called then some { x with settled := true, replying := if x.settled then .lost else .won }
    else none
  | .lower => if x.replying = .won then some { x with replying := .lowered } else none
  | .retain => if x.replying = .lowered then some { x with replying := .retained } else none
  | .deliver =>
    let delivered := { x with held := false, answers := if x.held then x.answers ++ [AnsweredBy.runtime] else x.answers }
    match x.replying with
    | .retained => some { delivered with replying := .finished true }
    | .lost => some { delivered with replying := .finished false }
    | _ => none
  | .remove => if x.shedding = .untouched then some { x with shedding := .removed } else none
  | .claim =>
    if x.shedding = .removed then some { x with settled := true, shedding := if x.settled then .lost else .won }
    else none
  | .lowerShed => if x.shedding = .won then some { x with shedding := .lowered } else none
  | .trip => if x.shedding = .lowered then some { x with cancelled := true, shedding := .cancelled } else none
  | .fail =>
    if x.shedding = .cancelled then
      some { x with
        held := false
        answers := if x.held then x.answers ++ [.pool] else x.answers
        shedding := .finished }
    else none

end AdmittedCall

/-- A pass of `answer_queued`: the tokens it saw in flight, its limit, how many calls it answered, and the call it has
taken out of the queue. -/
structure ShedPass where
  running : List Nat
  limit : Nat
  answered : Nat
  call : Option Nat

/-- A worker of a pool, with the calls admitted to it; a call's token is its place among them. -/
structure Worker where
  calls : List AdmittedCall
  depth : Int
  queue : List Nat
  inFlight : List Nat
  passes : List ShedPass

inductive PoolEvent where
  /-- `dispatch` hands a call to the runtime; what follows is done by its thread. -/
  | build
  | count (call : Nat)
  | push (call : Nat)
  | register (call : Nat)
  /-- The runtime replies, or goes away without a reply. -/
  | complete (call : Nat)
  | cancel (call : Nat)
  /-- The callback of a reply. -/
  | settle (call : Nat)
  | lower (call : Nat)
  | retain (call : Nat)
  | deliver (call : Nat)
  /-- The runtime thread records a call it runs, and forgets it afterwards. -/
  | record (call : Nat)
  | forget (call : Nat)
  /-- `answer_queued` starts and reads the tokens in flight, takes one call after the other, and returns. -/
  | answerQueued (limit : Nat)
  | take (pass call : Nat)
  | claim (pass : Nat)
  | lowerShed (pass : Nat)
  | trip (pass : Nat)
  | fail (pass : Nat)
  | leave (pass : Nat)

namespace Worker

def start : Worker := ⟨[], 0, [], [], []⟩

/-- One access to a call. -/
def onCall (s : Worker) (call : Nat) (access : CallAccess) : Option Worker :=
  (s.calls[call]?.bind fun x => x.access access).map fun x => { s with calls := s.calls.set call x }

/-- One access of a pass to the call it has taken, and what becomes of the pass. -/
def onPass (s : Worker) (pass : Nat) (access : CallAccess) (change : AdmittedCall → ShedPass → ShedPass) :
    Option Worker :=
  match s.passes[pass]? with
  | none => none
  | some p =>
    match p.call with
    | none => none
    | some call =>
      match s.calls[call]? with
      | none => none
      | some x => (s.onCall call access).map fun t => { t with passes := t.passes.set pass (change x p) }

/-- A call that a scan of the queue passes: it is settled, or was in flight when the pass began. -/
def passedOver (s : Worker) (p : ShedPass) (call : Nat) : Bool :=
  p.running.contains call || (s.calls[call]?.any AdmittedCall.settled)

def step (s : Worker) : PoolEvent → Option Worker
  | .build => some { s with calls := s.calls ++ [.built] }
  | .count call => (s.onCall call .count).map fun t => { t with depth := t.depth + 1 }
  | .push call => (s.onCall call .push).map fun t => { t with queue := t.queue ++ [call] }
  | .register call => s.onCall call .register
  | .complete call => s.onCall call .complete
  | .cancel call => s.onCall call .cancel
  | .settle call => s.onCall call .settle
  | .lower call => (s.onCall call .lower).map fun t => { t with depth := t.depth - 1 }
  | .retain call => (s.onCall call .retain).map fun t => { t with queue := t.queue.filter fun other => other ≠ call }
  | .deliver call => s.onCall call .deliver
  | .record call => some { s with inFlight := s.inFlight ++ [call] }
  | .forget call => some { s with inFlight := s.inFlight.filter fun other => other ≠ call }
  | .answerQueued limit => some { s with passes := s.passes ++ [⟨s.inFlight, limit, 0, none⟩] }
  | .take pass call =>
    match s.passes[pass]? with
    | some p =>
      -- A flag the scan reads as unset may be set before the call is removed; one it reads as set stays so.
      if p.call = none ∧ p.answered < p.limit ∧ call ∉ p.running ∧ call ∈ s.queue ∧
          (s.queue.takeWhile fun other => other ≠ call).all (s.passedOver p) then
        (s.onCall call .remove).map fun t => { t with
          queue := t.queue.erase call
          passes := t.passes.set pass { p with call := some call } }
      else none
    | none => none
  | .claim pass => s.onPass pass .claim fun x p => if x.settled then { p with call := none } else p
  | .lowerShed pass => (s.onPass pass .lowerShed fun _ p => p).map fun t => { t with depth := t.depth - 1 }
  | .trip pass => s.onPass pass .trip fun _ p => p
  | .fail pass => s.onPass pass .fail fun _ p => { p with call := none, answered := p.answered + 1 }
  | .leave pass =>
    match s.passes[pass]? with
    | some p =>
      if p.call = none ∧ (p.limit ≤ p.answered ∨ s.queue.all (s.passedOver p)) then
        some { s with passes := s.passes.eraseIdx pass }
      else none
    | none => none

end Worker

end Xript
