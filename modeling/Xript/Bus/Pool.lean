import Xript.Bus.Calls
import Xript.Bus.Hub

namespace Xript

variable {V : Type}

/-- A change a worker commits to the shared state through `mutate`, with what its closure has captured. -/
inductive BusChange (V : Type) where
  | seed (events : List EventEntry)
  | subscribe (subscription : Subscription) (held : HeldHandler V)
  | cancel (mayCancelOthers : Bool) (caller : Option JSString) (key : JSString)
  | off (everyone : Bool) (caller : Option JSString) (id : JSString)
  | cancelOwned (owner : Option JSString)
  | spend (token : JSString)

/-- What the closure of a change returns. -/
inductive ChangeAnswer where
  | seeded
  | issued (token : JSString)
  | cancelled (answer : CancelAnswer)
  | count (dropped : Nat)
  | claimed (claimed : Bool)

/-- The closure of a change, run on a state that was read. -/
def BusChange.apply (state : BusState) : BusChange V → Except BusError (BusState × ChangeAnswer)
  | .seed events => .ok (state.seed events, .seeded)
  | .subscribe subscription _ =>
    let subscribed := state.subscribeIn subscription
    .ok (subscribed.1, .issued subscribed.2)
  | .cancel mayCancelOthers caller key =>
    (state.cancelIn mayCancelOthers caller key).map fun answer => (answer.1, .cancelled answer.2)
  | .off everyone caller id =>
    let dropped := state.offIn everyone caller id
    .ok (dropped.1, .count dropped.2)
  | .cancelOwned owner =>
    let dropped := state.cancelOwnedIn owner
    .ok (dropped.1, .count dropped.2)
  | .spend token =>
    let claimed := state.claimOnceIn token
    .ok (claimed.1, .claimed claimed.2)

/-- A run of a closure that waits to be committed: what it read and what it would write. -/
structure Attempt where
  version : Nat
  base : BusState
  next : BusState
  answer : ChangeAnswer

/-- What a worker is in the middle of, innermost first. -/
inductive PoolFrame (V : Type) where
  | dispatch (args : List V) (rest : List JSString)
  | serve (token : JSString) (args : List V)
  | handler (token : JSString)
  | waiting

/-- One worker: the handlers its sandbox holds, its stack, and the loop of `mutate` it is in, if any. -/
structure PoolWorker (V : Type) where
  handlers : Record (HeldHandler V)
  stack : List (PoolFrame V)
  change : Option (BusChange V × Option Attempt)

/-- A delivery asked of another worker. -/
structure PoolRequest (V : Type) where
  worker : Nat
  token : JSString
  args : List V

/-- The pool with what its run has brought about: the handlers that ran, the subscriptions whose `cancel` answered
`cancelled: true`, the records committed, and the tokens that a committed change had detached in its own run. -/
structure Pool (V : Type) where
  hub : HubState BusState
  workers : Nat → PoolWorker V
  requests : List (PoolRequest V)
  runs : List JSString
  cancels : List JSString
  records : Record Subscription
  removed : List JSString

/-- The shared state as a worker reads it. -/
def HubState.bus (hub : HubState BusState) : BusState := hub.state.getD blankState

namespace Pool

def start : Pool V := ⟨.empty, fun _ => ⟨[], [], none⟩, [], [], [], [], []⟩

def state (pool : Pool V) : BusState := pool.hub.bus

def setWorker (pool : Pool V) (worker : Nat) (next : PoolWorker V) : Pool V :=
  { pool with workers := Function.update pool.workers worker next }

/-- The handlers a worker still holds after its closure detached subscriptions of its own. -/
def keepHandlers (handlers : Record (HeldHandler V)) (worker : Nat) (base next : BusState) : Record (HeldHandler V) :=
  handlers.filter fun entry =>
    match base.subscriptions.get entry.1 with
    | some subscription => next.live entry.1 || decide (subscription.worker ≠ some worker)
    | none => true

/-- The read of a round of `mutate`: the closure runs at once, and drops the handlers it detaches. A closure that
throws ends the call. -/
def read (pool : Pool V) (worker : Nat) (change : BusChange V) : Pool V :=
  let current := pool.workers worker
  match change.apply pool.state with
  | .error _ => pool.setWorker worker { current with change := none }
  | .ok (next, answer) =>
    pool.setWorker worker { current with
      handlers := keepHandlers current.handlers worker pool.state next
      change := some (change, some ⟨pool.hub.version, pool.state, next, answer⟩) }

/-- What a worker does once its change is committed, up to its next access to the hub. -/
def finish (current : PoolWorker V) (change : BusChange V) (attempt : Attempt) : PoolWorker V :=
  match change, attempt.answer with
  | .subscribe _ held, .issued token =>
    { current with
      handlers := Record.set (current.handlers.filter fun entry => attempt.next.live entry.1) token held
      change := none }
  | .spend token, .claimed claimed =>
    { current with
      handlers := current.handlers.erase token
      stack := if claimed then .handler token :: current.stack else current.stack
      change := none }
  | _, _ => { current with change := none }

/-- The tokens a closure detached in its run. -/
def dropped (attempt : Attempt) : List JSString :=
  attempt.base.subscriptions.keys.filter fun token => !attempt.next.live token

/-- The write of a round of `mutate`: a stale version sends the worker back to read. -/
def write (pool : Pool V) (worker : Nat) (change : BusChange V) (attempt : Attempt) : Pool V :=
  let current := pool.workers worker
  match pool.hub.write attempt.version attempt.next with
  | (_, false) => pool.setWorker worker { current with change := some (change, none) }
  | (hub, true) =>
    { pool with
      hub := hub
      workers := Function.update pool.workers worker (finish current change attempt)
      runs := match change, attempt.answer with
        | .spend token, .claimed true => token :: pool.runs
        | _, _ => pool.runs
      cancels := match change, attempt.answer with
        | .cancel _ _ key, .cancelled ⟨true, _⟩ => key :: pool.cancels
        | _, _ => pool.cancels
      records := match change, attempt.answer with
        | .subscribe subscription _, .issued token => pool.records.set token subscription
        | _, _ => pool.records
      removed := dropped attempt ++ pool.removed }

/-- The turn of a token in a dispatch: its record is read, and it is served here or asked of its worker. -/
def deliver (pool : Pool V) (worker : Nat) (token : JSString) (args : List V) (stack : List (PoolFrame V)) : Pool V :=
  let current := pool.workers worker
  match pool.state.subscriptions.get token with
  | none => pool.setWorker worker { current with stack := stack }
  | some subscription =>
    match subscription.worker with
    | some target =>
      if target = worker then pool.setWorker worker { current with stack := .serve token args :: stack }
      else
        { pool.setWorker worker { current with stack := .waiting :: stack } with
          requests := pool.requests ++ [⟨target, token, args⟩] }
    | none => pool.setWorker worker { current with stack := stack }

/-- `serve`, up to the call of the handler or to the loop that claims a `once`. -/
def serve (ops : ValueOps V) (pool : Pool V) (worker : Nat) (token : JSString) (args : List V)
    (stack : List (PoolFrame V)) : Pool V :=
  let current := pool.workers worker
  match current.handlers.get token with
  | none => pool.setWorker worker { current with stack := stack }
  | some held =>
    match pool.state.subscriptions.get token with
    | none => pool.setWorker worker { current with handlers := current.handlers.erase token, stack := stack }
    | some subscription =>
      if held.accepts ops args then
        if subscription.once then
          pool.setWorker worker { current with stack := stack, change := some (.spend token, none) }
        else
          { pool.setWorker worker { current with stack := .handler token :: stack } with runs := token :: pool.runs }
      else pool.setWorker worker { current with stack := stack }

end Pool

/-- A script runs in the worker: at the top, or in a handler. -/
def PoolWorker.scripted (current : PoolWorker V) : Prop :=
  current.change = none ∧ (current.stack = [] ∨ ∃ token stack, current.stack = .handler token :: stack)

/-- The worker can serve what is asked of it: it is idle, or it waits for another. -/
def PoolWorker.serving (current : PoolWorker V) : Prop :=
  current.change = none ∧ (current.stack = [] ∨ ∃ stack, current.stack = .waiting :: stack)

/-- A frame that ends without a further access to the hub: a handler returns or throws, a dispatch is through or is
given up, an answer arrives. -/
def PoolFrame.leaves : PoolFrame V → Prop
  | .serve _ _ => False
  | _ => True

/-- A change a script or the host begins, as the checks before it let it through. -/
def BusChange.begun (worker : Nat) : BusChange V → Prop
  | .subscribe subscription _ => subscription.worker = some worker
  | .spend _ => False
  | _ => True

/-- One step of one worker. Every read of the hub and every write to it is a step of its own, so all interleavings
are runs. A request is served with the arguments as they arrive. -/
inductive PoolStep (ops : ValueOps V) : Pool V → Pool V → Prop
  | begin {pool : Pool V} (worker : Nat) (change : BusChange V) :
      (pool.workers worker).scripted → change.begun worker →
      PoolStep ops pool (pool.setWorker worker { pool.workers worker with change := some (change, none) })
  | read {pool : Pool V} {worker : Nat} {change : BusChange V} :
      (pool.workers worker).change = some (change, none) → PoolStep ops pool (pool.read worker change)
  | write {pool : Pool V} {worker : Nat} {change : BusChange V} {attempt : Attempt} :
      (pool.workers worker).change = some (change, some attempt) →
      PoolStep ops pool (pool.write worker change attempt)
  | emit {pool : Pool V} (worker : Nat) (id : JSString) (args : List V) :
      (pool.workers worker).scripted →
      PoolStep ops pool (pool.setWorker worker { pool.workers worker with
        stack := .dispatch args (pool.state.listeners id) :: (pool.workers worker).stack })
  | deliver {pool : Pool V} {worker : Nat} {args : List V} {token : JSString} {rest : List JSString}
      {stack : List (PoolFrame V)} :
      (pool.workers worker).change = none → (pool.workers worker).stack = .dispatch args (token :: rest) :: stack →
      PoolStep ops pool (pool.deliver worker token args (.dispatch args rest :: stack))
  | serve {pool : Pool V} {worker : Nat} {args : List V} {token : JSString} {stack : List (PoolFrame V)} :
      (pool.workers worker).change = none → (pool.workers worker).stack = .serve token args :: stack →
      PoolStep ops pool (pool.serve ops worker token args stack)
  | take {pool : Pool V} {request : PoolRequest V} {before after : List (PoolRequest V)} (args : List V) :
      (pool.workers request.worker).serving → pool.requests = before ++ request :: after →
      PoolStep ops pool { pool.setWorker request.worker { pool.workers request.worker with
        stack := .serve request.token args :: (pool.workers request.worker).stack } with requests := before ++ after }
  | leave {pool : Pool V} {worker : Nat} {frame : PoolFrame V} {stack : List (PoolFrame V)} :
      (pool.workers worker).change = none → (pool.workers worker).stack = frame :: stack → frame.leaves →
      PoolStep ops pool (pool.setWorker worker { pool.workers worker with stack := stack })

inductive PoolReach (ops : ValueOps V) : Pool V → Prop
  | start : PoolReach ops .start
  | next {before after : Pool V} : PoolReach ops before → PoolStep ops before after → PoolReach ops after

end Xript
