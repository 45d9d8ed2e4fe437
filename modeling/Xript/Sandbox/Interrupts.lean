import Mathlib.Data.List.Basic

namespace Xript

/-- What an embedder and a manifest say about the time of an async sandbox's calls. -/
structure SandboxBudget where
  timeoutMs : Option Nat
  hardTimeoutMs : Option Nat
  budgetHandlers : Bool
  cancellation : Bool

def clampLimit : Option Nat → Option Nat → Option Nat
  | none, hard => hard
  | some requested, none => some requested
  | some requested, some hard => some (min requested hard)

namespace SandboxBudget

def timeout (budget : SandboxBudget) : Nat :=
  (clampLimit (some (budget.timeoutMs.getD 5000)) budget.hardTimeoutMs).getD 5000

def callTimeoutMs (budget : SandboxBudget) : Option Nat → Nat
  | none => budget.timeout
  | some overrideMs => (clampLimit (some overrideMs) budget.hardTimeoutMs).getD budget.timeout

end SandboxBudget

/-- The regions of script code the host runs: its calls up to their first wait, and the drains of the job queue, which
run what comes after it. -/
inductive SandboxCall where
  | execute
  | executeAsync
  | invokeExport (timeoutOverrideMs : Option Nat)
  | invokeExportAsync (timeoutOverrideMs : Option Nat)
  | evaluateModule
  | fireHook (limitMs : Option Nat)
  | drain
  deriving DecidableEq

/-- A frame of the interrupt stack; `id` is its identity as an object. -/
structure InterruptFrame where
  id : Nat
  deadline : Nat
  cancellation : Bool
  deriving DecidableEq

/-- A region with its frame: a drain also has the call whose continuation it runs, by that call's frame, and a region
that the handler stopped runs no more script code. -/
structure Region where
  call : SandboxCall
  frame : Option InterruptFrame
  resumes : Option Nat
  stopped : Bool
  deriving DecidableEq

/-- The interrupt stack of one async sandbox, with the regions on the host's call stack, innermost first, and the async
calls that wait off it with their frame still pushed. -/
structure Interrupts where
  now : Nat
  cancelled : Bool
  frames : List InterruptFrame
  installed : Bool
  nextId : Nat
  stack : List Region
  suspended : List Region

/-- A step of the host, of the event loop, or of the engine, which consults the handler by `check`. -/
inductive InterruptEvent where
  | tick (now : Nat)
  | cancel
  | enter (call : SandboxCall)
  | leave
  | suspend
  | resume (region : Region)
  | settle (region : Region)
  | job (resumes : Option Nat)
  | check

def SandboxCall.budget (budget : SandboxBudget) : SandboxCall → Option Nat
  | .execute | .executeAsync | .evaluateModule | .drain => some budget.timeout
  | .invokeExport overrideMs | .invokeExportAsync overrideMs => some (budget.callTimeoutMs overrideMs)
  | .fireHook limitMs => if budget.budgetHandlers then some (budget.callTimeoutMs limitMs) else none

/-- The calls that first look at the sandbox's cancellation token. -/
def SandboxCall.RefusesCancelled : SandboxCall → Prop
  | .fireHook _ | .drain => False
  | _ => True

instance (call : SandboxCall) : Decidable call.RefusesCancelled := by
  cases call <;> unfold SandboxCall.RefusesCancelled <;> infer_instance

/-- The calls whose frame is popped when their promise settles. -/
def SandboxCall.Suspends : SandboxCall → Prop
  | .invokeExportAsync _ | .evaluateModule => True
  | _ => False

instance (call : SandboxCall) : Decidable call.Suspends := by
  cases call <;> unfold SandboxCall.Suspends <;> infer_instance

def InterruptFrame.due (frame : InterruptFrame) (now : Nat) (cancelled : Bool) : Bool :=
  (frame.cancellation && cancelled) || decide (now ≥ frame.deadline)

namespace Interrupts

def start : Interrupts := ⟨0, false, [], false, 0, [], []⟩

def due (s : Interrupts) : Bool := s.frames.any fun frame => frame.due s.now s.cancelled

/-- What the engine gets of the handler, if there is one. -/
def stops (s : Interrupts) : Bool := s.installed && s.due

def pushInterruptFrame (s : Interrupts) (frame : InterruptFrame) : Interrupts :=
  let frames := s.frames ++ [frame]
  { s with frames := frames, installed := s.installed || frames.length == 1, nextId := s.nextId + 1 }

/-- The pop a push hands out: `frames.lastIndexOf(frame)` taken out of the list. -/
def popInterrupt (s : Interrupts) : Option InterruptFrame → Interrupts
  | none => s
  | some frame =>
    let frames := (s.frames.reverse.erase frame).reverse
    { s with frames := frames, installed := s.installed && frames.length != 0 }

def enter (budget : SandboxBudget) (s : Interrupts) (call : SandboxCall) : Interrupts :=
  match call.budget budget with
  | some budgetMs =>
    let frame : InterruptFrame := ⟨s.nextId, s.now + budgetMs, budget.cancellation⟩
    { s.pushInterruptFrame frame with stack := ⟨call, some frame, none, false⟩ :: s.stack }
  | none => { s with stack := ⟨call, none, none, false⟩ :: s.stack }

def step (budget : SandboxBudget) (s : Interrupts) : InterruptEvent → Option Interrupts
  | .tick now => some { s with now := now }
  | .cancel => some { s with cancelled := true }
  | .enter call =>
    if call.RefusesCancelled ∧ budget.cancellation = true ∧ s.cancelled = true then none else some (s.enter budget call)
  | .leave =>
    match s.stack with
    | ⟨.invokeExportAsync _, _, _, _⟩ :: _ | [] => none
    | region :: stack => some { s.popInterrupt region.frame with stack := stack }
  | .suspend =>
    match s.stack with
    | region :: stack =>
      if region.call.Suspends then some { s with stack := stack, suspended := region :: s.suspended } else none
    | [] => none
  -- only the event loop goes on with a waiting call, on an empty call stack
  | .resume region =>
    if s.stack = [] ∧ region ∈ s.suspended then
      some { s with stack := [region], suspended := s.suspended.erase region }
    else none
  | .settle region =>
    if s.stack = [] ∧ region ∈ s.suspended then
      some { s.popInterrupt region.frame with suspended := s.suspended.erase region }
    else none
  | .job resumes =>
    match s.stack with
    | ⟨.drain, frame, _, stopped⟩ :: stack => some { s with stack := ⟨.drain, frame, resumes, stopped⟩ :: stack }
    | _ => none
  | .check =>
    match s.stack with
    | region :: stack =>
      if region.stopped then none
      else some { s with stack := { region with stopped := s.stops } :: stack }
    | [] => none

end Interrupts

end Xript
