import Xript.Debug.Protocol

namespace Xript

/-- The state of the JavaScript runtimes' debug core, with the counter its module numbers breakpoints by. -/
structure DebugCore where
  breakpoints : String → Option (List Breakpoint)
  breakableLines : List Int
  primarySource : String
  breakpointIdCounter : Nat
  stepMode : StepMode
  pauseRequested : Bool
  paused : Bool
  currentFrames : List StackFrame
  lastStopped : Option StoppedEvent

namespace DebugCore

def start : DebugCore := ⟨fun _ => none, [], "xript-script.js", 0, .none, false, false, [], none⟩

def rebindBreakpoints (core : DebugCore) (source : String) : DebugCore :=
  match core.breakpoints source with
  | none => core
  | some existing =>
    { core with
      breakpoints := Function.update core.breakpoints source
        (some (existing.map fun bp => { bp with verified := core.breakableLines.contains bp.line })) }

def setBreakableLines (core : DebugCore) (source : String) (lines : List Int) : DebugCore :=
  { core with primarySource := source, breakableLines := lines }.rebindBreakpoints source

def bind (core : DebugCore) (source : String) : Nat → List SourceBreakpoint → List Breakpoint
  | _, [] => []
  | counter, sb :: rest =>
    ⟨counter + 1, source == core.primarySource && core.breakableLines.contains sb.line, sb.line, sb.column, source⟩ ::
      core.bind source (counter + 1) rest

def setBreakpoints (core : DebugCore) (source : String) (requested : List SourceBreakpoint) :
    List Breakpoint × DebugCore :=
  let bound := core.bind source core.breakpointIdCounter requested
  (bound, { core with
    breakpoints := Function.update core.breakpoints source (some bound)
    breakpointIdCounter := core.breakpointIdCounter + requested.length })

def clearBreakpoints (core : DebugCore) (source : String) : DebugCore :=
  { core with breakpoints := Function.update core.breakpoints source none }

def pause (core : DebugCore) : DebugCore := { core with pauseRequested := true }

def resume (core : DebugCore) : DebugCore := { core with stepMode := .none, paused := false, pauseRequested := false }

def step (core : DebugCore) (mode : StepMode) : DebugCore := { core with stepMode := mode, paused := false }

def breakpointsAt (core : DebugCore) (line : Int) : List Breakpoint :=
  ((core.breakpoints core.primarySource).getD []).filter fun b => b.verified && b.line == line

def shouldStop (core : DebugCore) (line : Int) : Option StopReason × DebugCore :=
  if core.pauseRequested then (some .pause, { core with pauseRequested := false })
  else if core.stepMode ≠ .none then (some .step, core)
  else if (core.breakpointsAt line).length > 0 then (some .breakpoint, core)
  else (none, core)

/-- What `enterPause` has done when it calls the `onStopped` sink. -/
def enterPause (core : DebugCore) (reason : StopReason) (line column : Int) (frameName : String) : DebugCore :=
  let hitIds := if reason = .breakpoint then (core.breakpointsAt line).map (·.id) else []
  { core with
    paused := true
    currentFrames := [⟨1, frameName, line, column, core.primarySource⟩]
    lastStopped := some ⟨reason, if hitIds = [] then none else some hitIds, none⟩ }

end DebugCore

/-- Where the script is: on its way, inside the `onStopped` sink of a stop, or at `await gate.wait()`. -/
inductive ScriptPhase where
  | running
  | announced
  | awaiting
  deriving DecidableEq

/-- The JavaScript debug controller and the script it probes: `resolver` is whether the gate holds one, and `answered`
whether a verb that resumes was issued since the last stop was announced. -/
structure DebugController where
  core : DebugCore
  resolver : Bool
  pendingReason : Option StopReason
  script : ScriptPhase
  answered : Bool

/-- A checkpoint of the script, the return of the `onStopped` sink into `gate.wait()`, the continuation of a released
wait, a new script, and a verb of the host, inside the sink or not. -/
inductive ControllerEvent where
  | checkpoint (line column : Int)
  | wait
  | proceed
  | setBreakableLines (source : String) (lines : List Int)
  | verb (verb : DebugVerb)

namespace DebugController

def start : DebugController := ⟨.start, false, none, .running, false⟩

def shouldStop (c : DebugController) (line : Int) : Bool × DebugController :=
  match c.core.shouldStop line with
  | (some reason, core) => (true, { c with core := core, pendingReason := some reason })
  | (none, core) => (false, { c with core := core })

/-- `pause` up to its `onStopped` sink. -/
def announce (c : DebugController) (line column : Int) : DebugController :=
  { c with
    core := c.core.enterPause (c.pendingReason.getD .step) line column "<script>"
    pendingReason := none
    script := .announced
    answered := false }

/-- `gate.wait()`. -/
def wait (c : DebugController) : DebugController := { c with resolver := true, script := .awaiting }

/-- `gate.release()`, by a verb that resumes. -/
def release (c : DebugController) : DebugController := { c with resolver := false, answered := true }

def verb (c : DebugController) : DebugVerb → DebugController
  | .setBreakpoints source requested => { c with core := (c.core.setBreakpoints source requested).2 }
  | .clearBreakpoints source => { c with core := c.core.clearBreakpoints source }
  | .pause => { c with core := c.core.pause }
  | .continue | .resume => release { c with core := c.core.resume }
  | .stepIn => release { c with core := c.core.step .in }
  | .stepOver => release { c with core := c.core.step .over }
  | .stepOut => release { c with core := c.core.step .out }

def step (c : DebugController) : ControllerEvent → Option DebugController
  | .checkpoint line column =>
    if c.script = .running then
      match c.shouldStop line with
      | (true, stopping) => some (stopping.announce line column)
      | (false, going) => some going
    else none
  | .wait => if c.script = .announced then some c.wait else none
  | .proceed => if c.script = .awaiting ∧ c.resolver = false then some { c with script := .running } else none
  | .setBreakableLines source lines => some { c with core := c.core.setBreakableLines source lines }
  | .verb verb => some (c.verb verb)

/-- The script waits on the gate, and nothing has released it. -/
def Blocked (c : DebugController) : Prop := c.script = .awaiting ∧ c.resolver = true

end DebugController

end Xript
