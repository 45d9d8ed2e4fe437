import Xript.Debug.Protocol

namespace Xript

structure BoundBreakpoint where
  id : Nat
  line : Int
  column : Option Int
  condition : Option String
  source : String

/-- What the Rust runtime's session keeps under its lock. -/
structure DebugState where
  breakpoints : List BoundBreakpoint
  nextBpId : Nat
  step : StepMode
  pauseRequested : Bool
  frames : List StackFrame
  paused : Bool
  pausedClockMs : Nat

/-- Where the script's thread is: on its way, past the first locked section of `on_checkpoint` with a reason to stop,
past the second with its stop announced, asleep on the condition variable, or awake and about to lock again. -/
inductive ScriptThread where
  | running
  | stopping (reason : StopReason) (hits : Option (List Nat)) (line column : Int)
  | announced (event : StoppedEvent)
  | asleep
  | awake

/-- The Rust runtime's session and the thread of the script it probes: `notifying` counts the verbs between their
locked section and their `notify_all`, and `answered` is whether a verb that resumes was issued since the last stop
was announced. -/
structure DebugSession where
  state : DebugState
  thread : ScriptThread
  notifying : Nat
  answered : Bool

/-- A step of the script's thread or of the host, a locked section being one. A thread asleep may `wake` unnotified. -/
inductive SessionEvent where
  | checkpoint (line column : Int)
  | enterPause
  | lock (elapsed : Nat)
  | wake
  | pushFrame (name source : String) (line column : Int)
  | popFrame
  | verb (verb : DebugVerb)
  | notifyAll

namespace DebugState

def start (stopOnEntry : Bool) : DebugState := ⟨[], 0, .none, stopOnEntry, [], false, 0⟩

def bind (source : String) (state : DebugState) : List SourceBreakpoint → List Breakpoint × DebugState
  | [] => ([], state)
  | sb :: rest =>
    let id := state.nextBpId + 1
    let verified := decide (sb.line ≥ 1)
    let bound : List BoundBreakpoint := if verified then [⟨id, sb.line, sb.column, sb.condition, source⟩] else []
    let (out, state) := bind source { state with nextBpId := id, breakpoints := state.breakpoints ++ bound } rest
    (⟨id, verified, sb.line, sb.column, source⟩ :: out, state)

def clearBreakpoints (state : DebugState) (source : String) : DebugState :=
  { state with breakpoints := state.breakpoints.filter (·.source != source) }

def setBreakpoints (state : DebugState) (source : String) (breakpoints : List SourceBreakpoint) :
    List Breakpoint × DebugState :=
  bind source (state.clearBreakpoints source) breakpoints

def resumeWith (state : DebugState) (mode : StepMode) : DebugState :=
  { state with step := mode, pauseRequested := false, paused := false }

/-- The breakpoints of a position, whatever their source. -/
def hits (state : DebugState) (line column : Int) : List Nat :=
  (state.breakpoints.filter fun b =>
    b.line == line && b.condition.isNone && (b.column.map (· == column)).getD true).map (·.id)

/-- The first locked section of `on_checkpoint`. -/
def stopReason (state : DebugState) (line column : Int) : Option (StopReason × Option (List Nat)) :=
  if state.hits line column ≠ [] then some (.breakpoint, some (state.hits line column))
  else if state.pauseRequested then some (.pause, none)
  else if state.step ≠ .none then some (.step, none)
  else none

/-- The second, with the source it reads off the innermost frame. -/
def enterPause (state : DebugState) (line column : Int) : String × DebugState :=
  ((state.frames.getLast?.map (·.source)).getD "",
    { state with
      frames := state.frames.dropLast ++
        (state.frames.getLast?.map fun frame => { frame with line := line, column := column }).toList
      paused := true
      pauseRequested := false })

def pushFrame (state : DebugState) (name source : String) (line column : Int) : DebugState :=
  { state with frames := state.frames ++ [⟨state.frames.length + 1, name, line, column, source⟩] }

end DebugState

namespace DebugSession

def start (stopOnEntry : Bool) : DebugSession := ⟨.start stopOnEntry, .running, 0, false⟩

def resumeWith (s : DebugSession) (mode : StepMode) : DebugSession :=
  { s with state := s.state.resumeWith mode, notifying := s.notifying + 1, answered := true }

/-- The locked section of a verb. -/
def verb (s : DebugSession) (verb : DebugVerb) : DebugSession :=
  match verb with
  | .setBreakpoints source breakpoints => { s with state := (s.state.setBreakpoints source breakpoints).2 }
  | .clearBreakpoints source => { s with state := s.state.clearBreakpoints source }
  | .pause => { s with state := { s.state with pauseRequested := true } }
  | .continue | .resume => s.resumeWith .none
  | .stepIn => s.resumeWith .in
  | .stepOver => s.resumeWith .over
  | .stepOut => s.resumeWith .out

/-- `while state.paused { wait }` from a point where the lock is taken. -/
def lock (s : DebugSession) (elapsed : Nat) : DebugSession :=
  if s.state.paused then { s with thread := .asleep }
  else { s with thread := .running, state := { s.state with pausedClockMs := s.state.pausedClockMs + elapsed } }

def notifyAll (s : DebugSession) : DebugSession :=
  { s with
    notifying := s.notifying - 1
    thread := match s.thread with
      | .asleep => .awake
      | thread => thread }

def step (s : DebugSession) : SessionEvent → Option DebugSession
  | .checkpoint line column =>
    match s.thread with
    | .running =>
      match s.state.stopReason line column with
      | some (reason, hits) => some { s with thread := .stopping reason hits line column }
      | none => some s
    | _ => none
  | .enterPause =>
    match s.thread with
    | .stopping reason hits line column =>
      let (source, state) := s.state.enterPause line column
      some { s with state := state, thread := .announced ⟨reason, hits, some source⟩, answered := false }
    | _ => none
  | .lock elapsed =>
    match s.thread with
    | .announced _ | .awake => some (s.lock elapsed)
    | _ => none
  | .wake =>
    match s.thread with
    | .asleep => some { s with thread := .awake }
    | _ => none
  | .pushFrame name source line column =>
    match s.thread with
    | .running => some { s with state := s.state.pushFrame name source line column }
    | _ => none
  | .popFrame =>
    match s.thread with
    | .running => some { s with state := { s.state with frames := s.state.frames.dropLast } }
    | _ => none
  | .verb verb => some (s.verb verb)
  | .notifyAll => if 0 < s.notifying then some s.notifyAll else none

/-- The thread sleeps, and no verb is on its way to wake it. -/
def Blocked (s : DebugSession) : Prop := s.thread = .asleep ∧ s.notifying = 0

end DebugSession

end Xript
