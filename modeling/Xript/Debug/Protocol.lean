import Mathlib.Logic.Function.Basic

namespace Xript

structure SourceBreakpoint where
  line : Int
  column : Option Int
  condition : Option String

structure Breakpoint where
  id : Nat
  verified : Bool
  line : Int
  column : Option Int
  source : String
  deriving DecidableEq

structure StackFrame where
  id : Nat
  name : String
  line : Int
  column : Int
  source : String
  deriving DecidableEq

inductive StopReason where
  | breakpoint
  | step
  | pause
  | entry
  | exception
  deriving DecidableEq

/-- What a `stopped` event carries; its `threadId` is 1 everywhere. -/
structure StoppedEvent where
  reason : StopReason
  hitBreakpointIds : Option (List Nat)
  description : Option String
  deriving DecidableEq

inductive StepMode where
  | none
  | in
  | over
  | out
  deriving DecidableEq

/-- The verbs of a debug session that change its state. -/
inductive DebugVerb where
  | setBreakpoints (source : String) (requested : List SourceBreakpoint)
  | clearBreakpoints (source : String)
  | pause
  | continue
  | resume
  | stepIn
  | stepOver
  | stepOut

/-- The step mode a verb resumes with, if it resumes. -/
def DebugVerb.mode : DebugVerb → Option StepMode
  | .continue | .resume => some .none
  | .stepIn => some .in
  | .stepOver => some .over
  | .stepOut => some .out
  | .setBreakpoints _ _ | .clearBreakpoints _ | .pause => none

/-- A verb that lets a stopped script go on. -/
def DebugVerb.Resumes (verb : DebugVerb) : Prop := verb.mode ≠ none

instance (verb : DebugVerb) : Decidable verb.Resumes := inferInstanceAs (Decidable (verb.mode ≠ none))

end Xript
