import Xript.Crossing.Graph

namespace Xript

def maxCrossingDepth : Nat := 2048

inductive CrossingFailure where
  | refusal (message : JSString)
  | binding (name message : JSString)
  | unreadable
  deriving DecidableEq

def tooDeepMessage : JSString :=
  js "a value nested deeper than " ++ decimal maxCrossingDepth ++ js " levels cannot cross the host boundary"

def promiseRefusal (bindingName : JSString) : CrossingFailure :=
  .binding bindingName (js "returned a promise, but the synchronous sandbox cannot await it. Declare the binding with \"async\": true in the manifest and create the runtime with initXriptAsync(), or return a plain value.")

/-- Whether every surrogate of a string is paired. -/
def isWellFormed : JSString → Bool
  | [] => true
  | u :: s =>
    if 0xD800 ≤ u ∧ u ≤ 0xDBFF then
      match s with
      | v :: t => decide (0xDC00 ≤ v ∧ v ≤ 0xDFFF) && isWellFormed t
      | [] => false
    else !decide (0xDC00 ≤ u ∧ u ≤ 0xDFFF) && isWellFormed s

def cStringSafe (value : JSString) : Bool := !value.contains 0 && isWellFormed value

/-- A double of the tape: a number of the value, or a length, a code unit or a level. -/
inductive TapeNumber where
  | double (x : F64)
  | count (n : Nat)
  deriving DecidableEq

structure InboundTape where
  codes : List Nat
  texts : List JSString
  numbers : List TapeNumber
  leaves : List Nat

/-- `String(value)` of a BigInt. -/
def bigintText (value : Int) : JSString :=
  if value < 0 then 45 :: decimal value.natAbs else decimal value.natAbs

/-- `BigInt(text)` of a text that `String` spells so. -/
def bigintOf : JSString → Option Int
  | 45 :: digits => if digits ≠ [] ∧ digits.all isDigit then some (-(readDigits 10 digits)) else none
  | digits => if digits ≠ [] ∧ digits.all isDigit then some (readDigits 10 digits) else none

namespace InboundTape

def empty : InboundTape := ⟨[], [], [], []⟩

def code (tape : InboundTape) (code : Nat) : InboundTape := { tape with codes := tape.codes ++ [code] }

def undefined (tape : InboundTape) : InboundTape := tape.code 117

def null (tape : InboundTape) : InboundTape := tape.code 110

def boolean (tape : InboundTape) (value : Bool) : InboundTape := tape.code (if value then 116 else 102)

def number (tape : InboundTape) (value : F64) : InboundTape :=
  { tape.code 100 with numbers := tape.numbers ++ [.double value] }

def spelled (tape : InboundTape) (code : Nat) (text : JSString) : InboundTape :=
  { tape.code code with numbers := tape.numbers ++ [.count text.length], texts := tape.texts ++ [text] }

def text (tape : InboundTape) (value : JSString) : InboundTape :=
  if cStringSafe value then tape.spelled 115 value
  else { tape.code 119 with numbers := tape.numbers ++ .count value.length :: value.map .count }

def bigint (tape : InboundTape) (value : Int) : InboundTape := tape.spelled 98 (bigintText value)

def symbol (tape : InboundTape) : Option JSString → InboundTape
  | none => tape.code 89
  | some description => if cStringSafe description then tape.spelled 121 description else tape.code 89

def cycle (tape : InboundTape) (up : Nat) : InboundTape :=
  { tape.code 99 with numbers := tape.numbers ++ [.count up] }

def leaf (tape : InboundTape) (handle : Nat) : InboundTape :=
  { tape.code 70 with leaves := tape.leaves ++ [handle] }

def opens (tape : InboundTape) (array : Bool) : InboundTape := tape.code (if array then 91 else 123)

def closes (tape : InboundTape) (array : Bool) : InboundTape := tape.code (if array then 93 else 125)

end InboundTape

/-- The handles of the script functions that host functions stand for. -/
structure Resolvers where
  retainedFor : Nat → Option Nat
  scopedFor : Nat → Option Nat

def isThenable (heap : Heap) (ref : Nat) : Bool :=
  match heap ref with
  | .array _ => false
  | .object members =>
    match members.get (js "then") with
    | some (.func _) => true
    | _ => false

/-- `spell` below `ancestors`, innermost first, where `room` more containers may nest. -/
def spell (resolvers : Resolvers) (heap : Heap) (bindingName : JSString) :
    Nat → List Nat → GraphValue → Bool → InboundTape → Except CrossingFailure InboundTape
  | _, _, .prim .null, _, tape => .ok tape.null
  | _, _, .prim (.bool value), _, tape => .ok (tape.boolean value)
  | _, _, .prim (.number value), _, tape => .ok (tape.number value)
  | _, _, .prim (.str value), _, tape => .ok (tape.text value)
  | _, _, .prim (.bigint value), _, tape => .ok (tape.bigint value)
  | _, _, .prim .undefined, _, tape => .ok tape.undefined
  | _, _, .symbol description, top, tape => .ok (if top then tape.symbol description else tape.undefined)
  | _, _, .func id, _, tape =>
    match resolvers.retainedFor id, resolvers.scopedFor id with
    | some handle, _ => .ok (tape.leaf handle)
    | none, some original => .ok (tape.leaf original)
    | none, none => .ok tape.undefined
  | room, ancestors, .object ref, _, tape =>
    if isThenable heap ref then .error (promiseRefusal bindingName)
    else
      match ancestors.idxOf? ref, room with
      | some above, _ => .ok (tape.cycle (above + 1))
      | none, 0 => .error (.refusal tooDeepMessage)
      | none, room + 1 =>
        match heap ref with
        | .array items =>
          (items.foldlM (fun tape item =>
            spell resolvers heap bindingName room (ref :: ancestors) (item.getD (.prim .undefined)) false tape)
            (tape.opens true)).map (·.closes true)
        | .object members =>
          (members.foldlM (fun tape member =>
            spell resolvers heap bindingName room (ref :: ancestors) member.2 false (tape.text member.1))
            (tape.opens false)).map (·.closes false)

/-- A container `decode` is filling, by its place in the sandbox's heap. -/
structure DecodeFrame where
  target : Nat
  array : Bool
  length : Nat
  key : Option JSString

/-- `decode` between two codes: what it has built, and what is left to read of the numbers, the text and the leaves. -/
structure DecodeState where
  heap : Heap
  fresh : Nat
  frames : List DecodeFrame
  numbers : List TapeNumber
  text : JSString
  leaves : List Nat
  result : Option GraphValue

namespace DecodeState

def start (numbers : List TapeNumber) (text : JSString) (leaves : List Nat) : DecodeState :=
  ⟨fun _ => .array [], 0, [], numbers, text, leaves, none⟩

/-- `place` of an element at the array's length, or of a property. -/
def placed (cell : Cell) (frame : DecodeFrame) (value : GraphValue) : Option (Cell × DecodeFrame) :=
  match cell, frame.array, frame.key with
  | .array items, true, _ => some (.array (items ++ [some value]), { frame with length := frame.length + 1 })
  | .object members, false, some key => some (.object (members.set key value), { frame with key := none })
  | cell, false, none =>
    match value with
    | .prim (.str key) => some (cell, { frame with key := some key })
    | _ => none
  | _, _, _ => none

/-- What the loop does with a value it has read. -/
def receive (s : DecodeState) (value : GraphValue) : Option DecodeState :=
  match s.frames with
  | [] => some { s with result := some value }
  | top :: frames =>
    (placed (s.heap top.target) top value).map fun (cell, top) =>
      { s with heap := Function.update s.heap top.target cell, frames := top :: frames }

def nextCount (s : DecodeState) : Option (Nat × DecodeState) :=
  match s.numbers with
  | .count n :: numbers => some (n, { s with numbers := numbers })
  | _ => none

def readText (s : DecodeState) : Option (JSString × DecodeState) :=
  s.nextCount.map fun (length, s) => (s.text.take length, { s with text := s.text.drop length })

def countsOf : List TapeNumber → Option JSString
  | [] => some []
  | .count n :: numbers => (countsOf numbers).map (n :: ·)
  | .double _ :: _ => none

def readUnits (s : DecodeState) : Option (JSString × DecodeState) :=
  s.nextCount.bind fun (length, s) =>
    (countsOf (s.numbers.take length)).map fun units => (units, { s with numbers := s.numbers.drop length })

def opened (s : DecodeState) (array : Bool) : DecodeState :=
  { s with
    heap := Function.update s.heap s.fresh (if array then .array [] else .object [])
    fresh := s.fresh + 1
    frames := ⟨s.fresh, array, 0, none⟩ :: s.frames }

/-- `frames[frames.count - up].target`. -/
def container (s : DecodeState) : Nat → Option Nat
  | 0 => none
  | above + 1 => (s.frames[above]?).map DecodeFrame.target

/-- One turn of the loop. -/
def read (s : DecodeState) : Nat → Option DecodeState
  | 123 => some (s.opened false)
  | 91 => some (s.opened true)
  | 125 | 93 =>
    match s.frames with
    | top :: frames => receive { s with frames := frames } (.object top.target)
    | [] => none
  | 100 =>
    match s.numbers with
    | .double x :: numbers => receive { s with numbers := numbers } (.prim (.number x))
    | _ => none
  | 115 => s.readText.bind fun (text, s) => s.receive (.prim (.str text))
  | 98 => s.readText.bind fun (text, s) => (bigintOf text).bind fun n => s.receive (.prim (.bigint n))
  | 121 => s.readText.bind fun (text, s) => s.receive (.symbol (some text))
  | 89 => s.receive (.symbol none)
  | 119 => s.readUnits.bind fun (units, s) => s.receive (.prim (.str units))
  | 99 => s.nextCount.bind fun (up, s) => (s.container up).bind fun ref => s.receive (.object ref)
  | 117 => s.receive (.prim .undefined)
  | 110 => s.receive (.prim .null)
  | 116 => s.receive (.prim (.bool true))
  | 102 => s.receive (.prim (.bool false))
  | 70 =>
    match s.leaves with
    | leaf :: leaves => receive { s with leaves := leaves } (.func leaf)
    | [] => none
  | _ => none

end DecodeState

/-- `decode` of a tape's buffer, text and leaves: the value with the heap it stands in. -/
def decode (codes : List Nat) (numbers : List TapeNumber) (text : JSString) (leaves : List Nat) :
    Option (GraphValue × Heap) :=
  (codes.foldlM DecodeState.read (.start numbers text leaves)).bind fun s => s.result.map (·, s.heap)

/-- `build`, with the engine's reading of a C string. -/
def InboundTape.build (newString : JSString → JSString) (tape : InboundTape) : Option (GraphValue × Heap) :=
  let text := tape.texts.flatten
  decode tape.codes tape.numbers (if text = [] then [] else newString text) tape.leaves

end Xript
