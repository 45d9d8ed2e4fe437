import Xript.Sanitize.Tree

namespace Xript

namespace Retain

inductive TypeNode where
  | name (name : JSString)
  | function
  | array (of : TypeNode)
  | map (of : TypeNode)
  | optional (of : TypeNode)
  | union (of : List TypeNode)

def skip (text : JSString) : JSString := text.dropWhile isSpace

/-- `[A-Za-z_$]`. -/
def startsName (u : Nat) : Bool := isLetter u || u == 95 || u == 36

/-- `[A-Za-z0-9_$.]`. -/
def insideName (u : Nat) : Bool := isLetter u || isDigit u || u == 95 || u == 36 || u == 46

/-- A name at the start of the text, with what follows it. -/
def nameAt : JSString → Option (JSString × JSString)
  | u :: text => if startsName u then some (u :: text.takeWhile insideName, text.dropWhile insideName) else none
  | [] => none

def nameNode (name : JSString) : TypeNode := if name = js "function" then .function else .name name

/-- The loop of `postfix`. -/
def marks (node : TypeNode) : JSString → TypeNode × JSString
  | 91 :: 93 :: text => marks (.array node) text
  | 63 :: text => marks (.optional node) text
  | u :: text => if isSpace u then marks node text else (node, u :: text)
  | [] => (node, [])

def unionNode (first : TypeNode) (others : List TypeNode) : TypeNode :=
  if others.isEmpty then first else .union (first :: others)

mutual

/-- `union`, with the text it leaves. -/
def readUnion : Nat → JSString → Option (TypeNode × JSString)
  | 0, _ => none
  | fuel + 1, text => do
    let (first, rest) ← readPostfix fuel text
    let (others, rest) ← readMembers fuel (skip rest)
    some (unionNode first others, rest)

/-- The loop of `union`. -/
def readMembers : Nat → JSString → Option (List TypeNode × JSString)
  | 0, _ => none
  | fuel + 1, 124 :: text => do
    let (next, rest) ← readPostfix fuel text
    let (others, rest) ← readMembers fuel (skip rest)
    some (next :: others, rest)
  | _ + 1, text => some ([], text)

/-- `postfix`. -/
def readPostfix : Nat → JSString → Option (TypeNode × JSString)
  | 0, _ => none
  | fuel + 1, text => do
    let (node, rest) ← readPrimary fuel (skip text)
    some (marks node rest)

/-- `primary`, behind its white space. -/
def readPrimary : Nat → JSString → Option (TypeNode × JSString)
  | 0, _ => none
  | fuel + 1, 40 :: text => do
    let (inner, rest) ← readUnion fuel text
    match skip rest with
    | 41 :: rest => some (inner, rest)
    | _ => none
  | _ + 1, text => (nameAt text).map fun found => (nameNode found.1, found.2)

end

/-- Rounds enough to read a text of the length. -/
def enough (length : Nat) : Nat := 4 * length + 4

def parseTypeString (source : JSString) : TypeNode :=
  match readUnion (enough source.length) source with
  | some (parsed, rest) => if skip rest = [] then parsed else .name source
  | none => .name source

theorem sizeOf_get {members : List (JSString × Json)} {key : JSString} {value : Json}
    (found : Record.get members key = some value) : sizeOf value < sizeOf members := by
  induction members with
  | nil => cases found
  | cons entry members ih =>
    obtain ⟨name, held⟩ := entry
    rw [Record.get, List.lookup_cons] at found
    split at found
    · obtain rfl := Option.some.inj found
      simp only [List.cons.sizeOf_spec, Prod.mk.sizeOf_spec]
      omega
    · have := ih found
      simp only [List.cons.sizeOf_spec]
      omega

def parseTypeRef : Json → TypeNode
  | .str source => parseTypeString source
  | .obj record =>
    if (Record.get record (js "function")).isSome then .function
    else match _ : Record.get record (js "optional") with
    | some type => .optional (parseTypeRef type)
    | none => match _ : Record.get record (js "array") with
      | some type => .array (parseTypeRef type)
      | none => match _ : Record.get record (js "map") with
        | some type => .map (parseTypeRef type)
        | none => match _ : Record.get record (js "union") with
          | some (.arr members) => .union (members.attach.map fun member => parseTypeRef member.1)
          | _ => .name []
  | _ => .name []
termination_by type => sizeOf type
decreasing_by
  all_goals simp only [Json.obj.sizeOf_spec]
  · have := sizeOf_get ‹_›
    omega
  · have := sizeOf_get ‹_›
    omega
  · have := sizeOf_get ‹_›
    omega
  · have inner := sizeOf_get ‹Record.get record (js "union") = _›
    have := List.sizeOf_lt_of_mem member.2
    simp only [Json.arr.sizeOf_spec] at inner
    omega

end Retain

end Xript
