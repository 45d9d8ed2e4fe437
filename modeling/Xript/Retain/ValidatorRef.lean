import Xript.Retain.TypeRef

namespace Xript

namespace TypeRef

inductive TypeNode where
  | name (name : JSString)
  | array (element : TypeNode)
  | union (members : List TypeNode)
  | map (value : TypeNode)
  | optional (inner : TypeNode)
  | function
  | signature (params : List Json) (returns : Option TypeNode)
  | unknown

inductive Token where
  | name (v : JSString)
  | bar
  | pair
  | question
  | opening
  | closing

/-- The tokens that are one unit. -/
def unitToken : Nat → Option Token
  | 124 => some .bar
  | 63 => some .question
  | 40 => some .opening
  | 41 => some .closing
  | _ => none

theorem length_dropWhile_le {α : Type} (p : α → Bool) (as : List α) : (as.dropWhile p).length ≤ as.length :=
  (List.dropWhile_suffix p).length_le

def tokenize : JSString → Option (List Token)
  | [] => some []
  | u :: source =>
    if isSpace u then tokenize source
    else match unitToken u with
    | some token => (tokenize source).map (token :: ·)
    | none =>
      if u = 91 then
        match _ : source.dropWhile isSpace with
        | 93 :: rest => (tokenize rest).map (.pair :: ·)
        | _ => none
      else if Retain.startsName u then
        (tokenize (source.dropWhile Retain.insideName)).map (.name (u :: source.takeWhile Retain.insideName) :: ·)
      else none
termination_by source => source.length
decreasing_by
  · exact Nat.lt_succ_self _
  · exact Nat.lt_succ_self _
  · rename_i bracket
    have shorter := length_dropWhile_le isSpace source
    rw [bracket, List.length_cons] at shorter
    rw [List.length_cons]
    omega
  · exact Nat.lt_succ_of_le (length_dropWhile_le _ _)

/-- The loop of `parsePostfix`. -/
def parseMarks (node : TypeNode) : List Token → TypeNode × List Token
  | .pair :: tokens => parseMarks (.array node) tokens
  | .question :: tokens => parseMarks (.optional node) tokens
  | tokens => (node, tokens)

def unionNode (first : TypeNode) (others : List TypeNode) : TypeNode :=
  if others.isEmpty then first else .union (first :: others)

mutual

/-- `parseUnion`, with the tokens it leaves. -/
def parseUnion : Nat → List Token → Option (TypeNode × List Token)
  | 0, _ => none
  | fuel + 1, tokens => do
    let (first, rest) ← parsePostfix fuel tokens
    let (others, rest) ← parseMembers fuel rest
    some (unionNode first others, rest)

/-- The loop of `parseUnion`. -/
def parseMembers : Nat → List Token → Option (List TypeNode × List Token)
  | 0, _ => none
  | fuel + 1, .bar :: tokens => do
    let (next, rest) ← parsePostfix fuel tokens
    let (others, rest) ← parseMembers fuel rest
    some (next :: others, rest)
  | _ + 1, tokens => some ([], tokens)

def parsePostfix : Nat → List Token → Option (TypeNode × List Token)
  | 0, _ => none
  | fuel + 1, tokens => do
    let (node, rest) ← parsePrimary fuel tokens
    some (parseMarks node rest)

def parsePrimary : Nat → List Token → Option (TypeNode × List Token)
  | 0, _ => none
  | _ + 1, .name v :: tokens => some (.name v, tokens)
  | fuel + 1, .opening :: tokens => do
    let (inner, rest) ← parseUnion fuel tokens
    match rest with
    | .closing :: rest => some (inner, rest)
    | _ => none
  | _ + 1, _ => none

end

def parseTypeString (source : JSString) : TypeNode :=
  match tokenize source with
  | none => .name (trim source)
  | some tokens =>
    match parseUnion (Retain.enough tokens.length) tokens with
    | some (parsed, []) => parsed
    | _ => .name (trim source)

/-- `typeof value === "object" && value !== null`. -/
def isObject : Json → Bool
  | .arr _ => true
  | .obj _ => true
  | _ => false

/-- A property of an object value that is no array index. -/
def property : Json → JSString → Option Json
  | .obj members, key => Record.get members key
  | _, _ => none

theorem sizeOf_property {value held : Json} {key : JSString} (found : property value key = some held) :
    sizeOf held < sizeOf value := by
  cases value with
  | obj members =>
    have := Retain.sizeOf_get found
    simp only [Json.obj.sizeOf_spec]
    omega
  | null | bool | num | str | arr => cases found

def parseTypeRef : Json → TypeNode
  | .str source => parseTypeString source
  | .obj record =>
    match _ : Record.get record (js "array") with
    | some type => .array (parseTypeRef type)
    | none => match _ : Record.get record (js "union") with
      | some (.arr members) => .union (members.attach.map fun member => parseTypeRef member.1)
      | _ => match _ : Record.get record (js "map") with
        | some type => .map (parseTypeRef type)
        | none => match _ : Record.get record (js "optional") with
          | some type => .optional (parseTypeRef type)
          | none => match _ : Record.get record (js "function") with
            | some signature =>
              if isObject signature then
                let params := match property signature (js "params") with
                  | some (.arr params) => params.filter isObject
                  | _ => []
                match _ : property signature (js "returns") with
                | some returns => .signature params (some (parseTypeRef returns))
                | none => .signature params none
              else .unknown
            | none => .unknown
  | _ => .unknown
termination_by type => sizeOf type
decreasing_by
  all_goals simp only [Json.obj.sizeOf_spec]
  · have := Retain.sizeOf_get ‹_›
    omega
  · have inner := Retain.sizeOf_get ‹Record.get record (js "union") = _›
    have := List.sizeOf_lt_of_mem member.2
    simp only [Json.arr.sizeOf_spec] at inner
    omega
  · have := Retain.sizeOf_get ‹_›
    omega
  · have := Retain.sizeOf_get ‹_›
    omega
  · have outer := Retain.sizeOf_get ‹Record.get record (js "function") = _›
    have := sizeOf_property ‹_›
    omega

end TypeRef

end Xript
