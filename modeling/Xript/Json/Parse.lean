import Xript.Number.RoundTrip
import Xript.Sanitize.Tree

namespace Xript

def isJsonSpace (u : Nat) : Bool := u = 32 || u = 9 || u = 10 || u = 13

def skipJsonSpace (s : JSString) : JSString := s.dropWhile isJsonSpace

def hexValue (u : Nat) : Nat := if isDigit u then u - 48 else if isUpper u then u - 55 else u - 87

/-- What a one-letter escape stands for. -/
def simpleEscape (u : Nat) : Option Nat :=
  if u = 34 ∨ u = 92 ∨ u = 47 then some u
  else if u = 98 then some 8
  else if u = 102 then some 12
  else if u = 110 then some 10
  else if u = 114 then some 13
  else if u = 116 then some 9
  else none

/-- A string literal after its opening quote: its units and what follows the closing quote. -/
def parseStringBody : JSString → Option (JSString × JSString)
  | [] => none
  | 34 :: s => some ([], s)
  | 92 :: 117 :: a :: b :: c :: d :: s =>
    if isHexDigit a && isHexDigit b && isHexDigit c && isHexDigit d then
      (parseStringBody s).map fun parsed =>
        ((((hexValue a * 16 + hexValue b) * 16 + hexValue c) * 16 + hexValue d) :: parsed.1, parsed.2)
    else none
  | 92 :: u :: s =>
    match simpleEscape u with
    | some unit => (parseStringBody s).map fun parsed => (unit :: parsed.1, parsed.2)
    | none => none
  | u :: s => if u < 32 ∨ u = 92 then none else (parseStringBody s).map fun parsed => (u :: parsed.1, parsed.2)

/-- The units a number literal is made of. -/
def isNumberUnit (u : Nat) : Bool := isDigit u || u = 43 || u = 45 || u = 46 || u = 101 || u = 69

/-- The number grammar of JSON. -/
def isJsonNumber (token : JSString) : Bool :=
  let unsigned := match token with
    | 45 :: t => t
    | t => t
  let whole := takeDecimal unsigned
  (whole.1 = [48] || (whole.1 ≠ [] && whole.1.head? ≠ some 48)) &&
    match whole.2 with
    | 46 :: t => (takeDecimal t).1 ≠ [] && (readExponent (takeDecimal t).2).isSome
    | t => (readExponent t).isSome

/-- The literals `null`, `true` and `false`. -/
def parseWord (s : JSString) : Option (Json × JSString) :=
  if (js "null").isPrefixOf s then some (.null, s.drop 4)
  else if (js "true").isPrefixOf s then some (.bool true, s.drop 4)
  else if (js "false").isPrefixOf s then some (.bool false, s.drop 5)
  else none

def parseNumber (s : JSString) : Option (Json × JSString) :=
  let token := s.takeWhile isNumberUnit
  if isJsonNumber token then some (.num (F64.ofDecimalText token), s.dropWhile isNumberUnit) else none

mutual

/-- One value, with what follows it. The fuel bounds the nesting and the number of entries. -/
def parseValue : Nat → JSString → Option (Json × JSString)
  | 0, _ => none
  | fuel + 1, s =>
    match skipJsonSpace s with
    | 34 :: t => (parseStringBody t).map fun parsed => (.str parsed.1, parsed.2)
    | 91 :: t =>
      match skipJsonSpace t with
      | 93 :: rest => some (.arr [], rest)
      | _ => (parseItems fuel t).map fun parsed => (.arr parsed.1, parsed.2)
    | 123 :: t =>
      match skipJsonSpace t with
      | 125 :: rest => some (.obj [], rest)
      | _ => (parseMembers fuel [] t).map fun parsed => (.obj parsed.1, parsed.2)
    | t => (parseWord t).orElse fun _ => parseNumber t

def parseItems : Nat → JSString → Option (List Json × JSString)
  | 0, _ => none
  | fuel + 1, s =>
    (parseValue fuel s).bind fun parsed =>
      match skipJsonSpace parsed.2 with
      | 93 :: rest => some ([parsed.1], rest)
      | 44 :: rest => (parseItems fuel rest).map fun more => (parsed.1 :: more.1, more.2)
      | _ => none

/-- The members of an object are defined one after another, so a key written again keeps its place. -/
def parseMembers : Nat → Record Json → JSString → Option (Record Json × JSString)
  | 0, _, _ => none
  | fuel + 1, members, s =>
    match skipJsonSpace s with
    | 34 :: t =>
      (parseStringBody t).bind fun key =>
        match skipJsonSpace key.2 with
        | 58 :: u =>
          (parseValue fuel u).bind fun parsed =>
            let defined := Record.set members key.1 parsed.1
            match skipJsonSpace parsed.2 with
            | 125 :: rest => some (defined, rest)
            | 44 :: rest => parseMembers fuel defined rest
            | _ => none
        | _ => none
    | _ => none

end

/-- `JSON.parse(text)`, `none` where it throws. -/
def parseJson (text : JSString) : Option Json :=
  match parseValue (text.length + 1) text with
  | some (value, rest) => if skipJsonSpace rest = [] then some value else none
  | none => none

end Xript
