import Xript.Number.F64
import Xript.Text.CodeUnit

namespace Xript

/-- The decimal digits of a natural number. -/
def decimal (n : Nat) : JSString := js n.repr

/-- `10 ^ e` as a rational number. -/
def pow10 (e : Int) : ℚ := if 0 ≤ e then ((10 ^ e.toNat : Nat) : ℚ) else 1 / ((10 ^ (-e).toNat : Nat) : ℚ)

/-- The least `p` with `q < 10 ^ p`, for a positive rational number: the position of the decimal
point before its leading digit. -/
def decimalPoint (q : ℚ) : Int :=
  let estimate := ((decimal q.num.natAbs).length : Int) - (decimal q.den).length
  if q < pow10 estimate then estimate else estimate + 1

/-- The digit string of length `k` nearest `q` among the two around it that `accepts` admits. The
upper one may carry into a further digit, which only happens at length one. -/
def digitsOfLength (accepts : ℚ → Bool) (q : ℚ) (point : Int) (k : Nat) : Option Nat :=
  let unit := pow10 (point - k)
  let below := ⌊q / unit⌋.toNat
  let above := below + 1
  let fits := fun n : Nat => (10 ^ (k - 1) ≤ n && n ≤ 10 ^ k) && accepts (n * unit)
  match fits below, fits above with
  | true, true => some (if q - below * unit ≤ above * unit - q then below else above)
  | true, false => some below
  | false, true => some above
  | false, false => none

/-- The shortest digits that read back as the number, tried from length `k` up. -/
def shortestFrom (accepts : ℚ → Bool) (q : ℚ) (point : Int) : Nat → Nat → Nat × Nat
  | 0, k => (⌊q / pow10 (point - k)⌋.toNat, k)
  | fuel + 1, k =>
    match digitsOfLength accepts q point k with
    | some n => (n, k)
    | none => shortestFrom accepts q point fuel (k + 1)

/-- The layout of `Number::toString` for digits `d1…dk` and point position `n`. -/
def layoutDigits (digits : JSString) (point : Int) : JSString :=
  let k : Int := digits.length
  if k ≤ point ∧ point ≤ 21 then digits ++ List.replicate (point - k).toNat 48
  else if 0 < point ∧ point ≤ 21 then digits.take point.toNat ++ 46 :: digits.drop point.toNat
  else if -6 < point ∧ point ≤ 0 then js "0." ++ List.replicate (-point).toNat 48 ++ digits
  else
    let exponent := point - 1
    let mantissa := if k = 1 then digits else digits.take 1 ++ 46 :: digits.drop 1
    mantissa ++ 101 :: (if exponent < 0 then 45 else 43) :: decimal exponent.natAbs

namespace F64

/-- `String(number)`. -/
def toText : F64 → JSString
  | .nan => js "NaN"
  | .infinite negative => if negative then js "-Infinity" else js "Infinity"
  | .finite x =>
    if x.mantissa = 0 then js "0"
    else
      let q := x.magnitude
      let point := decimalPoint q
      let digits := shortestFrom (fun r => ofRat r = .finite { x with negative := false }) q point 17 1
      let carried := digits.1 = 10 ^ digits.2
      (if x.negative then [45] else []) ++
        (if carried then layoutDigits (js "1") (point + 1) else layoutDigits (decimal digits.1) point)

/-- `Number.prototype.toFixed`: the exact value rounded to `digits` places, a half away from zero,
and `String(number)` from `1e21` up. -/
def toFixed (x : F64) (digits : Nat) : JSString :=
  match x with
  | .finite b =>
    if 10 ^ 21 ≤ b.magnitude then toText x
    else
      let text := decimal ⌊b.magnitude * 10 ^ digits + 1 / 2⌋.toNat
      let padded := List.replicate (digits + 1 - text.length) 48 ++ text
      let split := padded.length - digits
      (if b.value < 0 then [45] else []) ++
        (if digits = 0 then text else padded.take split ++ 46 :: padded.drop split)
  | _ => toText x

end F64

/-- The digits at the start of `s` as a number and their count, with the rest of `s`. -/
def takeDecimal (s : JSString) : JSString × JSString := (s.takeWhile isDigit, s.dropWhile isDigit)

def readDigits (radix : Nat) (digits : JSString) : Nat :=
  digits.foldl (fun n d => n * radix +
    (if isDigit d then d - 48 else if isUpper d then d - 55 else d - 87)) 0

/-- The exponent part of a decimal literal: `none` where one starts and has no digits. -/
def readExponent : JSString → Option Int
  | [] => some 0
  | c :: s =>
    if c = 101 ∨ c = 69 then
      let signed := match s with
        | 43 :: t => (false, t)
        | 45 :: t => (true, t)
        | _ => (false, s)
      if signed.2 ≠ [] ∧ signed.2.all isDigit then
        some (if signed.1 then -(readDigits 10 signed.2 : Int) else readDigits 10 signed.2)
      else none
    else none

/-- The value of an unsigned decimal literal: digits, an optional point, an optional exponent. -/
def readUnsignedDecimal (s : JSString) : Option ℚ :=
  let whole := takeDecimal s
  let fraction := match whole.2 with
    | 46 :: t => takeDecimal t
    | t => ([], t)
  if whole.1 = [] ∧ fraction.1 = [] then none
  else (readExponent fraction.2).map fun e =>
    (readDigits 10 (whole.1 ++ fraction.1) : ℚ) * pow10 (e - fraction.1.length)

/-- The radix a `0x`, `0o` or `0b` literal announces. -/
def literalRadix (u : Nat) : Option Nat :=
  if u = 120 ∨ u = 88 then some 16 else if u = 111 ∨ u = 79 then some 8
  else if u = 98 ∨ u = 66 then some 2 else none

def isRadixDigit (radix u : Nat) : Bool :=
  if radix = 16 then isHexDigit u else 48 ≤ u && u < 48 + radix

namespace F64

/-- A signed decimal literal, or `Infinity`, or `NaN` for anything else. -/
def ofDecimalText (s : JSString) : F64 :=
  let signed := match s with
    | 43 :: t => (false, t)
    | 45 :: t => (true, t)
    | _ => (false, s)
  if signed.2 = js "Infinity" then .infinite signed.1
  else match readUnsignedDecimal signed.2 with
    | some q => round signed.1 (if signed.1 then -q else q)
    | none => .nan

/-- `Number(string)`. -/
def ofText (text : JSString) : F64 :=
  match trim text with
  | [] => .finite (.zero false)
  | 48 :: x :: digits =>
    match literalRadix x with
    | some radix =>
      if digits ≠ [] ∧ digits.all (isRadixDigit radix) then ofNat (readDigits radix digits) else .nan
    | none => ofDecimalText (48 :: x :: digits)
  | trimmed => ofDecimalText trimmed

end F64

end Xript
