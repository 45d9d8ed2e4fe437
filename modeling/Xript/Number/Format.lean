import Xript.Number.Text

namespace Xript

namespace Rust

/-- `str::split_once`. -/
def splitOnce (separator : Nat) (s : JSString) : Option (JSString × JSString) :=
  if separator ∈ s then some (s.takeWhile (· != separator), (s.dropWhile (· != separator)).tail) else none

/-- The decimal text of `n / 10 ^ places`, every place written out. -/
def pointText (n places : Nat) : JSString :=
  let fraction := decimal (n % 10 ^ places)
  decimal (n / 10 ^ places) ++
    if places = 0 then [] else 46 :: (List.replicate (places - fraction.length) 48 ++ fraction)

/-- `format!("{:.places$}", value)`: the exact value, rounded half to even where it has more places. -/
def formatPrecision (places : Nat) : F64 → JSString
  | .nan => js "NaN"
  | .infinite negative => (if negative then [45] else []) ++ js "inf"
  | .finite x =>
    (if x.negative then [45] else []) ++ pointText (roundHalfEven (x.magnitude * 10 ^ places)) places

/-- How many digits `format!("{value:e}")` writes: the fewest that read back as the number. -/
def significantDigits (x : Binary64) : Nat :=
  (shortestFrom (fun r => F64.ofRat r = .finite { x with negative := false }) x.magnitude
    (decimalPoint x.magnitude) 17 1).2

/-- `format!("{:.places$e}", value)` of a positive value: its digits without the point, and its exponent. -/
def scientific (q : ℚ) (places : Nat) : JSString × Int :=
  let point := decimalPoint q
  let n := roundHalfEven (q / pow10 (point - (places + 1)))
  if n = 10 ^ (places + 1) then (decimal (10 ^ places), point) else (decimal n, point - 1)

/-- The digits of a nonzero number without trailing zeros, and the position of its decimal point. -/
def shortestDigits (x : Binary64) : JSString × Int :=
  let written := scientific x.magnitude (significantDigits x - 1)
  let trimmed := written.1.rdropWhile (· == 48)
  (if trimmed = [] then [48] else trimmed, written.2 + 1)

/-- ECMAScript's layout for digits `d1…dk` and point position `n`; `k` is at most seventeen, as
`shortestDigits_promise` says of the one caller. -/
def layoutDigits (digits : JSString) (point : Int) : JSString :=
  let k : Int := digits.length
  if k ≤ point ∧ point ≤ 21 then digits ++ List.replicate (point - k).toNat 48
  else if 0 < point ∧ point ≤ 21 then digits.take point.toNat ++ [46] ++ digits.drop point.toNat
  else if -6 < point ∧ point ≤ 0 then js "0." ++ List.replicate (-point).toNat 48 ++ digits
  else
    let exponent := point - 1
    let sign := if exponent < 0 then 45 else 43
    let mantissa := if k = 1 then digits else digits.take 1 ++ [46] ++ digits.drop 1
    mantissa ++ [101, sign] ++ decimal exponent.natAbs

def formatNumber : F64 → JSString
  | .finite x =>
    if x.mantissa = 0 then js "0"
    else
      let (digits, point) := shortestDigits x
      (if x.negative then [45] else []) ++ layoutDigits digits point
  | _ => []

def skipSign (s : JSString) : JSString := if s.head? = some 43 ∨ s.head? = some 45 then s.tail else s

/-- A decimal literal: an optional sign, digits with an optional point, an optional exponent. -/
def isDecimalLiteral (text : JSString) : Bool :=
  let whole := takeDecimal (skipSign text)
  let fraction := if whole.2.head? = some 46 then takeDecimal whole.2.tail else ([], whole.2)
  if whole.1.length = 0 ∧ fraction.1.length = 0 then false
  else if fraction.2.head? = some 101 ∨ fraction.2.head? = some 69 then
    let exponent := takeDecimal (skipSign fraction.2.tail)
    if exponent.1.length = 0 then false else exponent.2.isEmpty
  else fraction.2.isEmpty

/-- The carry of `format_fixed`, from the digit before place `i` leftwards; past the first digit a
new one is written. -/
def carry : Nat → JSString → JSString
  | 0, kept => 49 :: kept
  | i + 1, kept => if kept[i]? = some 57 then carry i (kept.set i 48) else kept.modify i (· + 1)

/-- `Number.prototype.toFixed`; `none` is the panic of a text shorter than its digits. -/
def formatFixed (value : F64) (digits : Nat) : Option JSString :=
  if F64.le (F64.ofNat (10 ^ 21)) value.abs then some (formatNumber value)
  else
    let negative := F64.lt value (.finite (.zero false))
    let exact := formatPrecision 1100 value.abs
    let (whole, fraction) := (splitOnce 46 exact).getD (exact, [])
    let kept := whole ++ fraction.take digits
    let kept := if (fraction[digits]?).any (53 ≤ ·) then carry kept.length kept else kept
    if kept.length < digits then none
    else
      let split := kept.length - digits
      let sign := if negative then [45] else []
      some (if digits = 0 then sign ++ kept.take split else sign ++ kept.take split ++ [46] ++ kept.drop split)

end Rust

end Xript
