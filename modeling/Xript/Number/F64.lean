import Mathlib.Data.Rat.Floor
import Mathlib.Tactic.NormNum

namespace Xript

/-- A finite double: `mantissa * 2 ^ exponent` with its sign, in canonical form. Both zeros have
mantissa `0`. -/
structure Binary64 where
  negative : Bool
  mantissa : Nat
  exponent : Int
  small : mantissa < 2 ^ 53
  low : -1074 ≤ exponent
  high : exponent ≤ 971
  normal : exponent = -1074 ∨ 2 ^ 52 ≤ mantissa
  deriving DecidableEq

/-- The numbers of JavaScript and the `f64` of Rust: IEEE 754 binary64. -/
inductive F64 where
  | nan
  | infinite (negative : Bool)
  | finite (x : Binary64)
  deriving DecidableEq

namespace Binary64

/-- `2 ^ e` as a rational number. -/
def pow2 (e : Int) : ℚ := if 0 ≤ e then ((2 ^ e.toNat : Nat) : ℚ) else 1 / ((2 ^ (-e).toNat : Nat) : ℚ)

def magnitude (x : Binary64) : ℚ := x.mantissa * pow2 x.exponent

/-- The rational number a finite double stands for; both zeros stand for `0`. -/
def value (x : Binary64) : ℚ := if x.negative then -x.magnitude else x.magnitude

def zero (negative : Bool) : Binary64 :=
  ⟨negative, 0, -1074, by norm_num, by norm_num, by norm_num, Or.inl rfl⟩

end Binary64

/-- The exponent of the leading binary digit of a positive rational number. -/
def leadingExponent (q : ℚ) : Int :=
  let estimate := (q.num.natAbs.log2 : Int) - q.den.log2
  if Binary64.pow2 estimate ≤ q then estimate else estimate - 1

/-- The nearest integer, a half going to the even neighbour. -/
def roundHalfEven (q : ℚ) : Nat :=
  let below := ⌊q⌋.toNat
  let part := q - below
  if part < 1 / 2 ∨ (part = 1 / 2 ∧ below % 2 = 0) then below else below + 1

namespace F64

/-- The finite double with these parts, or the infinity of that sign past the largest one. -/
def assemble (negative : Bool) (mantissa : Nat) (exponent : Int) : F64 :=
  if inside : mantissa < 2 ^ 53 ∧ -1074 ≤ exponent ∧ exponent ≤ 971 ∧
      (exponent = -1074 ∨ 2 ^ 52 ≤ mantissa) then
    .finite ⟨negative, mantissa, exponent, inside.1, inside.2.1, inside.2.2.1, inside.2.2.2⟩
  else .infinite negative

/-- A non-negative rational number rounded to nearest, ties to even, with the given sign. -/
def roundMagnitude (negative : Bool) (q : ℚ) : F64 :=
  if q = 0 then .finite (.zero negative)
  else
    let exponent := max (-1074) (leadingExponent q - 52)
    let mantissa := roundHalfEven (q / Binary64.pow2 exponent)
    if mantissa = 2 ^ 53 then assemble negative (2 ^ 52) (exponent + 1)
    else assemble negative mantissa exponent

/-- A rational number rounded to nearest, ties to even; a zero result takes the sign given. -/
def round (zeroNegative : Bool) (q : ℚ) : F64 :=
  if q = 0 then .finite (.zero zeroNegative) else roundMagnitude (q < 0) |q|

def ofRat (q : ℚ) : F64 := round false q

def ofNat (n : Nat) : F64 := ofRat n

def ofInt (n : Int) : F64 := ofRat n

def isFinite : F64 → Bool
  | .finite _ => true
  | _ => false

def isNaN : F64 → Bool
  | .nan => true
  | _ => false

def isNegative : F64 → Bool
  | .nan => false
  | .infinite negative => negative
  | .finite x => x.negative

def neg : F64 → F64
  | .nan => .nan
  | .infinite negative => .infinite !negative
  | .finite x => .finite { x with negative := !x.negative }

def abs : F64 → F64
  | .nan => .nan
  | .infinite _ => .infinite false
  | .finite x => .finite { x with negative := false }

def add : F64 → F64 → F64
  | .finite x, .finite y => round (x.negative && y.negative) (x.value + y.value)
  | .infinite a, .infinite b => if a = b then .infinite a else .nan
  | .infinite a, .finite _ => .infinite a
  | .finite _, .infinite b => .infinite b
  | _, _ => .nan

def sub (x y : F64) : F64 := add x (neg y)

def mul : F64 → F64 → F64
  | .finite x, .finite y => round (x.negative != y.negative) (x.value * y.value)
  | .infinite a, .infinite b => .infinite (a != b)
  | .infinite a, .finite y => if y.mantissa = 0 then .nan else .infinite (a != y.negative)
  | .finite x, .infinite b => if x.mantissa = 0 then .nan else .infinite (x.negative != b)
  | _, _ => .nan

def div : F64 → F64 → F64
  | .finite x, .finite y =>
    if y.mantissa = 0 then
      if x.mantissa = 0 then .nan else .infinite (x.negative != y.negative)
    else round (x.negative != y.negative) (x.value / y.value)
  | .infinite a, .finite y => .infinite (a != y.negative)
  | .finite x, .infinite b => .finite (.zero (x.negative != b))
  | _, _ => .nan

/-- An integer with the sign of `x` where it is zero. -/
def integral (x : Binary64) (n : Int) : F64 := round x.negative n

def truncate (q : ℚ) : Int := if q < 0 then ⌈q⌉ else ⌊q⌋

/-- The remainder of division with a truncated quotient, JavaScript's and Rust's `%`. -/
def rem : F64 → F64 → F64
  | .finite x, .finite y =>
    if y.mantissa = 0 then .nan else round x.negative (x.value - y.value * truncate (x.value / y.value))
  | .finite x, .infinite _ => .finite x
  | _, _ => .nan

def floor : F64 → F64
  | .finite x => integral x ⌊x.value⌋
  | x => x

def ceil : F64 → F64
  | .finite x => integral x ⌈x.value⌉
  | x => x

def trunc : F64 → F64
  | .finite x => integral x (truncate x.value)
  | x => x

def eq : F64 → F64 → Bool
  | .finite x, .finite y => x.value = y.value
  | .infinite a, .infinite b => a = b
  | _, _ => false

def lt : F64 → F64 → Bool
  | .finite x, .finite y => x.value < y.value
  | .infinite a, .infinite b => a && !b
  | .infinite a, .finite _ => a
  | .finite _, .infinite b => !b
  | _, _ => false

def le (x y : F64) : Bool := lt x y || eq x y

/-- `Number.isInteger`. -/
def isInteger : F64 → Bool
  | .finite x => x.value.den = 1
  | _ => false

end F64

end Xript
