import Xript.Expr.LexerCorrect
import Xript.Expr.RustParser

namespace Xript

/-- A predicate that holds of ASCII characters only. -/
def Ascii (p : Nat → Bool) : Prop := ∀ u, p u → u < 128

theorem unitsOf_ascii {c : Nat} (ascii : c < 128) : unitsOf c = [c] := by
  rw [unitsOf, if_pos (by omega)]

/-- The first unit of a character outside ASCII is outside ASCII too. -/
theorem unitsOf_head (c : Nat) : ∃ u t, unitsOf c = u :: t ∧ (c < 128 → u = c ∧ t = []) ∧ (128 ≤ c → 128 ≤ u) := by
  unfold unitsOf
  split
  · exact ⟨c, [], rfl, fun _ => ⟨rfl, rfl⟩, id⟩
  · exact ⟨_, _, rfl, by omega, by omega⟩

section

variable {p : Nat → Bool} (ascii : Ascii p)

include ascii

theorem takeWhile_utf16 (s : List Char) :
    (utf16 s).takeWhile p = utf16 (s.takeWhile fun c => p c.toNat) ∧
      (utf16 s).dropWhile p = utf16 (s.dropWhile fun c => p c.toNat) := by
  induction s with
  | nil => exact ⟨rfl, rfl⟩
  | cons c s ih =>
    by_cases holds : p c.toNat
    · simp [unitsOf_ascii (ascii _ holds), holds, ih.1, ih.2]
    · obtain ⟨u, t, units, low, high⟩ := unitsOf_head c.toNat
      have fails : ¬p u := by
        intro here
        have small := ascii u here
        by_cases inAscii : c.toNat < 128
        · rw [(low inAscii).1] at here
          exact holds here
        · exact absurd (high (by omega)) (by omega)
      rw [List.takeWhile_cons_of_neg (by simpa using holds), List.dropWhile_cons_of_neg (by simpa using holds),
        utf16_cons, units, List.cons_append, List.takeWhile_cons_of_neg fails, List.dropWhile_cons_of_neg fails]
      exact ⟨rfl, rfl⟩

end

/-- An ASCII unit at the start of an encoded text is its first character. -/
theorem utf16_eq_cons {s : List Char} {u : Nat} {t : JSString} (same : utf16 s = u :: t) (ascii : u < 128) :
    ∃ c r, s = c :: r ∧ c.toNat = u ∧ utf16 r = t := by
  cases s with
  | nil => cases same
  | cons c s =>
    obtain ⟨v, w, units, low, high⟩ := unitsOf_head c.toNat
    rw [utf16_cons, units] at same
    obtain ⟨rfl, rfl⟩ := List.cons.inj same
    by_cases inAscii : c.toNat < 128
    · obtain ⟨rfl, rfl⟩ := low inAscii
      exact ⟨c, s, rfl, rfl, rfl⟩
    · exact absurd (high (by omega)) (by omega)

theorem utf16_cons_ascii {c : Char} (ascii : c.toNat < 128) (s : List Char) : utf16 (c :: s) = c.toNat :: utf16 s := by
  rw [utf16_cons, unitsOf_ascii ascii, List.singleton_append]

theorem ascii_isDigit : Ascii isDigit := by
  intro u
  simp only [isDigit, Bool.and_eq_true, decide_eq_true_eq]
  omega

theorem ascii_isIdentPart : Ascii isIdentPart := by
  intro u
  simp only [isIdentPart, isLetter, isUpper, isLower, isDigit, Bool.or_eq_true, Bool.and_eq_true,
    decide_eq_true_eq, beq_iff_eq]
  omega

theorem utf16_eq_nil {s : List Char} : utf16 s = [] ↔ s = [] := by
  cases s with
  | nil => simp
  | cons c s => simp [unitsOf_ne_nil]

theorem char_eq {c d : Char} (same : c.toNat = d.toNat) : c = d := Char.toNat_inj.mp same

theorem digitNext_iff (s : List Char) : Rust.digitNext s = true ↔ s.takeWhile Rust.isAsciiDigit ≠ [] := by
  cases s with
  | nil => simp [Rust.digitNext]
  | cons c s =>
    by_cases digit : Rust.isAsciiDigit c <;> simp [Rust.digitNext, digit]

theorem takeWhile_digits (s : List Char) : (utf16 s).takeWhile isDigit = utf16 (s.takeWhile Rust.isAsciiDigit) :=
  (takeWhile_utf16 ascii_isDigit s).1

theorem dropWhile_digits (s : List Char) : (utf16 s).dropWhile isDigit = utf16 (s.dropWhile Rust.isAsciiDigit) :=
  (takeWhile_utf16 ascii_isDigit s).2

theorem digits_eq_nil (s : List Char) : utf16 (s.takeWhile Rust.isAsciiDigit) = [] ↔ ¬Rust.digitNext s := by
  rw [utf16_eq_nil, digitNext_iff, not_not]

/-- The two halves of a scanned text, encoded. -/
def encoded (cut : List Char × List Char) : JSString × JSString := (utf16 cut.1, utf16 cut.2)

theorem scanFraction_agrees (s : List Char) : scanFraction (utf16 s) = encoded (Rust.scanFraction s) := by
  unfold scanFraction
  split
  · rename_i t same
    obtain ⟨c, r, rfl, code, rfl⟩ := utf16_eq_cons same (by decide)
    obtain rfl : c = '.' := char_eq code
    simp only [digits_eq_nil, Rust.scanFraction, takeWhile_digits, dropWhile_digits]
    by_cases digit : Rust.digitNext r
    · rw [if_neg (not_not.mpr digit), if_pos digit]
      rfl
    · rw [if_pos digit, if_neg digit]
      rfl
  · rename_i other
    unfold Rust.scanFraction
    split
    · exact absurd rfl (other _)
    · rfl

theorem exponentSign_agrees (s : List Char) :
    exponentSign (utf16 s) = utf16 ((s.take 1).filter fun c => c == '+' || c == '-') ∧
      (utf16 s).drop (utf16 ((s.take 1).filter fun c => c == '+' || c == '-')).length =
        utf16 (s.drop ((s.take 1).filter fun c => c == '+' || c == '-').length) := by
  unfold exponentSign
  split
  · rename_i t same
    obtain ⟨c, r, rfl, code, rfl⟩ := utf16_eq_cons same (by decide)
    obtain rfl : c = '+' := char_eq code
    exact ⟨rfl, rfl⟩
  · rename_i t same
    obtain ⟨c, r, rfl, code, rfl⟩ := utf16_eq_cons same (by decide)
    obtain rfl : c = '-' := char_eq code
    exact ⟨rfl, rfl⟩
  · rename_i notPlus notMinus
    cases s with
    | nil => exact ⟨rfl, rfl⟩
    | cons c s =>
      have plus : c ≠ '+' := fun is => notPlus (utf16 s) (by subst is; rfl)
      have minus : c ≠ '-' := fun is => notMinus (utf16 s) (by subst is; rfl)
      simp [plus, minus]

theorem scanExponent_agrees (s : List Char) : scanExponent (utf16 s) = encoded (Rust.scanExponent s) := by
  cases s with
  | nil => rfl
  | cons e s =>
    by_cases marks : e = 'e' ∨ e = 'E'
    · have code : e.toNat = 101 ∨ e.toNat = 69 := by rcases marks with rfl | rfl <;> decide
      have ascii : e.toNat < 128 := by omega
      obtain ⟨sign, after⟩ := exponentSign_agrees s
      simp only [utf16_cons_ascii ascii, scanExponent, if_pos code, after, digits_eq_nil, takeWhile_digits,
        dropWhile_digits, sign, Rust.scanExponent, if_pos marks]
      split
      · rw [encoded, utf16_cons_ascii ascii]
        rfl
      · rename_i found
        rw [if_pos (not_not.mp found)]
        simp [encoded, unitsOf_ascii ascii]
    · obtain ⟨u, t, units, low, high⟩ := unitsOf_head e.toNat
      have other : ¬(u = 101 ∨ u = 69) := by
        by_cases inAscii : e.toNat < 128
        · rw [(low inAscii).1]
          exact fun code => marks (code.imp (fun is => char_eq is) (fun is => char_eq is))
        · have := high (by omega)
          omega
      rw [Rust.scanExponent, if_neg marks, encoded, utf16_cons, units, List.cons_append, scanExponent, if_neg other]
      rfl

theorem scanNumber_agrees {c : Char} {s : List Char} (digit : isDigit c.toNat) :
    scanNumber (utf16 (c :: s)) = encoded (Rust.scanNumber (c :: s)) := by
  have notPoint : (c :: s).head? ≠ some '.' := by
    intro is
    obtain rfl := Option.some.inj is
    cases digit
  simp only [scanNumber, takeWhile_digits, dropWhile_digits, scanFraction_agrees, encoded, scanExponent_agrees,
    Rust.scanNumber, if_neg notPoint, utf16_append]

theorem scanPointNumber_agrees {s : List Char} (digit : Rust.digitNext s) :
    scanPointNumber (utf16 s) = encoded (Rust.scanNumber ('.' :: s)) := by
  have notDigit : ¬Rust.isAsciiDigit '.' := by decide
  simp only [scanPointNumber, takeWhile_digits, dropWhile_digits, Rust.scanNumber, List.takeWhile_cons_of_neg notDigit,
    List.dropWhile_cons_of_neg notDigit, Rust.scanFraction, if_pos digit, List.head?_cons, if_true, encoded]
  simp [unitsOf]

/-- A string scan of the encoded text gives what the scan of the characters gives. -/
def StringsAgree (ours : Except ExpressionError (JSString × JSString × JSString))
    (theirs : Except ExpressionError (JSString × List Char)) : Prop :=
  match ours, theirs with
  | .ok (content, _, rest), .ok (content', rest') => content = content' ∧ rest = utf16 rest'
  | .error _, .error _ => True
  | _, _ => False

theorem StringsAgree.step {ours : Except ExpressionError (JSString × JSString × JSString)}
    {theirs : Except ExpressionError (JSString × List Char)} (agree : StringsAgree ours theirs)
    (units raw : JSString) :
    StringsAgree (ours.map fun r => (units ++ r.1, raw ++ r.2.1, r.2.2)) (theirs.map fun r => (units ++ r.1, r.2)) := by
  cases ours with
  | error e =>
    cases theirs with
    | error e' => trivial
    | ok r' => exact agree
  | ok r =>
    cases theirs with
    | error e' => exact agree
    | ok r' => exact ⟨congrArg (units ++ ·) agree.1, agree.2⟩

theorem scanString_plain {start quote i u : Nat} {s : JSString} (notQuote : u ≠ quote) (notEscape : u ≠ 92)
    (notLine : u ≠ 10) :
    scanString start quote i (u :: s) =
      (scanString start quote (i + 1) s).map fun r => ([u] ++ r.1, [u] ++ r.2.1, r.2.2) := by
  rw [scanString.eq_def]
  simp only [if_neg notQuote, if_neg notEscape, if_neg notLine]
  rfl

/-- Each unit of a character that is neither a quote, a backslash nor a line feed is scanned as it
stands. -/
theorem scanString_units (start : Nat) {quote i c : Nat} {s : JSString} (small : quote < 128) (notQuote : c ≠ quote)
    (notEscape : c ≠ 92) (notLine : c ≠ 10) :
    ∃ j, scanString start quote i (unitsOf c ++ s) =
      (scanString start quote j s).map fun r => (unitsOf c ++ r.1, unitsOf c ++ r.2.1, r.2.2) := by
  unfold unitsOf
  split
  · exact ⟨i + 1, scanString_plain notQuote notEscape notLine⟩
  · refine ⟨i + 2, ?_⟩
    rw [List.cons_append, scanString_plain (by omega) (by omega) (by omega), List.singleton_append,
      scanString_plain (by omega) (by omega) (by omega)]
    cases scanString start quote (i + 2) s <;> rfl

theorem scanString_escape {start quote i e : Nat} {s : JSString} (small : quote ≠ 92) (plain : e ≠ 117) :
    scanString start quote i (92 :: e :: s) =
      (scanString start quote (i + 2) s).map fun r => ([escapedUnit e] ++ r.1, [92, e] ++ r.2.1, r.2.2) := by
  rw [scanString.eq_def]
  simp only [if_neg small.symm, if_true]
  split
  · rename_i same
    cases same
  · rename_i same
    exact absurd (List.cons.inj same).1 plain
  · rename_i same
    obtain ⟨rfl, rfl⟩ := List.cons.inj same
    rw [if_neg plain]
    rfl

theorem ascii_isHexDigit : Ascii isHexDigit := by
  intro u
  simp only [isHexDigit, isDigit, Bool.or_eq_true, Bool.and_eq_true, decide_eq_true_eq]
  omega

/-- Without four hexadecimal digits after it, `\u` is an error. -/
theorem scanString_invalid {start quote i : Nat} {s : JSString} (small : quote ≠ 92)
    (short : ∀ a b c d t, s = a :: b :: c :: d :: t →
      ¬(isHexDigit a ∧ isHexDigit b ∧ isHexDigit c ∧ isHexDigit d)) :
    ∃ e, scanString start quote i (92 :: 117 :: s) = .error e := by
  rw [scanString.eq_def]
  simp only [if_neg small.symm, if_true]
  split
  · exact ⟨_, rfl⟩
  · rename_i a b c d t same
    obtain ⟨-, rest⟩ := List.cons.inj same
    rw [if_neg (short a b c d t rest)]
    exact ⟨_, rfl⟩
  · rename_i same
    obtain ⟨rfl, rfl⟩ := List.cons.inj same
    exact ⟨_, rfl⟩

/-- Four hexadecimal digits at the start of an encoded text are its first four characters. -/
theorem utf16_hex {s : List Char} {a b c d : Nat} {t : JSString} (same : utf16 s = a :: b :: c :: d :: t)
    (hex : isHexDigit a ∧ isHexDigit b ∧ isHexDigit c ∧ isHexDigit d) :
    ∃ p q r v u, s = p :: q :: r :: v :: u ∧ Rust.isAsciiHexdigit p ∧ Rust.isAsciiHexdigit q ∧
      Rust.isAsciiHexdigit r ∧ Rust.isAsciiHexdigit v := by
  obtain ⟨ha, hb, hc, hd⟩ := hex
  obtain ⟨p, s₁, rfl, rfl, second⟩ := utf16_eq_cons same (ascii_isHexDigit a ha)
  obtain ⟨q, s₂, rfl, rfl, third⟩ := utf16_eq_cons second (ascii_isHexDigit b hb)
  obtain ⟨r, s₃, rfl, rfl, fourth⟩ := utf16_eq_cons third (ascii_isHexDigit c hc)
  obtain ⟨v, u, rfl, rfl, -⟩ := utf16_eq_cons fourth (ascii_isHexDigit d hd)
  exact ⟨p, q, r, v, u, rfl, ha, hb, hc, hd⟩

theorem StringsAgree.error {ours : Except ExpressionError (JSString × JSString × JSString)} {e : ExpressionError}
    (failed : ∃ e', ours = .error e') : StringsAgree ours (.error e) := by
  obtain ⟨e', rfl⟩ := failed
  trivial

theorem escapedUnits_eq {e : Char} : Rust.escapedUnits e =
    if e.toNat < 128 then [escapedUnit e.toNat] else unitsOf e.toNat := by
  by_cases named : e = 'n' ∨ e = 't' ∨ e = 'r' ∨ e = 'b' ∨ e = 'f' ∨ e = '0'
  · rcases named with rfl | rfl | rfl | rfl | rfl | rfl <;> rfl
  · simp only [not_or] at named
    obtain ⟨n, t, r, b, f, zero⟩ := named
    have codes : e.toNat ≠ 110 ∧ e.toNat ≠ 116 ∧ e.toNat ≠ 114 ∧ e.toNat ≠ 98 ∧ e.toNat ≠ 102 ∧ e.toNat ≠ 48 :=
      ⟨fun is => n (char_eq is), fun is => t (char_eq is), fun is => r (char_eq is), fun is => b (char_eq is),
        fun is => f (char_eq is), fun is => zero (char_eq is)⟩
    simp only [Rust.escapedUnits, escapedUnit, if_neg n, if_neg t, if_neg r, if_neg b, if_neg f, if_neg zero,
      if_neg codes.1, if_neg codes.2.1, if_neg codes.2.2.1, if_neg codes.2.2.2.1, if_neg codes.2.2.2.2.1,
      if_neg codes.2.2.2.2.2]
    split
    · rename_i ascii
      exact unitsOf_ascii ascii
    · rfl

theorem escapedUnit_high {u : Nat} (high : 128 ≤ u) : escapedUnit u = u := by
  unfold escapedUnit
  rw [if_neg (by omega), if_neg (by omega), if_neg (by omega), if_neg (by omega), if_neg (by omega),
    if_neg (by omega)]

/-- An escaped character other than `u` stands for the same units in both. -/
theorem scanString_escaped (start : Nat) {quote i : Nat} {e : Char} {s : JSString} (quotes : quote = 34 ∨ quote = 39)
    (plain : e ≠ 'u') :
    ∃ j raw, scanString start quote i (92 :: (unitsOf e.toNat ++ s)) =
      (scanString start quote j s).map fun r => (Rust.escapedUnits e ++ r.1, raw ++ r.2.1, r.2.2) := by
  have notSlash : quote ≠ 92 := by omega
  have code : e.toNat ≠ 117 := fun is => plain (char_eq is)
  rw [escapedUnits_eq]
  by_cases ascii : e.toNat < 128
  · refine ⟨i + 2, [92, e.toNat], ?_⟩
    rw [if_pos ascii, unitsOf_ascii ascii, List.singleton_append, scanString_escape notSlash code]
  · rw [if_neg ascii]
    unfold unitsOf
    split
    · refine ⟨i + 2, [92, e.toNat], ?_⟩
      rw [List.singleton_append, scanString_escape notSlash code, escapedUnit_high (by omega)]
    · refine ⟨i + 2 + 1, [92, 0xD800 + (e.toNat - 0x10000) / 0x400, 0xDC00 + (e.toNat - 0x10000) % 0x400], ?_⟩
      rw [List.cons_append, scanString_escape notSlash (by omega), escapedUnit_high (by omega), List.singleton_append,
        scanString_plain (by omega) (by omega) (by omega)]
      cases scanString start quote (i + 2 + 1) s <;> rfl

theorem scanString_agrees {quote : Char} (quotes : quote = '\x22' ∨ quote = '\x27') (start start' i j : Nat)
    (s : List Char) :
    StringsAgree (scanString start quote.toNat i (utf16 s)) (Rust.scanString start' quote j s) := by
  have codes : quote.toNat = 34 ∨ quote.toNat = 39 := by rcases quotes with rfl | rfl <;> decide
  have notSlash : quote.toNat ≠ 92 := by omega
  have small : quote.toNat < 128 := by omega
  induction j, s using Rust.scanString.induct quote generalizing i with
  | case1 j => exact trivial
  | case2 j s =>
    rw [utf16_cons_ascii small, scanString.eq_def, Rust.scanString.eq_def]
    simp only [if_true]
    exact ⟨rfl, rfl⟩
  | case3 j s notQuote =>
    rw [utf16_cons_ascii (by decide), Rust.scanString.eq_def]
    simp only [if_neg notQuote, if_true]
    refine .error ?_
    rw [scanString.eq_def]
    have other : ('\n'.toNat : Nat) ≠ quote.toNat := fun is => notQuote (char_eq is)
    simp only [if_neg other]
    exact ⟨_, rfl⟩
  | case4 j notQuote _ =>
    rw [Rust.scanString.eq_def]
    simp only [if_neg notQuote, if_true]
    refine .error ?_
    rw [utf16_cons_ascii (by decide), scanString.eq_def]
    have other : ('\\'.toNat : Nat) ≠ quote.toNat := fun is => notQuote (char_eq is)
    simp only [if_neg other]
    exact ⟨_, rfl⟩
  | case5 j p q r v u hex notQuote _ ih =>
    have ascii := fun c (is : Rust.isAsciiHexdigit c) => ascii_isHexDigit c.toNat is
    rw [Rust.scanString.eq_def]
    simp only [if_neg notQuote, if_pos hex, if_true]
    rw [utf16_cons_ascii (by decide), utf16_cons_ascii (by decide), utf16_cons_ascii (ascii p hex.1),
      utf16_cons_ascii (ascii q hex.2.1), utf16_cons_ascii (ascii r hex.2.2.1), utf16_cons_ascii (ascii v hex.2.2.2),
      scanString.eq_def]
    have codes : ('\\'.toNat : Nat) ≠ quote.toNat := fun is => notQuote (char_eq is)
    simp only [if_neg codes]
    exact (if_pos hex : _ = _) ▸ (ih (i + 6)).step [_] [_, _, _, _, _, _]
  | case6 j p q r v u notHex notQuote _ =>
    rw [Rust.scanString.eq_def]
    simp only [if_neg notQuote, if_neg notHex, if_true]
    refine .error ?_
    rw [utf16_cons_ascii (by decide), utf16_cons_ascii (by decide)]
    refine scanString_invalid notSlash fun a b c d t same hex => ?_
    obtain ⟨_, _, _, _, _, equal, found⟩ := utf16_hex same hex
    cases equal
    exact notHex found
  | case7 j t notQuote _ short =>
    rw [Rust.scanString.eq_def]
    simp only [if_neg notQuote, if_true]
    refine .error ?_
    rw [utf16_cons_ascii (by decide), utf16_cons_ascii (by decide)]
    refine scanString_invalid notSlash fun a b c d s same hex => ?_
    obtain ⟨p, q, r, v, u, equal, -⟩ := utf16_hex same hex
    exact short p q r v u rfl equal
  | case8 j e t _ plain notQuote _ ih =>
    rw [Rust.scanString.eq_def]
    simp only [if_neg notQuote, if_neg plain, if_true]
    obtain ⟨k, raw, run⟩ := scanString_escaped start (i := i) (s := utf16 t) codes plain
    rw [utf16_cons_ascii (by decide), utf16_cons]
    refine (congrArg (StringsAgree · _) run).mpr ((ih k).step _ _)
  | case9 j c s notQuote notLine notEscape ih =>
    rw [Rust.scanString.eq_def, utf16_cons]
    simp only [if_neg notQuote, if_neg notLine, if_neg notEscape]
    obtain ⟨k, run⟩ := scanString_units start (i := i) (s := utf16 s) small
      (fun is => notQuote (char_eq is)) (fun is => notEscape (char_eq is)) (fun is => notLine (char_eq is))
    rw [run]
    exact (ih k).step _ _

/-- A text of ASCII characters stands at the start of an encoded text where it stands in the text. -/
theorem take_utf16 {t : List Char} (ascii : ∀ c, c ∈ t → c.toNat < 128) (s : List Char) :
    (utf16 s).take t.length = utf16 t ↔ s.take t.length = t := by
  induction t generalizing s with
  | nil => simp
  | cons c t ih =>
    have low := ascii c (List.mem_cons_self ..)
    have inner := ih fun d member => ascii d (List.mem_cons_of_mem _ member)
    rw [utf16_cons_ascii low, List.length_cons]
    cases s with
    | nil => simp
    | cons d s =>
      by_cases inAscii : d.toNat < 128
      · rw [utf16_cons_ascii inAscii, List.take_succ_cons, List.take_succ_cons, List.cons.injEq, List.cons.injEq,
          inner s, Char.toNat_inj]
      · obtain ⟨u, v, units, -, high⟩ := unitsOf_head d.toNat
        have first := high (by omega)
        rw [utf16_cons, units, List.cons_append, List.take_succ_cons, List.take_succ_cons, List.cons.injEq,
          List.cons.injEq]
        constructor
        · rintro ⟨same, -⟩
          omega
        · rintro ⟨rfl, -⟩
          exact absurd low inAscii

theorem window_eq_iff {n : Nat} {s t : List Char} (length : t.length = n) (some : t ≠ []) :
    Rust.window n s = t ↔ s.take n = t := by
  unfold Rust.window
  split
  · exact Iff.rfl
  · rename_i short
    constructor
    · exact fun empty => absurd empty.symm some
    · intro same
      have bound := congrArg List.length same
      rw [List.length_take] at bound
      omega

/-- The rows of a table of ASCII texts of one length. -/
def AsciiTable (n : Nat) (table : List (List Char × Punct)) : Prop :=
  ∀ row, row ∈ table → row.1.length = n ∧ row.1 ≠ [] ∧ ∀ c, c ∈ row.1 → c.toNat < 128

theorem asciiTable_of {n : Nat} {table : List (List Char × Punct)}
    (checked : (table.all fun row => row.1.length = n && !row.1.isEmpty && row.1.all fun c => c.toNat < 128) = true) :
    AsciiTable n table := by
  intro row member
  have each := List.all_eq_true.mp checked row member
  simp only [Bool.and_eq_true, decide_eq_true_eq, Bool.not_eq_true', List.isEmpty_eq_false_iff, List.all_eq_true] at each
  exact ⟨each.1.1, each.1.2, each.2⟩

theorem lookup_agrees {n : Nat} {table : List (List Char × Punct)} (ascii : AsciiTable n table) (s : List Char) :
    (table.map fun row => (utf16 row.1, row.2)).lookup ((utf16 s).take n) = table.lookup (Rust.window n s) := by
  induction table with
  | nil => rfl
  | cons row table ih =>
    obtain ⟨text, p⟩ := row
    obtain ⟨length, some, low⟩ := ascii _ (List.mem_cons_self ..)
    have same : (utf16 s).take n = utf16 text ↔ Rust.window n s = text := by
      rw [window_eq_iff length some, ← length]
      exact take_utf16 low s
    have inner := ih fun r member => ascii r (List.mem_cons_of_mem _ member)
    rw [List.map_cons, List.lookup_cons, List.lookup_cons, inner]
    by_cases found : Rust.window n s = text
    · rw [beq_iff_eq.mpr found, beq_iff_eq.mpr (same.mpr found)]
    · rw [beq_eq_false_iff_ne.mpr found, beq_eq_false_iff_ne.mpr fun is => found (same.mp is)]

theorem mem_map_utf16 {n : Nat} {texts : List (List Char)}
    (ascii : ∀ t, t ∈ texts → t.length = n ∧ t ≠ [] ∧ ∀ c, c ∈ t → c.toNat < 128) (s : List Char) :
    (utf16 s).take n ∈ texts.map utf16 ↔ Rust.window n s ∈ texts := by
  rw [List.mem_map]
  constructor
  · rintro ⟨t, member, same⟩
    obtain ⟨length, some, low⟩ := ascii t member
    have found := (window_eq_iff length some).mpr (length ▸ (take_utf16 low s).mp (by rw [length]; exact same.symm))
    rwa [found]
  · intro member
    obtain ⟨length, some, low⟩ := ascii _ member
    refine ⟨_, member, ?_⟩
    have found := (window_eq_iff length some).mp rfl
    rw [← (take_utf16 low s).mpr (by rw [length]; exact found), length]

theorem scanPunct_agrees (s : List Char) : scanPunct (utf16 s) = Rust.scanPunct s := by
  have three : punct3 = [(['=', '=', '='], Punct.eq), (['!', '=', '='], .ne)].map fun row => (utf16 row.1, row.2) := rfl
  have two : punct2 = Rust.punct2.map fun row => (utf16 row.1, row.2) := rfl
  have one : punct1 = Rust.punct1.map fun row => (utf16 row.1, row.2) := rfl
  have absent : absentOperators = Rust.absentOperators.map utf16 := rfl
  have ascii3 : AsciiTable 3 [(['=', '=', '='], Punct.eq), (['!', '=', '='], .ne)] := asciiTable_of rfl
  have ascii2 : AsciiTable 2 Rust.punct2 := asciiTable_of rfl
  have ascii1 : AsciiTable 1 Rust.punct1 := asciiTable_of rfl
  have absent2 : ∀ t, t ∈ Rust.absentOperators → t.length = 2 ∧ t ≠ [] ∧ ∀ c, c ∈ t → c.toNat < 128 := by
    intro t member
    simp only [Rust.absentOperators, List.mem_cons, List.not_mem_nil, or_false] at member
    rcases member with rfl | rfl | rfl | rfl <;> simp
  have single : Rust.window 1 s = s.take 1 := by cases s <;> rfl
  unfold scanPunct Rust.scanPunct
  rw [three, lookup_agrees ascii3, two, lookup_agrees ascii2, one, lookup_agrees ascii1, absent, single]
  simp only [mem_map_utf16 absent2]
  by_cases eq : Rust.window 3 s = ['=', '=', '=']
  · simp [eq]
  · by_cases ne : Rust.window 3 s = ['!', '=', '=']
    · rw [if_neg eq, if_pos ne, ne]
      rfl
    · have missed : [(['=', '=', '='], Punct.eq), (['!', '=', '='], .ne)].lookup (Rust.window 3 s) = none := by
        rw [List.lookup_cons, beq_eq_false_iff_ne.mpr eq, List.lookup_cons, beq_eq_false_iff_ne.mpr ne]
        rfl
      simp only [missed, if_neg eq, if_neg ne] <;> rfl

/-- ASCII units dropped from an encoded text are characters dropped from the text. -/
theorem drop_utf16 {t r : JSString} {s : List Char} (whole : utf16 s = t ++ r) (ascii : ∀ u, u ∈ t → u < 128) :
    utf16 (s.drop t.length) = r := by
  induction t generalizing s with
  | nil => exact whole
  | cons u t ih =>
    obtain ⟨c, s', rfl, -, rest⟩ := utf16_eq_cons whole (ascii u (List.mem_cons_self ..))
    exact ih rest fun v member => ascii v (List.mem_cons_of_mem _ member)

theorem scanPunct_drop {s : List Char} {p : Punct} {k : Nat} (run : scanPunct (utf16 s) = some (p, k)) :
    (utf16 s).drop k = utf16 (s.drop k) := by
  have ascii : ∀ row ∈ punctuators, ∀ u ∈ row.1, u < 128 := by decide
  obtain ⟨member, length, -⟩ := scanPunct_cases run
  have dropped := drop_utf16 (List.take_append_drop k (utf16 s)).symm (ascii _ member)
  rw [length] at dropped
  exact dropped.symm

/-- The tokens of the two lexers: the Rust one keeps no source text of a string. -/
def Tok.rust : Tok → Rust.Tok
  | .num text => .num text
  | .str _ value => .str value
  | .name value => .name value
  | .punct p => .punct p
  | .eof => .eof

def TokensAgree (ours : Except ExpressionError (Tok × JSString))
    (theirs : Except ExpressionError (Rust.Tok × List Char)) : Prop :=
  match ours, theirs with
  | .ok (tok, rest), .ok (tok', rest') => tok.rust = tok' ∧ rest = utf16 rest'
  | .error _, .error _ => True
  | _, _ => False

theorem digit_split {w r : List Char} (digits : w.all Rust.isAsciiDigit) (stop : ¬Rust.digitNext r) :
    (w ++ r).takeWhile Rust.isAsciiDigit = w ∧ (w ++ r).dropWhile Rust.isAsciiDigit = r := by
  have all := List.all_eq_true.mp digits
  have none : r.takeWhile Rust.isAsciiDigit = [] := by
    rw [digitNext_iff, not_not] at stop
    exact stop
  have whole := List.takeWhile_append_dropWhile (p := Rust.isAsciiDigit) (l := r)
  rw [none, List.nil_append] at whole
  rw [List.takeWhile_append_of_pos all, List.dropWhile_append_of_pos all, none, whole, List.append_nil]
  exact ⟨rfl, rfl⟩

theorem rust_scanExponent_plain {e : Char} (marks : e = 'e' ∨ e = 'E') {digits : List Char} (some : digits ≠ [])
    (all : digits.all Rust.isAsciiDigit) : Rust.scanExponent (e :: digits) = (e :: digits, []) := by
  obtain ⟨d, ds, rfl⟩ := List.exists_cons_of_ne_nil some
  have digit : Rust.isAsciiDigit d := List.all_eq_true.mp all d (List.mem_cons_self ..)
  have unsigned : ([d] : List Char).filter (fun c => c == '+' || c == '-') = [] := by
    have plus : d ≠ '+' := fun is => by subst is; cases digit
    have minus : d ≠ '-' := fun is => by subst is; cases digit
    simp [plus, minus]
  obtain ⟨taken, dropped⟩ := digit_split (r := []) all (by decide)
  rw [List.append_nil] at taken dropped
  simp only [Rust.scanExponent, if_pos marks, List.take_succ_cons, List.take_zero, unsigned, List.length_nil,
    List.drop_zero, taken, dropped]
  simp [Rust.digitNext, digit]

theorem rust_scanExponent_signed {e sign : Char} (marks : e = 'e' ∨ e = 'E') (signs : sign = '+' ∨ sign = '-')
    {digits : List Char} (some : digits ≠ []) (all : digits.all Rust.isAsciiDigit) :
    Rust.scanExponent (e :: sign :: digits) = (e :: sign :: digits, []) := by
  have signed : ([sign] : List Char).filter (fun c => c == '+' || c == '-') = [sign] := by
    rcases signs with rfl | rfl <;> rfl
  obtain ⟨taken, dropped⟩ := digit_split (r := []) all (by decide)
  rw [List.append_nil] at taken dropped
  have digit : Rust.digitNext digits := (digitNext_iff _).mpr (by rwa [taken])
  simp only [Rust.scanExponent, if_pos marks, List.take_succ_cons, List.take_zero, signed, List.length_singleton,
    List.drop_succ_cons, List.drop_zero, taken, dropped, if_pos digit]
  rfl

/-- A scanned exponent is empty, or it is scanned again as it stands. -/
theorem rust_scanExponent_again (s : List Char) :
    (Rust.scanExponent s).1 = [] ∨ ∃ e t, (Rust.scanExponent s).1 = e :: t ∧ (e = 'e' ∨ e = 'E') ∧
      Rust.scanExponent (e :: t) = (e :: t, []) := by
  unfold Rust.scanExponent
  split
  · rename_i e t
    split
    · rename_i marks
      dsimp only
      split
      · rename_i digit
        have some := (digitNext_iff _).mp digit
        refine Or.inr ⟨e, _, rfl, marks, ?_⟩
        cases t with
        | nil => exact absurd digit (by decide)
        | cons sign t =>
          by_cases signs : sign = '+' ∨ sign = '-'
          · have signed : ([sign] : List Char).filter (fun c => c == '+' || c == '-') = [sign] := by
              rcases signs with rfl | rfl <;> rfl
            simp only [List.take_succ_cons, List.take_zero, signed] at some ⊢
            exact rust_scanExponent_signed marks signs some List.all_takeWhile
          · have unsigned : ([sign] : List Char).filter (fun c => c == '+' || c == '-') = [] := by
              simpa [not_or] using signs
            simp only [List.take_succ_cons, List.take_zero, unsigned] at some ⊢
            exact rust_scanExponent_plain marks some List.all_takeWhile
      · exact Or.inl rfl
    · exact Or.inl rfl
  · exact Or.inl rfl

theorem rust_scanFraction_text (s : List Char) :
    (Rust.scanFraction s).1 = [] ∨
      ∃ part, (Rust.scanFraction s).1 = '.' :: part ∧ part ≠ [] ∧ part.all Rust.isAsciiDigit := by
  unfold Rust.scanFraction
  split
  · split
    · rename_i digit
      exact Or.inr ⟨_, rfl, (digitNext_iff _).mp digit, List.all_takeWhile⟩
    · exact Or.inl rfl
  · exact Or.inl rfl

/-- Digits, a fraction and an exponent make a text that `f64` parses. -/
theorem parsesAsF64_of_parts {w f x : List Char} (digits : w.all Rust.isAsciiDigit)
    (fraction : f = [] ∨ ∃ part, f = '.' :: part ∧ part ≠ [] ∧ part.all Rust.isAsciiDigit)
    (exponent : x = [] ∨ ∃ e t, x = e :: t ∧ (e = 'e' ∨ e = 'E') ∧ Rust.scanExponent (e :: t) = (e :: t, []))
    (some : w ≠ [] ∨ f ≠ []) : Rust.parsesAsF64 (w ++ f ++ x) := by
  have stops : ¬Rust.digitNext x := by
    rcases exponent with rfl | ⟨e, t, rfl, rfl | rfl, -⟩ <;> simp [Rust.digitNext] <;> decide
  have tail : (x == [] || ((Rust.scanExponent x).1 ≠ [] && (Rust.scanExponent x).2 == [])) = true := by
    rcases exponent with rfl | ⟨e, t, rfl, -, again⟩
    · rfl
    · simp [again]
  rcases fraction with rfl | ⟨part, rfl, somePart, allPart⟩
  · obtain ⟨taken, dropped⟩ := digit_split digits stops
    have filled : w ≠ [] := some.resolve_right (fun none => none rfl)
    have point : ∀ t, x = '.' :: t → False := by
      rcases exponent with rfl | ⟨e, t, rfl, rfl | rfl, -⟩ <;> simp
    simp only [List.append_nil, Rust.parsesAsF64, taken, dropped]
    simpa [filled] using tail
  · obtain ⟨taken, dropped⟩ := digit_split (r := '.' :: (part ++ x)) digits (by simp [Rust.digitNext]; decide)
    obtain ⟨takenPart, droppedPart⟩ := digit_split allPart stops
    simp only [List.append_assoc, List.cons_append, Rust.parsesAsF64, taken, dropped, takenPart, droppedPart]
    simpa [somePart] using tail

/-- A scanned number literal is one `f64` parses. -/
theorem parsesAsF64_scanNumber {c : Char} {s : List Char}
    (starts : Rust.isAsciiDigit c ∨ c = '.' ∧ Rust.digitNext s) :
    Rust.parsesAsF64 (Rust.scanNumber (c :: s)).1 := by
  refine parsesAsF64_of_parts List.all_takeWhile (rust_scanFraction_text _) ?_ ?_
  · split
    · exact Or.inl rfl
    · exact rust_scanExponent_again _
  · rcases starts with digit | ⟨rfl, digit⟩
    · exact Or.inl (by simp [digit])
    · refine Or.inr ?_
      have notDigit : ¬Rust.isAsciiDigit '.' := by decide
      rw [List.dropWhile_cons_of_neg notDigit, Rust.scanFraction, if_pos digit]
      exact List.cons_ne_nil _ _

theorem ascii_isIdentStart : Ascii isIdentStart := by
  intro u
  simp only [isIdentStart, isLetter, isUpper, isLower, Bool.or_eq_true, Bool.and_eq_true, decide_eq_true_eq,
    beq_iff_eq]
  omega

theorem isNameStart_eq (c : Char) : Rust.isNameStart c = isIdentStart c.toNat := by
  have underscore : (c == '_') = (c.toNat == 95) := by
    rw [Bool.eq_iff_iff, beq_iff_eq, beq_iff_eq, ← Char.toNat_inj]
    rfl
  have dollar : (c == '$') = (c.toNat == 36) := by
    rw [Bool.eq_iff_iff, beq_iff_eq, beq_iff_eq, ← Char.toNat_inj]
    rfl
  rw [Rust.isNameStart, isIdentStart, underscore, dollar]

theorem isNamePart_eq (c : Char) : Rust.isNamePart c = isIdentPart c.toNat := by
  have underscore : (c == '_') = (c.toNat == 95) := by
    rw [Bool.eq_iff_iff, beq_iff_eq, beq_iff_eq, ← Char.toNat_inj]
    rfl
  have dollar : (c == '$') = (c.toNat == 36) := by
    rw [Bool.eq_iff_iff, beq_iff_eq, beq_iff_eq, ← Char.toNat_inj]
    rfl
  rw [Rust.isNamePart, isIdentPart, underscore, dollar]

/-- The first unit of a text says of ASCII characters what its first character says. -/
theorem utf16_head (c : Char) (s : List Char) :
    ∃ u t, utf16 (c :: s) = u :: t ∧ (∀ p, Ascii p → p u = p c.toNat) ∧ (u < 128 → u = c.toNat ∧ t = utf16 s) := by
  obtain ⟨u, v, units, low, high⟩ := unitsOf_head c.toNat
  refine ⟨u, v ++ utf16 s, by rw [utf16_cons, units, List.cons_append], ?_, ?_⟩
  · intro p ascii
    by_cases inAscii : c.toNat < 128
    · rw [(low inAscii).1]
    · have outside : ∀ w, 128 ≤ w → p w = false := fun w big =>
        Bool.eq_false_iff.mpr fun holds => absurd (ascii w holds) (by omega)
      rw [outside u (high (by omega)), outside _ (by omega)]
  · intro small
    by_cases inAscii : c.toNat < 128
    · obtain ⟨rfl, rfl⟩ := low inAscii
      exact ⟨rfl, rfl⟩
    · exact absurd (high (by omega)) (by omega)

theorem TokensAgree.string {start start' i j : Nat} {quote : Char} {s : List Char}
    (quotes : quote = '\x22' ∨ quote = '\x27') :
    TokensAgree ((scanString start quote.toNat i (utf16 s)).map fun r => (.str (quote.toNat :: r.2.1) r.1, r.2.2))
      ((Rust.scanString start' quote j s).map fun r => (.str r.1, r.2)) := by
  have agree := scanString_agrees quotes start start' i j s
  cases ours : scanString start quote.toNat i (utf16 s) with
  | error e =>
    cases theirs : Rust.scanString start' quote j s with
    | error e' => trivial
    | ok r' =>
      rw [ours, theirs] at agree
      exact agree
  | ok r =>
    cases theirs : Rust.scanString start' quote j s with
    | error e' =>
      rw [ours, theirs] at agree
      exact agree
    | ok r' =>
      rw [ours, theirs] at agree
      exact ⟨congrArg Rust.Tok.str agree.1, agree.2⟩

theorem scanToken_agrees (i j : Nat) (c : Char) (s : List Char) :
    TokensAgree (scanToken i (utf16 (c :: s))) (Rust.scanToken j (c :: s)) := by
  obtain ⟨u, t, whole, classes, code⟩ := utf16_head c s
  have punct := scanPunct_agrees (c :: s)
  have scannedName := takeWhile_utf16 ascii_isIdentPart (c :: s)
  simp only [← isNamePart_eq] at scannedName
  rw [whole] at punct scannedName ⊢
  by_cases digit : isDigit c.toNat
  · have starts : (Rust.isAsciiDigit c || (c == '.' && Rust.digitNext s)) = true := by
      simp [Rust.isAsciiDigit, digit]
    have scanned := scanNumber_agrees (s := s) digit
    rw [whole] at scanned
    rw [← classes _ ascii_isDigit] at digit
    simp only [scanToken, Rust.scanToken, if_pos digit, if_pos starts, scanned,
      if_pos (parsesAsF64_scanNumber (Or.inl (classes _ ascii_isDigit ▸ digit)))]
    exact ⟨rfl, rfl⟩
  have notDigit : ¬isDigit u := by rwa [classes _ ascii_isDigit]
  by_cases point : c = '.' ∧ Rust.digitNext s
  · obtain ⟨rfl, next⟩ := point
    obtain ⟨rfl, rfl⟩ := List.cons.inj (whole.symm.trans (utf16_cons_ascii (by decide) s))
    have starts : (Rust.isAsciiDigit '.' || ('.' == '.' && Rust.digitNext s)) = true := by simp [next]
    have some : (utf16 s).takeWhile isDigit ≠ [] := by
      rw [takeWhile_digits, Ne, digits_eq_nil, not_not]
      exact next
    simp only [scanToken, Rust.scanToken, if_neg notDigit, if_pos starts,
      if_pos (⟨rfl, some⟩ : ('.'.toNat : Nat) = 46 ∧ _), scanPointNumber_agrees next,
      if_pos (parsesAsF64_scanNumber (Or.inr ⟨rfl, next⟩))]
    exact ⟨rfl, rfl⟩
  have notStarts : ¬(Rust.isAsciiDigit c || (c == '.' && Rust.digitNext s)) = true := by
    simpa [Rust.isAsciiDigit, digit] using point
  have notPoint : ¬(u = 46 ∧ t.takeWhile isDigit ≠ []) := by
    rintro ⟨rfl, some⟩
    obtain ⟨same, rfl⟩ := code (by decide)
    refine point ⟨char_eq same.symm, ?_⟩
    rwa [takeWhile_digits, Ne, digits_eq_nil, not_not] at some
  by_cases quotes : c = '\x22' ∨ c = '\x27'
  · have low : c.toNat < 128 := by rcases quotes with rfl | rfl <;> decide
    obtain ⟨rfl, rfl⟩ := List.cons.inj (whole.symm.trans (utf16_cons_ascii low s))
    have codes : c.toNat = 34 ∨ c.toNat = 39 := by rcases quotes with rfl | rfl <;> decide
    simp only [scanToken, Rust.scanToken, if_neg notDigit, if_neg notPoint, if_pos codes, if_neg notStarts,
      if_pos quotes]
    exact TokensAgree.string quotes
  have notQuote : ¬(u = 34 ∨ u = 39) := by
    intro is
    have same := (code (by omega)).1
    exact quotes (is.imp (fun is => char_eq (same.symm.trans is)) (fun is => char_eq (same.symm.trans is)))
  by_cases name : isIdentStart c.toNat
  · have starts : isIdentStart u := by rwa [classes _ ascii_isIdentStart]
    rw [← isNameStart_eq] at name
    simp only [scanToken, Rust.scanToken, if_neg notDigit, if_neg notPoint, if_neg notQuote, if_neg notStarts,
      if_neg quotes, if_pos starts, if_pos name, scannedName.1, scannedName.2]
    exact ⟨rfl, rfl⟩
  have notIdent : ¬isIdentStart u := by rwa [classes _ ascii_isIdentStart]
  rw [← isNameStart_eq] at name
  simp only [scanToken, Rust.scanToken, if_neg notDigit, if_neg notPoint, if_neg notQuote, if_neg notStarts,
    if_neg quotes, if_neg notIdent, if_neg name, punct]
  cases found : Rust.scanPunct (c :: s) with
  | none => trivial
  | some result =>
    refine ⟨rfl, ?_⟩
    have dropped := scanPunct_drop (s := c :: s) (p := result.1) (k := result.2) (by rw [whole, punct, found])
    rwa [whole] at dropped

def isLowSurrogate (u : Nat) : Bool := 0xDC00 ≤ u && u < 0xE000

theorem unitsOf_count (c : Char) : (unitsOf c.toNat).countP (fun u => !isLowSurrogate u) = 1 := by
  have valid := c.valid
  simp only [UInt32.isValidChar, Nat.isValidChar] at valid
  have bounds : c.toNat < 0xD800 ∨ 0xDFFF < c.toNat ∧ c.toNat < 0x110000 := valid
  unfold unitsOf
  split
  · have high : isLowSurrogate c.toNat = false := by
      simp [isLowSurrogate]
      omega
    simp [high]
  · have first : isLowSurrogate (0xD800 + (c.toNat - 0x10000) / 0x400) = false := by
      simp [isLowSurrogate]
      omega
    have second : isLowSurrogate (0xDC00 + (c.toNat - 0x10000) % 0x400) = true := by
      simp [isLowSurrogate]
      omega
    simp [first, second]

/-- The characters of a text are the units of its encoding that are no low surrogates. -/
theorem utf16_count (s : List Char) : (utf16 s).countP (fun u => !isLowSurrogate u) = s.length := by
  induction s with
  | nil => rfl
  | cons c s ih => rw [utf16_cons, List.countP_append, unitsOf_count, ih, List.length_cons, Nat.add_comm]

theorem length_le_utf16 (s : List Char) : s.length ≤ (utf16 s).length := by
  rw [← utf16_count]
  exact List.countP_le_length

/-- A lexeme starts with an ASCII character. -/
theorem Lexeme.ascii {u : Nat} {t : JSString} {tok : Tok} (lexeme : Lexeme (u :: t) tok) : u < 128 := by
  rcases lexeme.kinds with ⟨digit | ⟨rfl, -⟩, -⟩ | ⟨rfl | rfl, -⟩ | ⟨starts, -⟩ | ⟨p, member, -⟩
  · exact ascii_isDigit u digit
  · decide
  · decide
  · decide
  · exact ascii_isIdentStart u starts
  · have ascii : ∀ row ∈ punctuators, row.1.headD 0 < 128 := by decide
    exact ascii _ member

/-- The units a token takes from an encoded text are characters of it. -/
theorem rest_shorter {text : JSString} {s rest : List Char} {tok : Tok} (lexeme : Lexeme text tok)
    (whole : utf16 s = text ++ utf16 rest) : rest.length < s.length := by
  obtain ⟨u, t, rfl⟩ := List.exists_cons_of_ne_nil lexeme.ne_nil
  have counts := congrArg (List.countP fun u => !isLowSurrogate u) whole
  rw [utf16_count, List.countP_append, utf16_count] at counts
  have low := lexeme.ascii
  have counted : 0 < (u :: t).countP (fun u => !isLowSurrogate u) := by
    rw [List.countP_cons_of_pos (by simp [isLowSurrogate]; omega)]
    omega
  omega

theorem ascii_isExprSpace : Ascii isExprSpace := by
  intro u
  simp only [isExprSpace, Bool.or_eq_true, beq_iff_eq]
  omega

theorem rust_isSpace_eq (c : Char) : Rust.isSpace c = isExprSpace c.toNat := by
  have code : ∀ d : Char, (c == d) = (c.toNat == d.toNat) := by
    intro d
    rw [Bool.eq_iff_iff, beq_iff_eq, beq_iff_eq, ← Char.toNat_inj]
  simp only [Rust.isSpace, code, isExprSpace]
  generalize c.toNat = u
  rw [Bool.eq_iff_iff]
  simp
  omega

/-- The tokens of the two lexers up to their places. -/
def LexersAgree (ours : Except ExpressionError (List ExprToken))
    (theirs : Except ExpressionError (List Rust.Token)) : Prop :=
  match ours, theirs with
  | .ok tokens, .ok tokens' => (tokens.map ExprToken.tok).map Tok.rust = tokens'.map Rust.Token.tok
  | .error _, .error _ => True
  | _, _ => False

theorem LexersAgree.cons {ours : Except ExpressionError (List ExprToken)}
    {theirs : Except ExpressionError (List Rust.Token)} (agree : LexersAgree ours theirs) (tok : Tok) (i j : Nat) :
    LexersAgree (ours.map fun tokens => ⟨tok, i⟩ :: tokens) (theirs.map fun tokens => ⟨tok.rust, j⟩ :: tokens) := by
  cases ours with
  | error e =>
    cases theirs with
    | error e' => trivial
    | ok tokens' => exact agree
  | ok tokens =>
    cases theirs with
    | error e' => exact agree
    | ok tokens' => exact congrArg (tok.rust :: ·) agree

theorem tokenizeFrom_agrees {n m i j : Nat} {s : List Char} (enough : s.length ≤ n) (more : (utf16 s).length ≤ m) :
    LexersAgree (exprTokensFrom m i (utf16 s)) (Rust.tokenizeFrom n j s) := by
  induction n generalizing m i j s with
  | zero =>
    obtain rfl := List.eq_nil_of_length_eq_zero (Nat.le_zero.mp enough)
    cases m <;> rfl
  | succ n ih =>
    cases s with
    | nil => cases m <;> rfl
    | cons c s =>
      obtain ⟨u, t, whole, classes, code⟩ := utf16_head c s
      rw [List.length_cons] at enough
      rw [whole, List.length_cons] at more
      obtain ⟨m, rfl⟩ : ∃ k, m = k + 1 := ⟨m - 1, by omega⟩
      have scanned := scanToken_agrees i j c s
      rw [whole] at scanned ⊢
      by_cases space : isExprSpace u
      · have space' : Rust.isSpace c := by rwa [rust_isSpace_eq, ← classes _ ascii_isExprSpace]
        obtain ⟨-, rfl⟩ := code (ascii_isExprSpace u space)
        simp only [exprTokensFrom, Rust.tokenizeFrom, if_pos space, if_pos space']
        exact ih (by omega) (by omega)
      · have space' : ¬Rust.isSpace c := by rwa [rust_isSpace_eq, ← classes _ ascii_isExprSpace]
        simp only [exprTokensFrom, Rust.tokenizeFrom, if_neg space, if_neg space']
        cases ours : scanToken i (u :: t) with
        | error e =>
          cases theirs : Rust.scanToken j (c :: s) with
          | error e' => trivial
          | ok r' =>
            rw [ours, theirs] at scanned
            exact scanned.elim
        | ok r =>
          cases theirs : Rust.scanToken j (c :: s) with
          | error e' =>
            rw [ours, theirs] at scanned
            exact scanned.elim
          | ok r' =>
            rw [ours, theirs] at scanned
            obtain ⟨tok, rest⟩ := r
            obtain ⟨tok', rest'⟩ := r'
            obtain ⟨rfl, rfl⟩ := scanned
            obtain ⟨text, cut, lexeme, -⟩ := scanToken_lexeme ours
            have shorter := rest_shorter lexeme (whole.trans cut)
            have length := congrArg List.length cut
            have some := List.length_pos_iff.mpr lexeme.ne_nil
            rw [List.length_cons, List.length_append] at length
            rw [List.length_cons] at shorter
            exact LexersAgree.cons (ih (by omega) (by omega)) tok i j

/-- The two lexers give the same tokens for every text of Unicode scalar values, or both fail. -/
theorem tokenize_agrees (s : List Char) : LexersAgree (exprTokens (utf16 s)) (Rust.tokenize s) :=
  tokenizeFrom_agrees (Nat.le_refl _) (Nat.le_refl _)

end Xript
