import Xript.Expr.RustLexerAgrees
import Xript.Number.Integers

namespace Xript

/-- A `NodeRef`. -/
inductive NodeRef where
  | id (id : JSString)
  | path (path : List F64)
  | selector (selector : JSString)
  deriving DecidableEq

def isIdUnit (u : Nat) : Bool := isLetter u || isDigit u || u == 95 || u == 46 || u == 58 || u == 45

/-- `ID_REFERENCE`. -/
def isIdReference : JSString → Bool
  | 35 :: first :: rest => isLetter first && rest.all isIdUnit
  | _ => false

/-- `\d+`. -/
def isIndexText (segment : JSString) : Bool := !segment.isEmpty && segment.all isDigit

/-- `PATH_REFERENCE`. -/
def isPathReference : JSString → Bool
  | 64 :: body => (body.splitOn 46).all isIndexText
  | _ => false

def parseNodeRef (target : JSString) : NodeRef :=
  if isIdReference target then .id (target.drop 1)
  else if isPathReference target then .path (((target.drop 1).splitOn 46).map F64.ofText)
  else .selector target

namespace Rust

/-- A `NodeRef`; `usize` has 64 bits. -/
inductive NodeRef where
  | id (id : List Char)
  | path (path : List UInt64)
  | selector (selector : List Char)
  deriving DecidableEq

def isIdChar (c : Char) : Bool :=
  c.isAlpha || c.isDigit || c == '_' || c == '.' || c == ':' || c == '-'

def isIdReference (target : List Char) : Bool :=
  match target with
  | '#' :: first :: rest => first.isAlpha && rest.all isIdChar
  | _ => false

/-- `str::parse::<usize>`: a plus may stand in front of the digits. -/
def parseUsize (segment : List Char) : Option UInt64 :=
  let digits := match segment with
    | '+' :: digits => digits
    | digits => digits
  if digits ≠ [] ∧ digits.all Char.isDigit ∧ Nat.ofDigitChars 10 digits 0 < 2 ^ 64 then
    some (.ofNat (Nat.ofDigitChars 10 digits 0))
  else none

def parsePathReference (target : List Char) : Option (List UInt64) :=
  match target with
  | '@' :: body => if body = [] then none else (body.splitOn '.').mapM parseUsize
  | _ => none

def parseNodeRef (target : List Char) : NodeRef :=
  if isIdReference target then .id (target.drop 1)
  else match parsePathReference target with
    | some path => .path path
    | none => .selector target

def pathReference (path : List UInt64) : List Char :=
  '@' :: ['.'].intercalate (path.map fun segment => Nat.toDigits 10 segment.toNat)

end Rust

/-- The index a number of one runtime and a `usize` of the other both are. -/
def SameIndex (x : F64) (n : UInt64) : Prop := ∃ b, x = .finite b ∧ b.value = n.toNat

/-- One reference as the two runtimes hold it. -/
def SameRef : NodeRef → Rust.NodeRef → Prop
  | .id a, .id b => a = utf16 b
  | .path a, .path b => List.Forall₂ SameIndex a b
  | .selector a, .selector b => a = utf16 b
  | _, _ => False

/-- A target both runtimes read alike. Where the segments behind the `@` are digits alone, each is a number below `2 ^ 64`
of at most 53 significant bits; elsewhere some segment is neither digits nor a plus and digits of such a number. -/
def SharedTarget (target : List Char) : Prop :=
  ∀ body, target = '@' :: body →
    if (body.splitOn '.').all fun segment => !segment.isEmpty && segment.all Char.isDigit then
      ∀ segment ∈ body.splitOn '.', Nat.ofDigitChars 10 segment 0 < 2 ^ 64 ∧ FitsDouble (Nat.ofDigitChars 10 segment 0)
    else ∃ segment ∈ body.splitOn '.', Rust.parseUsize segment = none

theorem mapM_some_iff {α β : Type} {f : α → Option β} {as : List α} {bs : List β} :
    as.mapM f = some bs ↔ List.Forall₂ (fun a b => f a = some b) as bs := by
  induction as generalizing bs with
  | nil => cases bs <;> simp
  | cons a as ih =>
    cases read : f a with
    | none =>
      refine iff_of_false (by simp [read]) fun pairs => ?_
      cases pairs with
      | cons head _ =>
        rw [read] at head
        cases head
    | some b =>
      cases bs with
      | nil => cases rest : as.mapM f <;> simp [read, rest]
      | cons b' bs =>
        rw [List.forall₂_cons, ← ih, read, List.mapM_cons, read]
        cases rest : as.mapM f <;> simp

theorem mapM_none_iff {α β : Type} {f : α → Option β} {as : List α} :
    as.mapM f = none ↔ ∃ a ∈ as, f a = none := by
  induction as with
  | nil => simp
  | cons a as ih =>
    rw [List.mapM_cons, List.exists_mem_cons_iff, ← ih]
    cases f a with
    | none => simp
    | some b => cases as.mapM f <;> simp

theorem splitOn_append_clean {sep : Nat} {units : JSString} (clean : sep ∉ units) (s : JSString) :
    (units ++ s).splitOn sep = (s.splitOn sep).modifyHead (units ++ ·) := by
  induction units with
  | nil => cases pieces : s.splitOn sep <;> simp [pieces]
  | cons u units ih =>
    rw [List.mem_cons, not_or] at clean
    rw [List.cons_append, List.splitOn_cons_eq_if_modifyHead, if_neg (by simpa using Ne.symm clean.1), ih clean.2]
    cases s.splitOn sep <;> rfl

/-- Cutting the units of a text at an ASCII character. -/
theorem splitOn_utf16 {sep : Char} (ascii : sep.toNat < 128) (s : List Char) :
    (utf16 s).splitOn sep.toNat = (s.splitOn sep).map utf16 := by
  induction s with
  | nil => rfl
  | cons c s ih =>
    rw [List.splitOn_cons_eq_if_modifyHead]
    by_cases same : c = sep
    · rw [same, utf16_cons_ascii ascii, List.splitOn_cons_eq_if_modifyHead, if_pos (beq_self_eq_true _),
        if_pos (beq_self_eq_true _), ih]
      rfl
    · have clean : sep.toNat ∉ unitsOf c.toNat := by
        intro unit
        unfold unitsOf at unit
        split at unit
        · exact same (Char.toNat_inj.mp (List.mem_singleton.mp unit)).symm
        · simp only [List.mem_cons, List.not_mem_nil, or_false] at unit
          omega
      rw [if_neg (by simpa using same), utf16_cons, splitOn_append_clean clean, ih]
      cases s.splitOn sep <;> simp

theorem all_utf16 {p : Nat → Bool} (ascii : Ascii p) (s : List Char) : (utf16 s).all p = s.all fun c => p c.toNat := by
  induction s with
  | nil => rfl
  | cons c s ih =>
    obtain ⟨u, t, units, low, high⟩ := unitsOf_head c.toNat
    rw [utf16_cons, List.all_append, ih, List.all_cons]
    by_cases inAscii : c.toNat < 128
    · rw [units, (low inAscii).1, (low inAscii).2, List.all_cons, List.all_nil, Bool.and_true]
    · have outside : p u = false := Bool.eq_false_iff.mpr fun holds => absurd (ascii u holds) (by have := high (by omega); omega)
      have outside' : p c.toNat = false := Bool.eq_false_iff.mpr fun holds => inAscii (ascii _ holds)
      rw [units, List.all_cons, outside, outside', Bool.false_and, Bool.false_and]

theorem isDigit_char (c : Char) : isDigit c.toNat = c.isDigit := by
  simp [isDigit, Char.isDigit, UInt32.le_iff_toNat_le]

theorem isLetter_char (c : Char) : isLetter c.toNat = c.isAlpha := by
  delta Char.isAlpha Char.isUpper Char.isLower
  simp [isLetter, isUpper, isLower, UInt32.le_iff_toNat_le]

theorem isIdUnit_char (c : Char) : isIdUnit c.toNat = Rust.isIdChar c := by
  have unit : ∀ d : Char, (c.toNat == d.toNat) = (c == d) := by
    intro d
    rw [Bool.eq_iff_iff, beq_iff_eq, beq_iff_eq, Char.toNat_inj]
  rw [isIdUnit, Rust.isIdChar, isLetter_char, isDigit_char, ← unit '_', ← unit '.', ← unit ':', ← unit '-']
  rfl

theorem ascii_isIdUnit : Ascii isIdUnit := by
  intro u
  simp only [isIdUnit, isLetter, isUpper, isLower, isDigit, Bool.or_eq_true, Bool.and_eq_true, decide_eq_true_eq,
    beq_iff_eq]
  omega

theorem ascii_isLetter : Ascii isLetter := by
  intro u
  simp only [isLetter, isUpper, isLower, Bool.or_eq_true, Bool.and_eq_true, decide_eq_true_eq]
  omega

theorem isIdReference_utf16 (target : List Char) : isIdReference (utf16 target) = Rust.isIdReference target := by
  have rest : ∀ s : List Char, (utf16 s).all isIdUnit = s.all Rust.isIdChar := fun s => by
    rw [all_utf16 ascii_isIdUnit]
    simp only [isIdUnit_char]
  have units : ∀ u t, isIdReference ('#'.toNat :: u :: t) = (isLetter u && t.all isIdUnit) := fun _ _ => rfl
  have chars : ∀ c t, Rust.isIdReference ('#' :: c :: t) = (c.isAlpha && t.all Rust.isIdChar) := fun _ _ => rfl
  by_cases shape : ∃ first s, target = '#' :: first :: s
  · obtain ⟨first, s, rfl⟩ := shape
    rw [utf16_cons_ascii (by decide), chars]
    by_cases ascii : first.toNat < 128
    · rw [utf16_cons_ascii ascii, units, isLetter_char, rest]
    · obtain ⟨u, t, head, -, high⟩ := unitsOf_head first.toNat
      have outside : isLetter u = false := Bool.eq_false_iff.mpr fun holds =>
        absurd (ascii_isLetter u holds) (by have := high (by omega); omega)
      have outside' : first.isAlpha = false := Bool.eq_false_iff.mpr fun holds =>
        ascii (ascii_isLetter _ ((isLetter_char first).trans holds))
      rw [utf16_cons, head, List.cons_append, units, outside, outside', Bool.false_and, Bool.false_and]
  · have plain : Rust.isIdReference target = false := by
      unfold Rust.isIdReference
      split
      · exact absurd ⟨_, _, rfl⟩ shape
      · rfl
    rw [plain]
    unfold isIdReference
    split
    · rename_i first s same
      obtain ⟨c, r, rfl, code, more⟩ := utf16_eq_cons same (by decide)
      obtain rfl : c = '#' := Char.toNat_inj.mp code
      refine Bool.eq_false_iff.mpr fun holds => shape ?_
      obtain ⟨d, t, rfl, -, -⟩ := utf16_eq_cons more (ascii_isLetter _ (Bool.and_eq_true_iff.mp holds).1)
      exact ⟨d, t, rfl⟩
    · rfl

theorem isIndexText_utf16 (segment : List Char) :
    isIndexText (utf16 segment) = (!segment.isEmpty && segment.all Char.isDigit) := by
  rw [isIndexText, all_utf16 ascii_isDigit]
  simp only [isDigit_char]
  cases segment with
  | nil => rfl
  | cons c s => simp [unitsOf_ne_nil]

theorem trim_digits {s : JSString} (all : s.all isDigit = true) : trim s = s := by
  have solid : ∀ u ∈ s, ¬isSpace u = true := by
    intro u member
    have digit := List.all_eq_true.mp all u member
    simp only [isDigit, Bool.and_eq_true, decide_eq_true_eq] at digit
    rw [isSpace_of_graphic (by omega) (by omega)]
    exact Bool.false_ne_true
  rw [trim, List.dropWhile_eq_self_iff.mpr fun _ => solid _ (List.getElem_mem _), List.rdropWhile_eq_self_iff.mpr]
  exact fun nonempty => solid _ (List.getLast_mem nonempty)

/-- `Number` of digits. -/
theorem ofText_digits {digits : List Char} (present : digits ≠ []) (all : digits.all Char.isDigit = true) :
    F64.ofText (utf16 digits) = F64.ofNat (Nat.ofDigitChars 10 digits 0) := by
  have each : ∀ c ∈ digits, c.isDigit = true := List.all_eq_true.mp all
  obtain ⟨units, unitDigits⟩ := utf16_digits each
  have value : readDigits 10 (utf16 digits) = Nat.ofDigitChars 10 digits 0 := by
    rw [readDigits, units, readDigits_chars each]
  have nonempty : utf16 digits ≠ [] := mt utf16_eq_nil.mp present
  have read : readUnsignedDecimal (utf16 digits) = some (Nat.ofDigitChars 10 digits 0 : ℚ) := by
    have whole := @readUnsignedDecimal_whole _ [] 0 unitDigits nonempty (by simp) rfl
    rwa [List.append_nil, value, pow10_eq, zpow_zero, mul_one] at whole
  rw [← value] at read ⊢
  generalize utf16 digits = s at *
  obtain ⟨c, rest, rfl⟩ := List.exists_cons_of_ne_nil nonempty
  have digit := List.all_eq_true.mp unitDigits c (List.mem_cons_self ..)
  have number := F64.ofDecimalText_unsigned digit read
  rw [F64.ofText, trim_digits unitDigits]
  split
  · rename_i empty
    cases empty
  · rename_i x digits same
    obtain ⟨rfl, rfl⟩ := List.cons.inj same
    have second : isDigit x = true := List.all_eq_true.mp unitDigits x (by simp)
    have plain : literalRadix x = none := by
      simp only [isDigit, Bool.and_eq_true, decide_eq_true_eq] at second
      rw [literalRadix, if_neg (by omega), if_neg (by omega), if_neg (by omega)]
    rw [plain]
    exact number
  · exact number

theorem parseUsize_digits {digits : List Char} (present : digits ≠ []) (all : digits.all Char.isDigit = true) :
    Rust.parseUsize digits = if Nat.ofDigitChars 10 digits 0 < 2 ^ 64 then some (.ofNat (Nat.ofDigitChars 10 digits 0))
      else none := by
  unfold Rust.parseUsize
  split
  · exact absurd (List.all_eq_true.mp all '+' (List.mem_cons_self ..)) (by decide)
  · simp only [ne_eq, present, all, not_false_eq_true, true_and]

/-- Segments of digits alone are one path of both runtimes where each is a number both hold. -/
theorem sameIndices_iff {segments : List (List Char)}
    (plain : ∀ segment ∈ segments, segment ≠ [] ∧ segment.all Char.isDigit = true) :
    (∃ path, segments.mapM Rust.parseUsize = some path ∧
        List.Forall₂ SameIndex (segments.map fun segment => F64.ofText (utf16 segment)) path) ↔
      ∀ segment ∈ segments, Nat.ofDigitChars 10 segment 0 < 2 ^ 64 ∧ FitsDouble (Nat.ofDigitChars 10 segment 0) := by
  induction segments with
  | nil => simp
  | cons segment segments ih =>
    obtain ⟨present, digits⟩ := plain segment (List.mem_cons_self ..)
    rw [List.forall_mem_cons, ← ih fun segment member => plain segment (List.mem_cons_of_mem _ member)]
    have read := parseUsize_digits present digits
    simp only [mapM_some_iff, ofText_digits present digits, List.map_cons]
    generalize Nat.ofDigitChars 10 segment 0 = n at read ⊢
    constructor
    · rintro ⟨path, parsed, same⟩
      cases parsed with
      | cons head rest =>
        rw [read] at head
        split at head
        · rename_i small
          obtain rfl := Option.some.inj head
          cases same with
          | cons index more =>
            obtain ⟨b, -, value⟩ := index
            rw [UInt64.toNat_ofNat_of_lt' small] at value
            exact ⟨⟨small, Binary64.fits_of_value value⟩, _, rest, more⟩
        · cases head
    · rintro ⟨⟨small, fits⟩, path, parsed, same⟩
      have bounded : n.log2 < 1024 := by
        by_cases zero : n = 0
        · rw [zero]
          decide
        · have := (Nat.log2_lt zero).mpr small
          omega
      obtain ⟨b, double, value⟩ := (F64.ofNat_exact_iff bounded).mpr fits
      refine ⟨.ofNat n :: path, .cons (by rw [read, if_pos small]) parsed, .cons ⟨b, double, ?_⟩ same⟩
      rw [value, UInt64.toNat_ofNat_of_lt' small]

/-- A path is rendered as the target it is parsed from. -/
theorem parsePathReference_rendered (first : UInt64) (rest : List UInt64) :
    Rust.parsePathReference (Rust.pathReference (first :: rest)) = some (first :: rest) := by
  have digits : ∀ n, ∀ c ∈ Nat.toDigits 10 n, c.isDigit = true := fun n c member =>
    Nat.isDigit_of_mem_toDigits (by decide) (by decide) member
  have pieces : (['.'].intercalate ((first :: rest).map fun n => Nat.toDigits 10 n.toNat)).splitOn '.' =
      (first :: rest).map fun n => Nat.toDigits 10 n.toNat := by
    refine List.splitOn_intercalate '.' (fun part member inside => ?_) (by simp)
    obtain ⟨n, -, rfl⟩ := List.mem_map.mp member
    exact absurd (digits _ _ inside) (by decide)
  have nonempty : ['.'].intercalate ((first :: rest).map fun n => Nat.toDigits 10 n.toNat) ≠ [] := by
    intro empty
    rw [empty, List.splitOn_nil] at pieces
    exact Nat.toDigits_ne_nil (List.cons.inj pieces).1.symm
  rw [Rust.pathReference, Rust.parsePathReference, if_neg nonempty, pieces, mapM_some_iff, List.forall₂_map_left_iff, List.forall₂_same]
  intro n _
  rw [parseUsize_digits Nat.toDigits_ne_nil (List.all_eq_true.mpr (digits _)), Nat.ofDigitChars_ten_toDigits,
    if_pos n.toNat_lt, UInt64.ofNat_toNat]

/-- The two runtimes read a target alike exactly where no segment behind an `@` is one that only one of them takes, or takes
for another number; and a rendered path is parsed back. -/
theorem nodeRefs_agree_iff (target : List Char) (first : UInt64) (rest : List UInt64) :
    (SameRef (parseNodeRef (utf16 target)) (Rust.parseNodeRef target) ↔ SharedTarget target) ∧
      Rust.parseNodeRef (Rust.pathReference (first :: rest)) = .path (first :: rest) := by
  constructor
  · rw [parseNodeRef, Rust.parseNodeRef, isIdReference_utf16]
    by_cases sigil : ∃ body, target = '@' :: body
    · obtain ⟨body, rfl⟩ := sigil
      have units : utf16 ('@' :: body) = 64 :: utf16 body := utf16_cons_ascii (by decide) body
      have cut : (utf16 body).splitOn 46 = (body.splitOn '.').map utf16 := @splitOn_utf16 '.' (by decide) body
      have path : isPathReference (64 :: utf16 body) =
          (body.splitOn '.').all fun segment => !segment.isEmpty && segment.all Char.isDigit := by
        rw [isPathReference, cut, List.all_map]
        exact List.all_congr rfl isIndexText_utf16
      have noId : Rust.isIdReference ('@' :: body) = false := rfl
      have shared : SharedTarget ('@' :: body) ↔
          if (body.splitOn '.').all fun segment => !segment.isEmpty && segment.all Char.isDigit then
            ∀ segment ∈ body.splitOn '.', Nat.ofDigitChars 10 segment 0 < 2 ^ 64 ∧ FitsDouble (Nat.ofDigitChars 10 segment 0)
          else ∃ segment ∈ body.splitOn '.', Rust.parseUsize segment = none :=
        ⟨fun shared => shared body rfl, fun holds other same => (List.cons.inj same).2 ▸ holds⟩
      have rust : Rust.parsePathReference ('@' :: body) = (body.splitOn '.').mapM Rust.parseUsize := by
        unfold Rust.parsePathReference
        split
        · rename_i other same
          obtain rfl := (List.cons.inj same).2
          split
          · rename_i empty
            rw [empty]
            rfl
          · rfl
        · rename_i other
          exact absurd rfl (other body)
      rw [noId, units, path, rust, shared, if_neg Bool.false_ne_true, if_neg Bool.false_ne_true]
      by_cases plain : ((body.splitOn '.').all fun segment => !segment.isEmpty && segment.all Char.isDigit) = true
      · rw [if_pos plain, if_pos plain, ← sameIndices_iff, List.drop_one, List.tail_cons, cut, List.map_map]
        · cases (body.splitOn '.').mapM Rust.parseUsize with
          | none => simp [SameRef]
          | some indices => simp [SameRef, Function.comp_def]
        · intro segment member
          have digits := List.all_eq_true.mp plain segment member
          simpa using digits
      · rw [if_neg plain, if_neg plain, ← mapM_none_iff]
        cases (body.splitOn '.').mapM Rust.parseUsize with
        | none => simp [SameRef, units]
        | some indices => simp [SameRef]
    · have shared : SharedTarget target := fun body same => absurd ⟨body, same⟩ sigil
      have rust : Rust.parsePathReference target = none := by
        unfold Rust.parsePathReference
        split
        · exact absurd ⟨_, rfl⟩ sigil
        · rfl
      have path : isPathReference (utf16 target) = false := by
        unfold isPathReference
        split
        · rename_i body same
          obtain ⟨c, r, rfl, code, -⟩ := utf16_eq_cons same (by decide)
          obtain rfl : c = '@' := Char.toNat_inj.mp code
          exact absurd ⟨r, rfl⟩ sigil
        · rfl
      rw [iff_true_right shared, rust, path, if_neg Bool.false_ne_true]
      split
      · rename_i isId
        unfold Rust.isIdReference at isId
        split at isId
        · rw [utf16_cons_ascii (by decide)]
          rfl
        · cases isId
      · rfl
  · rw [Rust.parseNodeRef, parsePathReference_rendered]
    rfl

/-- A signed segment is an index of one runtime and part of a selector in the other. -/
theorem nodeRefs_signed : ¬ ∀ target : List Char, SameRef (parseNodeRef (utf16 target)) (Rust.parseNodeRef target) := by
  intro agree
  have path : Rust.parseNodeRef "@+1".toList = .path [1] := by decide
  have selector : parseNodeRef (utf16 "@+1".toList) = .selector (js "@+1") := by decide
  have same := agree "@+1".toList
  rw [path, selector] at same
  exact same

end Xript
