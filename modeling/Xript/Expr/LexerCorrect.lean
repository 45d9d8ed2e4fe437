import Xript.Expr.Grammar

namespace Xript

theorem takeWhile_all {p : Nat → Bool} {s : JSString} (all : s.all p) (rest : JSString) :
    (s ++ rest).takeWhile p = s ++ rest.takeWhile p :=
  List.takeWhile_append_of_pos (List.all_eq_true.mp all)

theorem dropWhile_all {p : Nat → Bool} {s : JSString} (all : s.all p) (rest : JSString) :
    (s ++ rest).dropWhile p = rest.dropWhile p :=
  List.dropWhile_append_of_pos (List.all_eq_true.mp all)

theorem all_takeWhile (p : Nat → Bool) (s : JSString) : (s.takeWhile p).all p :=
  List.all_takeWhile

theorem scanFraction_split (s : JSString) : (scanFraction s).1 ++ (scanFraction s).2 = s := by
  unfold scanFraction
  split
  · split
    · rfl
    · simp [List.takeWhile_append_dropWhile]
  · rfl

/-- A sign is one of two characters at the start of its text, or there is none. -/
theorem exponentSign_cases (s : JSString) :
    (exponentSign s = [] ∧ (∀ t, s ≠ 43 :: t) ∧ ∀ t, s ≠ 45 :: t) ∨
      ∃ sign t, (sign = 43 ∨ sign = 45) ∧ s = sign :: t ∧ exponentSign s = [sign] := by
  unfold exponentSign
  split
  · exact Or.inr ⟨43, _, Or.inl rfl, rfl, rfl⟩
  · exact Or.inr ⟨45, _, Or.inr rfl, rfl, rfl⟩
  · rename_i noPlus noMinus
    exact Or.inl ⟨rfl, fun t same => noPlus t same, fun t same => noMinus t same⟩

theorem scanExponent_split (s : JSString) : (scanExponent s).1 ++ (scanExponent s).2 = s := by
  unfold scanExponent
  split
  · rfl
  · rename_i e t
    split
    · dsimp only
      split
      · rfl
      · rcases exponentSign_cases t with ⟨none, -⟩ | ⟨sign, u, -, rfl, is⟩
        · simp [none, List.takeWhile_append_dropWhile]
        · simp [is, List.takeWhile_append_dropWhile]
    · rfl

/-- The number scanner cuts its text in two. -/
theorem scanNumber_split (s : JSString) : (scanNumber s).1 ++ (scanNumber s).2 = s := by
  simp only [scanNumber, List.append_assoc, scanExponent_split, scanFraction_split,
    List.takeWhile_append_dropWhile]

theorem scanExponent_text (s : JSString) : (scanExponent s).1 = [] ∨ ExponentText (scanExponent s).1 := by
  unfold scanExponent
  split
  · exact Or.inl rfl
  · rename_i e t
    split
    · rename_i marks
      dsimp only
      split
      · exact Or.inl rfl
      · rename_i some
        rcases exponentSign_cases t with ⟨none, -⟩ | ⟨sign, u, signs, rfl, is⟩
        · rw [none] at some ⊢
          exact Or.inr (.plain marks some (all_takeWhile ..))
        · rw [is] at some ⊢
          exact Or.inr (.signed marks signs some (all_takeWhile ..))
    · exact Or.inl rfl

theorem scanFraction_text (s : JSString) :
    (scanFraction s).1 = [] ∨ ∃ part, (scanFraction s).1 = 46 :: part ∧ part ≠ [] ∧ part.all isDigit := by
  unfold scanFraction
  split
  · split
    · exact Or.inl rfl
    · rename_i some
      exact Or.inr ⟨_, rfl, some, all_takeWhile ..⟩
  · exact Or.inl rfl

theorem scanNumber_text {c : Nat} {s : JSString} (digit : isDigit c) : NumberText (scanNumber (c :: s)).1 := by
  have some : (c :: s).takeWhile isDigit ≠ [] := by simp [digit]
  have all := all_takeWhile isDigit (c :: s)
  simp only [scanNumber]
  rcases scanFraction_text ((c :: s).dropWhile isDigit) with none | ⟨part, is, somePart, allPart⟩
  · rcases scanExponent_text (scanFraction ((c :: s).dropWhile isDigit)).2 with empty | exponent
    · rw [none, empty, List.append_nil, List.append_nil]
      exact .digits some all
    · rw [none, List.append_nil]
      exact .exponent some all exponent
  · rcases scanExponent_text (scanFraction ((c :: s).dropWhile isDigit)).2 with empty | exponent
    · rw [is, empty, List.append_nil]
      exact .fraction all somePart allPart
    · rw [is]
      exact .fractionExponent some all somePart allPart exponent

theorem scanExponent_longest {exp : JSString} (text : ExponentText exp) (rest : JSString) :
    exp.length ≤ (scanExponent (exp ++ rest)).1.length := by
  cases text with
  | @plain e digits marks some all =>
    have run := takeWhile_all all rest
    have filled : digits ++ rest.takeWhile isDigit ≠ [] := by simp [some]
    obtain ⟨d, ds, rfl⟩ := List.exists_cons_of_ne_nil some
    have digit : isDigit d := (List.all_eq_true.mp all) d (List.mem_cons_self ..)
    have unsigned : exponentSign (d :: ds ++ rest) = [] := by
      rcases exponentSign_cases (d :: ds ++ rest) with ⟨none, -⟩ | ⟨sign, u, signs, same, -⟩
      · exact none
      · cases same
        rcases signs with rfl | rfl <;> cases digit
    rw [List.cons_append]
    simp only [scanExponent, if_pos marks, unsigned, List.length_nil, List.drop_zero, run, if_neg filled]
    simp
  | @signed e sign digits marks signs some all =>
    have run := takeWhile_all all rest
    have filled : digits ++ rest.takeWhile isDigit ≠ [] := by simp [some]
    have known : exponentSign (sign :: (digits ++ rest)) = [sign] := by
      rcases signs with rfl | rfl <;> rfl
    simp only [List.cons_append, scanExponent, if_pos marks, known, List.length_singleton, List.drop_one,
      List.tail_cons, run, if_neg filled]
    simp

/-- An exponent is not in the way of the digits before it, nor is it a fraction. -/
theorem ExponentText.after {exp : JSString} (text : ExponentText exp) (rest : JSString) :
    (exp ++ rest).takeWhile isDigit = [] ∧ (exp ++ rest).dropWhile isDigit = exp ++ rest ∧
      scanFraction (exp ++ rest) = ([], exp ++ rest) := by
  cases text with
  | plain marks _ _ => rcases marks with rfl | rfl <;> exact ⟨rfl, rfl, rfl⟩
  | signed marks _ _ _ => rcases marks with rfl | rfl <;> exact ⟨rfl, rfl, rfl⟩

/-- A fraction after whole digits is scanned with its own digits. -/
theorem scanFraction_part {part : JSString} (some : part ≠ []) (all : part.all isDigit) (rest : JSString) :
    scanFraction (46 :: (part ++ rest)) = (46 :: part ++ rest.takeWhile isDigit, rest.dropWhile isDigit) := by
  have filled : part ++ rest.takeWhile isDigit ≠ [] := by simp [some]
  simp only [scanFraction, takeWhile_all all, dropWhile_all all, if_neg filled, List.cons_append]

/-- No number literal is longer than the one the scanner takes. -/
theorem scanNumber_longest {text : JSString} (number : NumberText text) (rest : JSString) :
    text.length ≤ (scanNumber (text ++ rest)).1.length := by
  cases number with
  | digits some all =>
    simp only [scanNumber, takeWhile_all all, List.length_append]
    omega
  | @fraction digits part all some allPart =>
    have run := takeWhile_all all (46 :: (part ++ rest))
    have drop := dropWhile_all all (46 :: (part ++ rest))
    rw [List.takeWhile_cons_of_neg (by decide), List.append_nil] at run
    rw [List.dropWhile_cons_of_neg (by decide)] at drop
    simp only [List.append_assoc, List.cons_append, scanNumber, run, drop, scanFraction_part some allPart]
    simp only [List.length_append, List.length_cons]
    omega
  | @exponent digits exp some all exponent =>
    obtain ⟨taken, dropped, noFraction⟩ := exponent.after rest
    have run := takeWhile_all all (exp ++ rest)
    have drop := dropWhile_all all (exp ++ rest)
    rw [taken, List.append_nil] at run
    rw [dropped] at drop
    have longest := scanExponent_longest exponent rest
    simp only [List.append_assoc, scanNumber, run, drop, noFraction, List.length_append, List.length_nil]
    omega
  | @fractionExponent digits part exp some all somePart allPart exponent =>
    obtain ⟨taken, dropped, -⟩ := exponent.after rest
    have run := takeWhile_all all (46 :: (part ++ (exp ++ rest)))
    have drop := dropWhile_all all (46 :: (part ++ (exp ++ rest)))
    rw [List.takeWhile_cons_of_neg (by decide), List.append_nil] at run
    rw [List.dropWhile_cons_of_neg (by decide)] at drop
    have longest := scanExponent_longest exponent rest
    simp only [List.append_assoc, List.cons_append, scanNumber, run, drop, scanFraction_part somePart allPart, taken,
      dropped, List.append_nil]
    simp only [List.length_append, List.length_cons]
    omega

theorem NumberText.head {text : JSString} (number : NumberText text) :
    ∃ c t, text = c :: t ∧ (isDigit c ∨ c = 46 ∧ t ≠ [] ∧ t.all isDigit) := by
  cases number with
  | digits some all =>
    obtain ⟨c, t, rfl⟩ := List.exists_cons_of_ne_nil some
    exact ⟨c, t, rfl, Or.inl (List.all_eq_true.mp all c (List.mem_cons_self ..))⟩
  | @fraction digits part all some allPart =>
    cases digits with
    | nil => exact ⟨46, part, rfl, Or.inr ⟨rfl, some, allPart⟩⟩
    | cons c t => exact ⟨c, _, rfl, Or.inl (List.all_eq_true.mp all c (List.mem_cons_self ..))⟩
  | @exponent digits exp some all exponent =>
    obtain ⟨c, t, rfl⟩ := List.exists_cons_of_ne_nil some
    exact ⟨c, _, rfl, Or.inl (List.all_eq_true.mp all c (List.mem_cons_self ..))⟩
  | @fractionExponent digits part exp some all somePart allPart exponent =>
    obtain ⟨c, t, rfl⟩ := List.exists_cons_of_ne_nil some
    exact ⟨c, _, rfl, Or.inl (List.all_eq_true.mp all c (List.mem_cons_self ..))⟩

theorem scanString_of_body {quote : Nat} {body content : JSString} (quotes : quote = 34 ∨ quote = 39)
    (text : StringBody quote body content) (start i : Nat) (rest : JSString) :
    scanString start quote i (body ++ quote :: rest) = .ok (content, body ++ [quote], rest) := by
  have unescaped : (92 : Nat) ≠ quote := by rcases quotes with rfl | rfl <;> decide
  induction text generalizing i with
  | nil =>
    rw [scanString.eq_def]
    simp
  | @plain u body content notQuote notEscape notLine _ ih =>
    rw [List.cons_append, scanString.eq_def]
    simp only [if_neg notQuote, if_neg notEscape, if_neg notLine, ih]
    rfl
  | @unicode a b c d body content hex _ ih =>
    rw [List.cons_append, scanString.eq_def]
    simp only [List.cons_append, if_neg unescaped, if_true, if_pos hex, ih]
    rfl
  | @escape e body content plain _ ih =>
    rw [List.cons_append, scanString.eq_def]
    simp only [List.cons_append, if_neg unescaped, if_true]
    split
    · rename_i same
      cases same
    · rename_i same
      exact absurd (List.cons.inj same).1 plain
    · rename_i same
      obtain ⟨rfl, rfl⟩ := List.cons.inj same
      rw [if_neg plain, ih]
      rfl

theorem ok_of_map {ε α β : Type} {x : Except ε α} {f : α → β} {b : β} (run : x.map f = .ok b) :
    ∃ a, x = .ok a ∧ f a = b := by
  cases x with
  | error e => cases run
  | ok a => exact ⟨a, rfl, Except.ok.inj run⟩

theorem scanString_body {start quote i : Nat} {s content raw rest : JSString}
    (run : scanString start quote i s = .ok (content, raw, rest)) :
    ∃ body, StringBody quote body content ∧ raw = body ++ [quote] ∧ s = body ++ quote :: rest := by
  induction i, s using scanString.induct quote generalizing content raw with
  | case1 i => cases run
  | case2 i s =>
    rw [scanString.eq_def] at run
    simp only [if_true] at run
    cases run
    exact ⟨[], .nil, rfl, rfl⟩
  | case3 i notQuote =>
    rw [scanString.eq_def] at run
    simp only [if_neg notQuote, if_true] at run
    cases run
  | case4 i a b c d t hex notQuote ih =>
    rw [scanString.eq_def] at run
    simp only [if_neg notQuote, if_true, if_pos hex] at run
    obtain ⟨inner, found, equal⟩ := ok_of_map run
    cases equal
    obtain ⟨body, text, is, rfl⟩ := ih found
    exact ⟨92 :: 117 :: a :: b :: c :: d :: body, .unicode hex text, by rw [is]; rfl, rfl⟩
  | case5 i a b c d t notHex notQuote =>
    rw [scanString.eq_def] at run
    simp only [if_neg notQuote, if_true, if_neg notHex] at run
    cases run
  | case6 i t notQuote short =>
    rw [scanString.eq_def] at run
    simp only [if_neg notQuote, if_true] at run
    cases run
  | case7 i e t _ plain notQuote ih =>
    rw [scanString.eq_def] at run
    simp only [if_neg notQuote, if_true] at run
    simp only [if_neg plain] at run
    obtain ⟨inner, found, equal⟩ := ok_of_map run
    cases equal
    obtain ⟨body, text, is, rfl⟩ := ih found
    exact ⟨92 :: e :: body, .escape plain text, by rw [is]; rfl, rfl⟩
  | case8 i s notQuote notEscape =>
    rw [scanString.eq_def] at run
    simp only [if_neg notQuote, if_neg notEscape, if_true] at run
    cases run
  | case9 i u s notQuote notEscape notLine ih =>
    rw [scanString.eq_def] at run
    simp only [if_neg notQuote, if_neg notEscape, if_neg notLine] at run
    obtain ⟨inner, found, equal⟩ := ok_of_map run
    cases equal
    obtain ⟨body, text, is, rfl⟩ := ih found
    exact ⟨u :: body, .plain notQuote notEscape notLine text, by rw [is]; rfl, rfl⟩

theorem punctuators_length {text : JSString} {p : Punct} (member : (text, p) ∈ punctuators) :
    text.length = 3 ∧ (text, p) ∈ punct3 ∨ text.length = 2 ∧ (text, p) ∈ punct2 ∨
      text.length = 1 ∧ (text, p) ∈ punct1 := by
  have three : ∀ entry ∈ punct3, entry.1.length = 3 := by decide
  have two : ∀ entry ∈ punct2, entry.1.length = 2 := by decide
  have one : ∀ entry ∈ punct1, entry.1.length = 1 := by decide
  rcases List.mem_append.mp member with member | member
  · rcases List.mem_append.mp member with member | member
    · exact Or.inl ⟨three _ member, member⟩
    · exact Or.inr (Or.inl ⟨two _ member, member⟩)
  · exact Or.inr (Or.inr ⟨one _ member, member⟩)

theorem punctuators_functional {text : JSString} {p q : Punct} (first : (text, p) ∈ punctuators)
    (second : (text, q) ∈ punctuators) : p = q := by
  have all : ∀ a ∈ punctuators, ∀ b ∈ punctuators, a.1 = b.1 → a.2 = b.2 := by decide
  exact all _ first _ second rfl

theorem punctuators_head {c : Nat} {t : JSString} {p : Punct} (member : (c :: t, p) ∈ punctuators) :
    (isDigit c = false ∧ isIdentStart c = false ∧ c ≠ 34 ∧ c ≠ 39 ∧ isSpace c = false) ∧ (c = 46 → t = []) := by
  have all : ∀ entry ∈ punctuators, (isDigit (entry.1.headD 0) = false ∧ isIdentStart (entry.1.headD 0) = false ∧
      entry.1.headD 0 ≠ 34 ∧ entry.1.headD 0 ≠ 39 ∧ isSpace (entry.1.headD 0) = false) ∧
      (entry.1.headD 0 = 46 → entry.1.tail = []) := by decide
  exact all _ member

theorem absentOperators_head {c : Nat} {t : JSString} (member : c :: t ∈ absentOperators) :
    isDigit c = false ∧ isIdentStart c = false ∧ c ≠ 34 ∧ c ≠ 39 ∧ c ≠ 46 ∧ t.length = 1 := by
  have all : ∀ entry ∈ absentOperators, isDigit (entry.headD 0) = false ∧ isIdentStart (entry.headD 0) = false ∧
      entry.headD 0 ≠ 34 ∧ entry.headD 0 ≠ 39 ∧ entry.headD 0 ≠ 46 ∧ entry.tail.length = 1 := by decide
  exact all _ member

theorem isIdentStart_digit {c : Nat} (starts : isIdentStart c) :
    isDigit c = false ∧ c ≠ 34 ∧ c ≠ 39 ∧ c ≠ 46 ∧ isSpace c = false := by
  simp [isIdentStart, isLetter, isUpper, isLower, isDigit, isSpace] at starts ⊢
  omega

theorem isDigit_head {c : Nat} (digit : isDigit c) : c ≠ 34 ∧ c ≠ 39 ∧ c ≠ 46 ∧ isSpace c = false := by
  simp [isDigit, isSpace] at digit ⊢
  omega

/-- What the first character of a lexeme says of it. -/
theorem Lexeme.kinds {c : Nat} {t : JSString} {tok : Tok} (lexeme : Lexeme (c :: t) tok) :
    (isDigit c ∨ c = 46 ∧ t ≠ [] ∧ t.all isDigit) ∧ NumberText (c :: t) ∧ tok = .num (c :: t) ∨
    (c = 34 ∨ c = 39) ∧ (∃ body content, StringBody c body content ∧ t = body ++ [c] ∧ tok = .str (c :: t) content) ∨
    isIdentStart c ∧ t.all isIdentPart ∧ tok = .name (c :: t) ∨
    ∃ p, (c :: t, p) ∈ punctuators ∧ tok = .punct p := by
  generalize whole : c :: t = s at lexeme
  cases lexeme with
  | num number =>
    subst whole
    obtain ⟨c', t', same, kind⟩ := number.head
    cases same
    exact Or.inl ⟨kind, number, rfl⟩
  | str quotes body =>
    cases whole
    exact Or.inr (Or.inl ⟨quotes, _, _, body, rfl, rfl⟩)
  | name starts all =>
    cases whole
    exact Or.inr (Or.inr (Or.inl ⟨starts, all, rfl⟩))
  | punct member =>
    subst whole
    exact Or.inr (Or.inr (Or.inr ⟨_, member, rfl⟩))

theorem Lexeme.ne_nil {text : JSString} {tok : Tok} (lexeme : Lexeme text tok) : text ≠ [] := by
  cases lexeme with
  | num number =>
    obtain ⟨c, t, rfl, -⟩ := number.head
    exact List.cons_ne_nil _ _
  | str _ _ => exact List.cons_ne_nil _ _
  | name _ _ => exact List.cons_ne_nil _ _
  | punct member =>
    rintro rfl
    rcases punctuators_length member with ⟨length, -⟩ | ⟨length, -⟩ | ⟨length, -⟩ <;> cases length

theorem isSpace_of_isExprSpace {c : Nat} (space : isExprSpace c) : isSpace c := by
  simp [isExprSpace, isSpace] at space ⊢
  omega

theorem Lexeme.not_blank {c : Nat} {t : JSString} {tok : Tok} (lexeme : Lexeme (c :: t) tok) :
    isSpace c = false := by
  rcases lexeme.kinds with ⟨digit | ⟨rfl, -⟩, -⟩ | ⟨rfl | rfl, -⟩ | ⟨starts, -⟩ | ⟨p, member, -⟩
  · exact (isDigit_head digit).2.2.2
  · rfl
  · rfl
  · rfl
  · exact (isIdentStart_digit starts).2.2.2.2
  · exact (punctuators_head member).1.2.2.2.2

theorem Lexeme.not_space {c : Nat} {t : JSString} {tok : Tok} (lexeme : Lexeme (c :: t) tok) :
    ¬isExprSpace c := by
  intro space
  have blank := isSpace_of_isExprSpace space
  rw [lexeme.not_blank] at blank
  cases blank

theorem Lexeme.of_digit {c : Nat} {t : JSString} {tok : Tok} (digit : isDigit c) (lexeme : Lexeme (c :: t) tok) :
    NumberText (c :: t) ∧ tok = .num (c :: t) := by
  rcases lexeme.kinds with ⟨-, number, is⟩ | ⟨rfl | rfl, -⟩ | ⟨starts, -⟩ | ⟨p, member, -⟩
  · exact ⟨number, is⟩
  · cases digit
  · cases digit
  · rw [(isIdentStart_digit starts).1] at digit
    cases digit
  · rw [(punctuators_head member).1.1] at digit
    cases digit

theorem Lexeme.of_quote {c : Nat} {t : JSString} {tok : Tok} (quotes : c = 34 ∨ c = 39)
    (lexeme : Lexeme (c :: t) tok) :
    ∃ body content, StringBody c body content ∧ t = body ++ [c] ∧ tok = .str (c :: t) content := by
  rcases lexeme.kinds with ⟨digit | ⟨rfl, -⟩, -⟩ | ⟨-, found⟩ | ⟨starts, -⟩ | ⟨p, member, -⟩
  · rcases quotes with rfl | rfl <;> cases digit
  · rcases quotes with same | same <;> cases same
  · exact found
  · rcases quotes with rfl | rfl <;> cases starts
  · rcases quotes with rfl | rfl
    · exact absurd rfl (punctuators_head member).1.2.2.1
    · exact absurd rfl (punctuators_head member).1.2.2.2.1

theorem Lexeme.of_ident {c : Nat} {t : JSString} {tok : Tok} (starts : isIdentStart c)
    (lexeme : Lexeme (c :: t) tok) : t.all isIdentPart ∧ tok = .name (c :: t) := by
  obtain ⟨notDigit, notDouble, notSingle, notPoint, -⟩ := isIdentStart_digit starts
  rcases lexeme.kinds with ⟨digit | ⟨point, -⟩, -⟩ | ⟨quotes, -⟩ | ⟨-, all, is⟩ | ⟨p, member, -⟩
  · rw [notDigit] at digit
    cases digit
  · exact absurd point notPoint
  · exact absurd quotes (not_or.mpr ⟨notDouble, notSingle⟩)
  · exact ⟨all, is⟩
  · rw [(punctuators_head member).1.2.1] at starts
    cases starts

theorem Lexeme.of_other {c : Nat} {t : JSString} {tok : Tok} (notDigit : ¬isDigit c) (notQuote : ¬(c = 34 ∨ c = 39))
    (notIdent : ¬isIdentStart c) (lexeme : Lexeme (c :: t) tok) :
    (c = 46 ∧ t ≠ [] ∧ t.all isDigit ∧ tok = .num (c :: t)) ∨ ∃ p, (c :: t, p) ∈ punctuators ∧ tok = .punct p := by
  rcases lexeme.kinds with ⟨digit | ⟨point, some, all⟩, -, is⟩ | ⟨quotes, -⟩ | ⟨starts, -⟩ | found
  · exact absurd digit notDigit
  · exact Or.inl ⟨point, some, all, is⟩
  · exact absurd quotes notQuote
  · exact absurd starts notIdent
  · exact Or.inr found

theorem StringBody.functional {quote : Nat} {body content other : JSString} (quotes : quote = 34 ∨ quote = 39)
    (first : StringBody quote body content) (second : StringBody quote body other) : content = other := by
  have same := scanString_of_body quotes first 0 0 []
  rw [scanString_of_body quotes second] at same
  cases same
  rfl

theorem Lexeme.functional {text : JSString} {tok other : Tok} (first : Lexeme text tok)
    (second : Lexeme text other) : tok = other := by
  obtain ⟨c, t, rfl⟩ := List.exists_cons_of_ne_nil first.ne_nil
  by_cases digit : isDigit c
  · rw [(first.of_digit digit).2, (second.of_digit digit).2]
  by_cases quotes : c = 34 ∨ c = 39
  · obtain ⟨body, content, text, rfl, rfl⟩ := first.of_quote quotes
    obtain ⟨body', content', text', same, rfl⟩ := second.of_quote quotes
    obtain rfl := List.append_cancel_right same
    rw [text.functional quotes text']
  by_cases starts : isIdentStart c
  · rw [(first.of_ident starts).2, (second.of_ident starts).2]
  rcases first.of_other digit quotes starts with ⟨rfl, some, -, rfl⟩ | ⟨p, member, rfl⟩
  · rcases second.of_other digit quotes starts with ⟨-, -, -, rfl⟩ | ⟨q, member, -⟩
    · rfl
    · exact absurd ((punctuators_head member).2 rfl) some
  · rcases second.of_other digit quotes starts with ⟨rfl, some, -⟩ | ⟨q, other, rfl⟩
    · exact absurd ((punctuators_head member).2 rfl) some
    · rw [punctuators_functional member other]

/-- A text is the longest at its place when neither an absent operator nor a lexeme with the same first
character is longer. -/
theorem Longest.intro {text rest : JSString} {c : Nat} {t : JSString} (whole : text ++ rest = c :: t)
    (absent : ∀ u, c :: u <+: c :: t → text.length < u.length + 1 → c :: u ∉ absentOperators)
    (lexeme : ∀ u tok, c :: u <+: c :: t → Lexeme (c :: u) tok → u.length + 1 ≤ text.length) :
    Longest text rest := by
  intro longer inside more
  rw [whole] at inside
  cases longer with
  | nil => exact absurd more (Nat.not_lt_zero _)
  | cons d u =>
    obtain ⟨rfl, -⟩ := List.cons_prefix_cons.mp inside
    exact ⟨absent u inside more, fun tok found => Nat.not_lt.mpr (lexeme u tok inside found) more⟩

theorem scanNumber_lexeme {c : Nat} {s : JSString} (digit : isDigit c) :
    Lexeme (scanNumber (c :: s)).1 (.num (scanNumber (c :: s)).1) ∧
      Longest (scanNumber (c :: s)).1 (scanNumber (c :: s)).2 := by
  refine ⟨.num (scanNumber_text digit), .intro (scanNumber_split _) ?_ ?_⟩
  · intro u _ _ member
    rw [(absentOperators_head member).1] at digit
    cases digit
  · rintro u tok ⟨after, whole⟩ lexeme
    have longest := scanNumber_longest (lexeme.of_digit digit).1 after
    rwa [whole] at longest

theorem scanPointNumber_lexeme {s : JSString} (some : s.takeWhile isDigit ≠ []) :
    Lexeme (scanPointNumber s).1 (.num (scanPointNumber s).1) ∧
      Longest (scanPointNumber s).1 (scanPointNumber s).2 := by
  have all := all_takeWhile isDigit s
  have split : (scanPointNumber s).1 ++ (scanPointNumber s).2 = 46 :: s := by
    simp [scanPointNumber, List.takeWhile_append_dropWhile]
  have text : NumberText ([] ++ 46 :: s.takeWhile isDigit) := .fraction rfl some all
  refine ⟨.num text, .intro split ?_ ?_⟩
  · intro u _ _ member
    exact absurd rfl (absentOperators_head member).2.2.2.2.1
  · rintro u tok ⟨after, whole⟩ lexeme
    rcases lexeme.of_other (by decide) (by decide) (by decide) with ⟨-, -, digits, -⟩ | ⟨p, member, -⟩
    · rw [List.cons_append, List.cons_inj_right] at whole
      simp only [scanPointNumber, ← whole, takeWhile_all digits, List.length_cons, List.length_append]
      omega
    · rw [(punctuators_head member).2 rfl]
      simp [scanPointNumber]

theorem scanString_lexeme {i c : Nat} {s content raw rest : JSString} (quotes : c = 34 ∨ c = 39)
    (run : scanString i c (i + 1) s = .ok (content, raw, rest)) :
    c :: s = (c :: raw) ++ rest ∧ Lexeme (c :: raw) (.str (c :: raw) content) ∧ Longest (c :: raw) rest := by
  obtain ⟨body, text, rfl, rfl⟩ := scanString_body run
  refine ⟨by simp, .str quotes text, .intro (c := c) (t := body ++ c :: rest) (by simp) ?_ ?_⟩
  · intro u _ _ member
    obtain ⟨-, -, notDouble, notSingle, -⟩ := absentOperators_head member
    exact absurd quotes (not_or.mpr ⟨notDouble, notSingle⟩)
  · rintro u tok ⟨after, whole⟩ lexeme
    obtain ⟨body', content', text', rfl, -⟩ := lexeme.of_quote quotes
    rw [List.cons_append, List.cons_inj_right, List.append_assoc, List.singleton_append] at whole
    have same := scanString_of_body quotes text' i (i + 1) after
    rw [whole, run] at same
    simp only [Except.ok.injEq, Prod.mk.injEq] at same
    rw [same.2.1, List.length_cons]

theorem scanName_lexeme {c : Nat} {s : JSString} (starts : isIdentStart c) :
    Lexeme ((c :: s).takeWhile isIdentPart) (.name ((c :: s).takeWhile isIdentPart)) ∧
      Longest ((c :: s).takeWhile isIdentPart) ((c :: s).dropWhile isIdentPart) := by
  have part : isIdentPart c := by
    simp only [isIdentStart, isIdentPart, Bool.or_eq_true] at starts ⊢
    tauto
  have run : (c :: s).takeWhile isIdentPart = c :: s.takeWhile isIdentPart := List.takeWhile_cons_of_pos part
  refine ⟨?_, .intro List.takeWhile_append_dropWhile ?_ ?_⟩
  · rw [run]
    exact .name starts (all_takeWhile ..)
  · intro u _ _ member
    rw [(absentOperators_head member).2.1] at starts
    cases starts
  · rintro u tok ⟨after, whole⟩ lexeme
    rw [run]
    rw [List.cons_append, List.cons_inj_right] at whole
    rw [← whole, takeWhile_all (lexeme.of_ident starts).1]
    simp

theorem take_of_prefix {text s : JSString} {n : Nat} (inside : text <+: s) (length : text.length = n) :
    s.take n = text := by
  obtain ⟨rest, rfl⟩ := inside
  rw [← length, List.take_left]

theorem lookup_of_mem {table : List (JSString × Punct)} {text : JSString} {p : Punct} (member : (text, p) ∈ table) :
    table.lookup text ≠ none := by
  rw [Ne, List.lookup_eq_none_iff]
  intro absent
  exact absurd (absent _ member) (by simp)

theorem scanPunct_cases {s : JSString} {p : Punct} {k : Nat} (run : scanPunct s = some (p, k)) :
    (s.take k, p) ∈ punctuators ∧ (s.take k).length = k ∧ (k < 3 → punct3.lookup (s.take 3) = none) ∧
      (k < 2 → punct2.lookup (s.take 2) = none ∧ s.take 2 ∉ absentOperators) := by
  unfold scanPunct at run
  split at run
  · rename_i found
    cases run
    have row := mem_of_lookup found
    have length : ∀ entry ∈ punct3, entry.1.length = 3 := by decide
    exact ⟨List.mem_append_left _ (List.mem_append_left _ row), length _ row, by omega, by omega⟩
  · rename_i none3
    split at run
    · rename_i found
      cases run
      have row := mem_of_lookup found
      have length : ∀ entry ∈ punct2, entry.1.length = 2 := by decide
      exact ⟨List.mem_append_left _ (List.mem_append_right _ row), length _ row, fun _ => none3, by omega⟩
    · rename_i none2
      split at run
      · cases run
      · rename_i absent
        obtain ⟨r, found, equal⟩ := Option.map_eq_some_iff.mp run
        cases equal
        have row := mem_of_lookup found
        have length : ∀ entry ∈ punct1, entry.1.length = 1 := by decide
        exact ⟨List.mem_append_right _ row, length _ row, fun _ => none3, fun _ => ⟨none2, absent⟩⟩

theorem scanPunct_lexeme {c : Nat} {s : JSString} {p : Punct} {k : Nat} (notDigit : ¬isDigit c)
    (notPoint : ¬(c = 46 ∧ s.takeWhile isDigit ≠ [])) (notQuote : ¬(c = 34 ∨ c = 39)) (notIdent : ¬isIdentStart c)
    (run : scanPunct (c :: s) = some (p, k)) :
    Lexeme ((c :: s).take k) (.punct p) ∧ Longest ((c :: s).take k) ((c :: s).drop k) := by
  obtain ⟨member, length, no3, no2⟩ := scanPunct_cases run
  refine ⟨.punct member, .intro (List.take_append_drop ..) ?_ ?_⟩
  · intro u inside more absent
    have two := (absentOperators_head absent).2.2.2.2.2
    rw [length] at more
    rw [← take_of_prefix inside (n := 2) (by simp [two])] at absent
    exact (no2 (by omega)).2 absent
  · intro u tok inside lexeme
    rw [length]
    rcases lexeme.of_other notDigit notQuote notIdent with ⟨point, some, digits, -⟩ | ⟨q, row, -⟩
    · obtain ⟨after, whole⟩ := (List.cons_prefix_cons.mp inside).2
      refine absurd ⟨point, ?_⟩ notPoint
      rw [← whole, takeWhile_all digits]
      simp [some]
    · have longer : (c :: u).length = u.length + 1 := rfl
      rcases punctuators_length row with ⟨same, row⟩ | ⟨same, row⟩ | ⟨same, row⟩
      · by_contra shorter
        have found := lookup_of_mem row
        rw [← take_of_prefix inside same] at found
        exact found (no3 (by omega))
      · by_contra shorter
        have found := lookup_of_mem row
        rw [← take_of_prefix inside same] at found
        exact found (no2 (by omega)).1
      · by_contra shorter
        obtain rfl : k = 0 := by omega
        rcases punctuators_length member with ⟨same, -⟩ | ⟨same, -⟩ | ⟨same, -⟩ <;> cases same

/-- A scanned token is the longest lexeme at its place. -/
theorem scanToken_lexeme {i c : Nat} {s rest : JSString} {tok : Tok} (run : scanToken i (c :: s) = .ok (tok, rest)) :
    ∃ text, c :: s = text ++ rest ∧ Lexeme text tok ∧ Longest text rest := by
  simp only [scanToken] at run
  split at run
  · rename_i digit
    cases run
    exact ⟨_, (scanNumber_split _).symm, scanNumber_lexeme digit⟩
  split at run
  · rename_i point
    obtain ⟨rfl, some⟩ := point
    cases run
    exact ⟨_, by simp [scanPointNumber, List.takeWhile_append_dropWhile], scanPointNumber_lexeme some⟩
  split at run
  · rename_i quotes
    obtain ⟨⟨content, raw, after⟩, found, equal⟩ := ok_of_map run
    cases equal
    exact ⟨_, scanString_lexeme quotes found⟩
  split at run
  · rename_i starts
    cases run
    exact ⟨_, List.takeWhile_append_dropWhile.symm, scanName_lexeme starts⟩
  split at run
  · rename_i notDigit notPoint notQuote notIdent _ p k found
    cases run
    exact ⟨_, (List.take_append_drop ..).symm, scanPunct_lexeme notDigit notPoint notQuote notIdent found⟩
  · cases run

/-- Where the scanner fails, no lexeme is the longest. -/
theorem scanToken_error {i d : Nat} {t rest : JSString} {tok : Tok} {e : ExpressionError}
    (run : scanToken i (d :: (t ++ rest)) = .error e) (lexeme : Lexeme (d :: t) tok) :
    ¬Longest (d :: t) rest := by
  intro longest
  have inside : d :: t <+: d :: (t ++ rest) := ⟨rest, rfl⟩
  simp only [scanToken] at run
  split at run
  · cases run
  split at run
  · cases run
  split at run
  · rename_i quotes
    obtain ⟨body, content, text, rfl, -⟩ := lexeme.of_quote quotes
    rw [List.append_assoc, List.singleton_append, scanString_of_body quotes text] at run
    cases run
  split at run
  · cases run
  split at run
  · cases run
  rename_i notDigit notPoint notQuote notIdent _ missed
  rcases lexeme.of_other notDigit notQuote notIdent with ⟨point, some, digits, -⟩ | ⟨p, member, -⟩
  · refine notPoint ⟨point, ?_⟩
    rw [takeWhile_all digits]
    simp [some]
  · unfold scanPunct at missed
    split at missed
    · cases missed
    split at missed
    · cases missed
    rename_i no3 _ no2
    rcases punctuators_length member with ⟨same, row⟩ | ⟨same, row⟩ | ⟨same, row⟩
    · have found := lookup_of_mem row
      rw [← take_of_prefix inside same] at found
      exact found no3
    · have found := lookup_of_mem row
      rw [← take_of_prefix inside same] at found
      exact found no2
    · split at missed
      · rename_i absent
        have two := (absentOperators_head (c := d) (t := ((d :: (t ++ rest)).take 2).tail) (by simpa using absent)).2.2.2.2.2
        refine (longest _ (List.take_prefix 2 (d :: (t ++ rest))) ?_).1 absent
        rw [same]
        simp only [List.take_succ_cons, List.tail_cons] at two
        simp only [List.take_succ_cons, List.length_cons, two]
        omega
      · have found := lookup_of_mem row
        rw [← take_of_prefix inside same] at found
        exact found (Option.map_eq_none_iff.mp missed)

theorem Longest.unique {text other rest after : JSString} {tok tok' : Tok} (first : Lexeme text tok)
    (second : Lexeme other tok') (longest : Longest text rest) (longest' : Longest other after)
    (whole : text ++ rest = other ++ after) : text = other ∧ rest = after ∧ tok = tok' := by
  have notShorter : ¬text.length < other.length := fun shorter =>
    (longest other ⟨after, whole.symm⟩ shorter).2 _ second
  have notLonger : ¬other.length < text.length := fun shorter =>
    (longest' text ⟨rest, whole⟩ shorter).2 _ first
  obtain ⟨rfl, rfl⟩ := List.append_inj whole (by omega)
  exact ⟨rfl, rfl, first.functional second⟩

/-- The scanner finds the longest lexeme. -/
theorem scanToken_of_lexeme {text rest : JSString} {tok : Tok} (lexeme : Lexeme text tok)
    (longest : Longest text rest) (i : Nat) : scanToken i (text ++ rest) = .ok (tok, rest) := by
  obtain ⟨c, t, rfl⟩ := List.exists_cons_of_ne_nil lexeme.ne_nil
  cases run : scanToken i (c :: t ++ rest) with
  | error e => exact absurd longest (scanToken_error run lexeme)
  | ok result =>
    obtain ⟨tok', after⟩ := result
    obtain ⟨other, whole, lexeme', longest'⟩ := scanToken_lexeme run
    obtain ⟨-, rfl, rfl⟩ := Longest.unique lexeme lexeme' longest longest' whole
    rfl

theorem exprTokensFrom_lexes {n i : Nat} {s : JSString} {tokens : List ExprToken} (enough : s.length ≤ n)
    (run : exprTokensFrom n i s = .ok tokens) :
    ∃ toks, Lexes s toks ∧ tokens.map ExprToken.tok = toks ++ [.eof] := by
  induction n generalizing i s tokens with
  | zero =>
    obtain rfl := List.eq_nil_of_length_eq_zero (Nat.le_zero.mp enough)
    cases run
    exact ⟨[], .nil, rfl⟩
  | succ n ih =>
    cases s with
    | nil =>
      cases run
      exact ⟨[], .nil, rfl⟩
    | cons c s =>
      rw [List.length_cons] at enough
      simp only [exprTokensFrom] at run
      split at run
      · rename_i space
        obtain ⟨toks, lexes, same⟩ := ih (by omega) run
        exact ⟨toks, .space space lexes, same⟩
      · split at run
        · cases run
        · rename_i tok rest scanned
          obtain ⟨others, later, rfl⟩ := ok_of_map run
          obtain ⟨text, whole, lexeme, longest⟩ := scanToken_lexeme scanned
          have shorter : rest.length ≤ n := by
            have length := congrArg List.length whole
            have some := List.length_pos_iff.mpr lexeme.ne_nil
            rw [List.length_cons, List.length_append] at length
            omega
          obtain ⟨toks, lexes, same⟩ := ih shorter later
          rw [whole]
          exact ⟨tok :: toks, .token lexeme longest lexes, by simp [same]⟩

theorem Lexes.exprTokensFrom {n i : Nat} {s : JSString} {toks : List Tok} (lexes : Lexes s toks) (enough : s.length ≤ n) :
    ∃ tokens, exprTokensFrom n i s = .ok tokens ∧ tokens.map ExprToken.tok = toks ++ [.eof] := by
  induction lexes generalizing n i with
  | nil => cases n <;> exact ⟨_, rfl, rfl⟩
  | @space c s toks space _ ih =>
    rw [List.length_cons] at enough
    obtain ⟨n, rfl⟩ : ∃ k, n = k + 1 := ⟨n - 1, by omega⟩
    obtain ⟨tokens, run, same⟩ := ih (n := n) (i := i + 1) (by omega)
    exact ⟨tokens, by simp only [Xript.exprTokensFrom, if_pos space, run], same⟩
  | @token text rest tok toks lexeme longest _ ih =>
    obtain ⟨c, t, rfl⟩ := List.exists_cons_of_ne_nil lexeme.ne_nil
    rw [List.length_append, List.length_cons] at enough
    obtain ⟨n, rfl⟩ : ∃ k, n = k + 1 := ⟨n - 1, by omega⟩
    have scanned := scanToken_of_lexeme lexeme longest i
    rw [List.cons_append] at scanned ⊢
    obtain ⟨tokens, run, same⟩ := ih (n := n) (i := i + ((c :: (t ++ rest)).length - rest.length)) (by omega)
    refine ⟨⟨tok, i⟩ :: tokens, ?_, by simp [same]⟩
    simp only [Xript.exprTokensFrom, if_neg lexeme.not_space, scanned, run]
    rfl

/-- The lexer gives a text the token sequence that the lexical grammar gives it, with an end marker. -/
theorem exprTokens_iff {source : JSString} {toks : List Tok} :
    (∃ tokens, exprTokens source = .ok tokens ∧ tokens.map ExprToken.tok = toks ++ [.eof]) ↔ Lexes source toks := by
  constructor
  · rintro ⟨tokens, run, same⟩
    obtain ⟨others, lexes, equal⟩ := exprTokensFrom_lexes (Nat.le_refl _) run
    rw [same] at equal
    rwa [List.append_cancel_right equal]
  · intro lexes
    exact lexes.exprTokensFrom (Nat.le_refl _)

end Xript
