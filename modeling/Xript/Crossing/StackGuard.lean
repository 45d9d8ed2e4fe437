import Xript.Crossing.FastPass
import Xript.Json.Parse
import Xript.Text.Brackets

namespace Xript

namespace StackGuard

/-- What a code unit is to the nesting of a JSON text. -/
def bracketOf (u : Nat) : Bracket Bool :=
  if u = 91 then .opening false
  else if u = 123 then .opening true
  else if u = 93 then .closing false
  else if u = 125 then .closing true
  else .plain

/-- What follows the quote that closes a string literal, read behind its opening quote. -/
def closeLiteral : JSString → Option JSString
  | [] => none
  | 34 :: s => some s
  | 92 :: _ :: s => closeLiteral s
  | u :: s => if u = 92 then none else closeLiteral s

theorem closeLiteral_length {s rest : JSString} (closed : closeLiteral s = some rest) : rest.length < s.length := by
  induction s using closeLiteral.induct with
  | case1 => cases closed
  | case2 s =>
    cases closed
    exact Nat.lt_succ_self _
  | case3 u s ih =>
    have shorter := ih closed
    rw [List.length_cons, List.length_cons]
    omega
  | case4 s => simp [closeLiteral] at closed
  | case5 u s notQuote notPair notSlash ih =>
    have shorter := ih (by rw [closeLiteral, if_neg notSlash] at closed; exact closed; all_goals assumption)
    rw [List.length_cons]
    omega

/-- A text with `NOT_STRUCTURE` erased: its brackets outside string literals, and the quotes that open none. -/
def structureOf : JSString → JSString
  | [] => []
  | u :: s =>
    if u = 34 then
      match _closed : closeLiteral s with
      | some rest => structureOf rest
      | none => u :: structureOf s
    else if u = 91 ∨ u = 93 ∨ u = 123 ∨ u = 125 then u :: structureOf s
    else structureOf s
termination_by text => text.length
decreasing_by
  · have shorter := closeLiteral_length _closed
    rw [List.length_cons]
    omega
  all_goals exact Nat.lt_succ_self _

/-- A text with `INNERMOST_PAIRS` erased. -/
def erasePairs (brackets : JSString) : JSString := Brackets.dropPairs bracketOf brackets

/-- The passes over the brackets, as many as are left at most: the brackets and the depth still allowed. -/
def peel : Nat → JSString → Nat → JSString × Nat
  | 0, brackets, allowed => (brackets, allowed)
  | passes + 1, brackets, allowed =>
    if brackets.length > allowed then
      let inner := erasePairs brackets
      if inner.length = brackets.length then (brackets, allowed) else peel passes inner (allowed - 1)
    else (brackets, allowed)

/-- The walk, bracket by bracket. -/
def exceeds (allowed : Nat) : Nat → JSString → Bool
  | _, [] => false
  | depth, code :: s =>
    if code = 91 ∨ code = 123 then
      if depth + 1 > allowed then true else exceeds allowed (depth + 1) s
    else if (code = 93 ∨ code = 125) ∧ depth > 0 then exceeds allowed (depth - 1) s
    else exceeds allowed depth s

def nativePasses : Nat := 8

/-- Whether a text may nest deeper than `JSON.parse` is trusted with. -/
def nestsTooDeep (text : JSString) : Bool :=
  if text.length ≤ nativeStringifyDepth then false
  else
    let peeled := peel nativePasses (structureOf text) nativeStringifyDepth
    if peeled.1.length ≤ peeled.2 then false else exceeds peeled.2 0 peeled.1

mutual

/-- `parseValue` counting: the most containers it has open at once, and what follows the value it has read. -/
def nestValue : Nat → JSString → Nat × Option JSString
  | 0, _ => (0, none)
  | fuel + 1, s =>
    match skipJsonSpace s with
    | 34 :: t => (0, (parseStringBody t).map Prod.snd)
    | 91 :: t =>
      match skipJsonSpace t with
      | 93 :: rest => (1, some rest)
      | _ => ((nestItems fuel t).1 + 1, (nestItems fuel t).2)
    | 123 :: t =>
      match skipJsonSpace t with
      | 125 :: rest => (1, some rest)
      | _ => ((nestMembers fuel t).1 + 1, (nestMembers fuel t).2)
    | t => (0, ((parseWord t).orElse fun _ => parseNumber t).map Prod.snd)

def nestItems : Nat → JSString → Nat × Option JSString
  | 0, _ => (0, none)
  | fuel + 1, s =>
    match nestValue fuel s with
    | (open_, none) => (open_, none)
    | (open_, some after) =>
      match skipJsonSpace after with
      | 93 :: rest => (open_, some rest)
      | 44 :: rest => (max open_ (nestItems fuel rest).1, (nestItems fuel rest).2)
      | _ => (open_, none)

def nestMembers : Nat → JSString → Nat × Option JSString
  | 0, _ => (0, none)
  | fuel + 1, s =>
    match skipJsonSpace s with
    | 34 :: t =>
      match parseStringBody t with
      | none => (0, none)
      | some key =>
        match skipJsonSpace key.2 with
        | 58 :: u =>
          match nestValue fuel u with
          | (open_, none) => (open_, none)
          | (open_, some after) =>
            match skipJsonSpace after with
            | 125 :: rest => (open_, some rest)
            | 44 :: rest => (max open_ (nestMembers fuel rest).1, (nestMembers fuel rest).2)
            | _ => (open_, none)
        | _ => (0, none)
    | _ => (0, none)

end

/-- The most containers a parser has open at once that reads a text from the left, before it is through, meets the first
syntax error or has taken the steps it is given. -/
def containersOpen (steps : Nat) (text : JSString) : Nat := (nestValue steps text).1

theorem nest_parse (fuel : Nat) :
    (∀ s, (nestValue fuel s).2 = (parseValue fuel s).map Prod.snd) ∧
      (∀ s, (nestItems fuel s).2 = (parseItems fuel s).map Prod.snd) ∧
        ∀ members s, (nestMembers fuel s).2 = (parseMembers fuel members s).map Prod.snd := by
  induction fuel with
  | zero => exact ⟨fun _ => rfl, fun _ => rfl, fun _ _ => rfl⟩
  | succ fuel ih =>
    obtain ⟨value, items, members⟩ := ih
    -- The counting reader is split first and the plain one unfolded in each of its cases.
    refine ⟨fun s => ?_, fun s => ?_, fun defined s => ?_⟩
    · rw [nestValue]
      split
      next t read =>
        rw [parseValue, read]
        simp only [Option.map_map]
        rfl
      next t read =>
        split
        next rest more =>
          rw [parseValue, read]
          simp only [more]
          rfl
        next notClosed =>
          rw [parseValue, read]
          simp only [items, Option.map_map]
          rfl
      next t read =>
        split
        next rest more =>
          rw [parseValue, read]
          simp only [more]
          rfl
        next notClosed =>
          rw [parseValue, read]
          simp only [members [], Option.map_map]
          rfl
      next notQuote notSquare notCurly =>
        rw [parseValue]
        split
        next t read => exact absurd read (notQuote t)
        next t read => exact absurd read (notSquare t)
        next t read => exact absurd read (notCurly t)
        next => rfl
    · rw [nestItems]
      have first := value s
      cases read : parseValue fuel s with
      | none =>
        rw [parseItems, read]
        rw [read] at first
        split
        next => rfl
        next after met =>
          rw [met] at first
          cases first
      | some parsed =>
        rw [read] at first
        split
        next met =>
          rw [met] at first
          cases first
        next after met =>
          rw [met] at first
          cases first
          split
          next rest more =>
            rw [parseItems, read, Option.bind_some]
            simp only [more]
            rfl
          next rest more =>
            rw [parseItems, read, Option.bind_some]
            simp only [more, items, Option.map_map]
            rfl
          next notClosed notComma =>
            rw [parseItems, read, Option.bind_some]
            split
            next rest more => exact absurd more (notClosed rest)
            next rest more => exact absurd more (notComma rest)
            next => rfl
    · rw [nestMembers]
      split
      next t quote =>
        cases body : parseStringBody t with
        | none =>
          rw [parseMembers, quote]
          simp only [body]
          rfl
        | some key =>
          simp only
          split
          next u colon =>
            have first := value u
            cases read : parseValue fuel u with
            | none =>
              rw [parseMembers, quote]
              simp only [body, Option.bind_some, colon]
              rw [read] at first ⊢
              split
              next => rfl
              next after met =>
                rw [met] at first
                cases first
            | some parsed =>
              rw [read] at first
              split
              next met =>
                rw [met] at first
                cases first
              next after met =>
                rw [met] at first
                cases first
                split
                next rest more =>
                  rw [parseMembers, quote]
                  simp only [body, Option.bind_some, colon, read, more]
                  rfl
                next rest more =>
                  rw [parseMembers, quote]
                  simp only [body, Option.bind_some, colon, read, more]
                  exact members _ rest
                next notClosed notComma =>
                  rw [parseMembers, quote]
                  simp only [body, Option.bind_some, colon, read]
                  rfl
          next notColon =>
            rw [parseMembers, quote]
            simp only [body, Option.bind_some]
            rfl
      next notQuote =>
        rw [parseMembers]
        split
        next t read => exact absurd read (notQuote t)
        next => rfl

theorem structureOf_closed {s rest : JSString} (closed : closeLiteral s = some rest) :
    structureOf (34 :: s) = structureOf rest := by
  rw [structureOf, if_pos rfl]
  split
  next other met =>
    rw [closed] at met
    cases met
    rfl
  next met =>
    rw [closed] at met
    cases met

theorem structureOf_bracket {u : Nat} (bracket : u = 91 ∨ u = 93 ∨ u = 123 ∨ u = 125) (s : JSString) :
    structureOf (u :: s) = u :: structureOf s := by
  rw [structureOf, if_neg (by omega), if_pos bracket]

/-- A code unit that is neither a bracket nor a quote. -/
def Loose (u : Nat) : Prop := u ≠ 34 ∧ u ≠ 91 ∧ u ≠ 93 ∧ u ≠ 123 ∧ u ≠ 125

instance (u : Nat) : Decidable (Loose u) := inferInstanceAs (Decidable (u ≠ 34 ∧ u ≠ 91 ∧ u ≠ 93 ∧ u ≠ 123 ∧ u ≠ 125))

theorem structureOf_loose {p : JSString} (loose : ∀ u ∈ p, Loose u) (s : JSString) :
    structureOf (p ++ s) = structureOf s := by
  induction p with
  | nil => rfl
  | cons u p ih =>
    obtain ⟨quote, bracket⟩ := loose u List.mem_cons_self
    rw [List.cons_append, structureOf, if_neg quote, if_neg (by omega)]
    exact ih fun v member => loose v (List.mem_cons_of_mem _ member)

theorem structureOf_comma (s : JSString) : structureOf (44 :: s) = structureOf s :=
  @structureOf_loose [44] (by simp [Loose]) s

theorem structureOf_colon (s : JSString) : structureOf (58 :: s) = structureOf s :=
  @structureOf_loose [58] (by simp [Loose]) s

theorem structureOf_takeWhile {p : Nat → Bool} (loose : ∀ u, p u = true → Loose u) (s : JSString) :
    structureOf (s.dropWhile p) = structureOf s := by
  conv_rhs => rw [← List.takeWhile_append_dropWhile (p := p) (l := s)]
  exact (structureOf_loose (fun u member => loose u (List.mem_takeWhile_imp member)) _).symm

theorem structureOf_space (s : JSString) : structureOf (skipJsonSpace s) = structureOf s :=
  structureOf_takeWhile (fun u space => by
    simp only [isJsonSpace, Bool.or_eq_true, decide_eq_true_eq] at space
    unfold Loose
    omega) s

theorem closeLiteral_plain {u : Nat} (notQuote : u ≠ 34) (notSlash : u ≠ 92) (s : JSString) :
    closeLiteral (u :: s) = closeLiteral s := by
  rw [closeLiteral, if_neg notSlash]
  · exact notQuote
  · intro _ _ slash
    exact absurd slash notSlash

theorem hexDigit_plain {u : Nat} (hex : isHexDigit u = true) : u ≠ 34 ∧ u ≠ 92 := by
  simp only [isHexDigit, isDigit, Bool.or_eq_true, Bool.and_eq_true, decide_eq_true_eq] at hex
  omega

/-- A string literal the parser reads is one the pattern takes whole. -/
theorem closeLiteral_parse {s : JSString} {units rest : JSString} (read : parseStringBody s = some (units, rest)) :
    closeLiteral s = some rest := by
  induction s using parseStringBody.induct generalizing units with
  | case1 => cases read
  | case2 s =>
    cases read
    rfl
  | case3 a b c d s hex ih =>
    rw [parseStringBody, if_pos hex, Option.map_eq_some_iff] at read
    obtain ⟨parsed, read, made⟩ := read
    cases made
    simp only [Bool.and_eq_true] at hex
    obtain ⟨⟨⟨first, second⟩, third⟩, fourth⟩ := hex
    have clear := fun (u : Nat) (digit : isHexDigit u = true) (s : JSString) =>
      closeLiteral_plain (hexDigit_plain digit).1 (hexDigit_plain digit).2 s
    rw [closeLiteral, clear a first, clear b second, clear c third, clear d fourth]
    exact ih read
  | case4 a b c d s notHex =>
    rw [parseStringBody, if_neg notHex] at read
    cases read
  | case5 u s notUnicode unit named ih =>
    simp only [parseStringBody, named] at read
    obtain ⟨parsed, inner, made⟩ := Option.map_eq_some_iff.mp read
    cases made
    exact ih inner
  | case6 u s notUnicode unnamed =>
    simp only [parseStringBody, unnamed] at read
    cases read
  | case7 u s notQuote notUnicode notEscape stray =>
    simp only [parseStringBody, stray, if_true] at read
    cases read
  | case8 u s notQuote notUnicode notEscape plain ih =>
    simp only [parseStringBody, plain, if_false] at read
    obtain ⟨parsed, inner, made⟩ := Option.map_eq_some_iff.mp read
    cases made
    rw [closeLiteral_plain notQuote fun slash => plain (Or.inr slash)]
    exact ih inner

theorem structureOf_word {s rest : JSString} {word : Json} (read : parseWord s = some (word, rest)) :
    structureOf s = structureOf rest := by
  have behind : ∀ p : JSString, (∀ u ∈ p, Loose u) → p <+: s → structureOf s = structureOf (s.drop p.length) := by
    intro p loose start
    obtain ⟨t, rfl⟩ := start
    rw [List.drop_left, structureOf_loose loose]
  rw [parseWord] at read
  split at read
  next start =>
    cases read
    exact behind (js "null") (by decide) (List.isPrefixOf_iff_prefix.mp start)
  · split at read
    next start =>
      cases read
      exact behind (js "true") (by decide) (List.isPrefixOf_iff_prefix.mp start)
    · split at read
      next start =>
        cases read
        exact behind (js "false") (by decide) (List.isPrefixOf_iff_prefix.mp start)
      · cases read

theorem structureOf_number {s rest : JSString} {number : Json} (read : parseNumber s = some (number, rest)) :
    structureOf s = structureOf rest := by
  rw [parseNumber] at read
  split at read
  · cases read
    refine (structureOf_takeWhile (fun u unit => ?_) s).symm
    simp only [isNumberUnit, isDigit, Bool.or_eq_true, Bool.and_eq_true, decide_eq_true_eq] at unit
    unfold Loose
    omega
  · cases read

/-- What reading says of the brackets of a text: those of what is read close each other, and where reading stops short the
brackets open by then are there. -/
structure Accounts (s : JSString) (tail : JSString → JSString) (seen : Nat × Option JSString) : Prop where
  read : ∀ rest, seen.2 = some rest →
    ∃ brackets, Brackets.Balanced bracketOf seen.1 brackets ∧ structureOf s = brackets ++ tail (structureOf rest)
  stopped : seen.2 = none → Brackets.Reaches bracketOf seen.1 (structureOf s)

theorem Accounts.flat {s : JSString} {result : Option JSString}
    (same : ∀ rest, result = some rest → structureOf s = structureOf rest) : Accounts s id (0, result) where
  read := fun rest read => ⟨[], .nil, same rest read⟩
  stopped := fun _ => .zero _

theorem Accounts.stop {s : JSString} {tail : JSString → JSString} : Accounts s tail (0, none) where
  read := fun _ read => by cases read
  stopped := fun _ => .zero _

/-- A container around entries: one bracket before them and its partner behind. -/
theorem Accounts.wrap {s t : JSString} {o c : Nat} {kind : Bool} {seen : Nat × Option JSString}
    (opens : bracketOf o = .opening kind) (closes : bracketOf c = .closing kind)
    (start : structureOf s = o :: structureOf t) (entries : Accounts t (c :: ·) seen) :
    Accounts s id (seen.1 + 1, seen.2) where
  read := fun rest read => by
    obtain ⟨brackets, balanced, same⟩ := entries.read rest read
    refine ⟨o :: (brackets ++ [c]), ?_, by rw [start, same]; simp⟩
    exact Nat.max_zero (seen.1 + 1) ▸ .cons opens closes balanced .nil
  stopped := fun stopped => start ▸ .opening opens .nil (entries.stopped stopped)

/-- A value and the entries behind it. -/
theorem Accounts.more {s t : JSString} {tail : JSString → JSString} {seen : Nat × Option JSString} {depth : Nat}
    {brackets : JSString} (balanced : Brackets.Balanced bracketOf depth brackets)
    (start : structureOf s = brackets ++ structureOf t) (entries : Accounts t tail seen) :
    Accounts s tail (max depth seen.1, seen.2) where
  read := fun rest read => by
    obtain ⟨inner, balanced', same⟩ := entries.read rest read
    exact ⟨brackets ++ inner, balanced.append balanced', by rw [start, same, List.append_assoc]⟩
  stopped := fun stopped => start ▸ (balanced.reaches _).both ((entries.stopped stopped).prepend balanced)

/-- The last value, where what follows it is the closing bracket or nothing a container goes on with. -/
theorem Accounts.last {s : JSString} {tail : JSString → JSString} {depth : Nat} {brackets t : JSString}
    {result : Option JSString} (balanced : Brackets.Balanced bracketOf depth brackets)
    (start : structureOf s = brackets ++ t) (ended : ∀ rest, result = some rest → t = tail (structureOf rest)) :
    Accounts s tail (depth, result) where
  read := fun rest read => ⟨brackets, balanced, by rw [start, ended rest read]⟩
  stopped := fun _ => start ▸ balanced.reaches _

theorem Accounts.of_same {s t : JSString} {tail : JSString → JSString} {seen : Nat × Option JSString}
    (same : structureOf s = structureOf t) (accounts : Accounts t tail seen) : Accounts s tail seen where
  read := fun rest read => same ▸ accounts.read rest read
  stopped := fun stopped => same ▸ accounts.stopped stopped

/-- One value of a container, then its end or a comma and the entries behind it. -/
theorem Accounts.entries {s : JSString} {close : Nat} (bracket : close = 91 ∨ close = 93 ∨ close = 123 ∨ close = 125)
    {first : Nat × Option JSString} (value : Accounts s id first) {after : JSString} (met : first.2 = some after) :
    (∀ rest, skipJsonSpace after = close :: rest → Accounts s (close :: ·) (first.1, some rest)) ∧
      (∀ rest, skipJsonSpace after = 44 :: rest → ∀ more, Accounts rest (close :: ·) more →
        Accounts s (close :: ·) (max first.1 more.1, more.2)) ∧ Accounts s (close :: ·) (first.1, none) := by
  obtain ⟨brackets, balanced, start⟩ := value.read after met
  refine ⟨fun rest ends => ?_, fun rest comma more entries => ?_, ?_⟩
  · refine .last balanced start fun rest' same => ?_
    cases same
    rw [id, ← structureOf_space, ends, structureOf_bracket bracket]
  · refine .more balanced ?_ entries
    rw [start, id, ← structureOf_space after, comma, structureOf_comma]
  · exact .last balanced start fun _ read => by cases read

theorem nest_accounts (fuel : Nat) :
    (∀ s, Accounts s id (nestValue fuel s)) ∧ (∀ s, Accounts s (93 :: ·) (nestItems fuel s)) ∧
      ∀ s, Accounts s (125 :: ·) (nestMembers fuel s) := by
  induction fuel with
  | zero => exact ⟨fun _ => .stop, fun _ => .stop, fun _ => .stop⟩
  | succ fuel ih =>
    obtain ⟨value, items, members⟩ := ih
    refine ⟨fun s => ?_, fun s => ?_, fun s => ?_⟩
    · rw [nestValue]
      refine .of_same (structureOf_space s).symm ?_
      split
      next t read =>
        rw [read]
        refine .flat fun rest after => ?_
        obtain ⟨parsed, literal, made⟩ := Option.map_eq_some_iff.mp after
        rw [structureOf_closed (closeLiteral_parse literal), made]
      next t read =>
        rw [read]
        have start := structureOf_bracket (Or.inl rfl) t
        split
        next rest ends =>
          refine @Accounts.wrap _ t 91 93 _ (0, some rest) rfl rfl start ?_
          refine .last .nil (List.nil_append _).symm fun rest' same => ?_
          cases same
          rw [← structureOf_space, ends, structureOf_bracket (by decide)]
        next => exact .wrap rfl rfl start (items t)
      next t read =>
        rw [read]
        have start := structureOf_bracket (Or.inr (Or.inr (Or.inl rfl))) t
        split
        next rest ends =>
          refine @Accounts.wrap _ t 123 125 _ (0, some rest) rfl rfl start ?_
          refine .last .nil (List.nil_append _).symm fun rest' same => ?_
          cases same
          rw [← structureOf_space, ends, structureOf_bracket (by decide)]
        next => exact .wrap rfl rfl start (members t)
      next =>
        refine .flat fun rest after => ?_
        obtain ⟨parsed, read, made⟩ := Option.map_eq_some_iff.mp after
        cases word : parseWord (skipJsonSpace s) with
        | some found =>
          rw [word] at read
          cases read
          rw [structureOf_word word, made]
        | none =>
          rw [word] at read
          rw [structureOf_number (show parseNumber (skipJsonSpace s) = some (parsed.1, parsed.2) from read), made]
    · rw [nestItems]
      have first := value s
      split
      next opened met =>
        rw [met] at first
        exact ⟨fun _ read => absurd read (Option.some_ne_none _).symm, first.stopped⟩
      next opened after met =>
        rw [met] at first
        obtain ⟨ends, more, stops⟩ := Accounts.entries (Or.inr (Or.inl rfl)) first rfl
        split
        next rest at_ => exact ends rest at_
        next rest at_ => exact more rest at_ _ (items rest)
        next => exact stops
    · rw [nestMembers]
      refine .of_same (structureOf_space s).symm ?_
      split
      next t read =>
        rw [read]
        split
        next => exact .stop
        next key literal =>
          split
          next u colon =>
            have start : structureOf (34 :: t) = structureOf u := by
              rw [structureOf_closed (closeLiteral_parse literal), ← structureOf_space, colon, structureOf_colon]
            refine .of_same start ?_
            have first := value u
            split
            next opened met =>
              rw [met] at first
              exact ⟨fun _ read => absurd read (Option.some_ne_none _).symm, first.stopped⟩
            next opened after met =>
              rw [met] at first
              obtain ⟨ends, more, stops⟩ := Accounts.entries (Or.inr (Or.inr (Or.inr rfl))) first rfl
              split
              next rest at_ => exact ends rest at_
              next rest at_ => exact more rest at_ _ (members rest)
              next => exact stops
          next => exact .stop
      next => exact .stop

theorem bracketOf_opening {u : Nat} (opens : u = 91 ∨ u = 123) : ∃ kind, bracketOf u = .opening kind := by
  rcases opens with rfl | rfl <;> exact ⟨_, rfl⟩

theorem bracketOf_closing {u : Nat} (closes : u = 93 ∨ u = 125) : ∃ kind, bracketOf u = .closing kind := by
  rcases closes with rfl | rfl <;> exact ⟨_, rfl⟩

theorem bracketOf_plain {u : Nat} (notOpening : ¬(u = 91 ∨ u = 123)) (notClosing : ¬(u = 93 ∨ u = 125)) :
    bracketOf u = .plain := by
  rw [not_or] at notOpening notClosing
  rw [bracketOf, if_neg notOpening.1, if_neg notOpening.2, if_neg notClosing.1, if_neg notClosing.2]

/-- The walk says whether it gets deeper than allowed. -/
theorem exceeds_iff {allowed depth : Nat} (inside : depth ≤ allowed) (s : JSString) :
    exceeds allowed depth s = true ↔ allowed < Brackets.deepest bracketOf depth s := by
  induction s generalizing depth with
  | nil => exact iff_of_false Bool.false_ne_true (not_lt.mpr inside)
  | cons code s ih =>
    rw [exceeds]
    by_cases opens : code = 91 ∨ code = 123
    · obtain ⟨kind, shape⟩ := bracketOf_opening opens
      rw [if_pos opens, Brackets.deepest_opening shape]
      split
      next deeper => exact iff_of_true rfl (deeper.trans_le (Brackets.le_deepest _ _))
      next within => exact ih (not_lt.mp within)
    · rw [if_neg opens]
      by_cases closes : code = 93 ∨ code = 125
      · obtain ⟨kind, shape⟩ := bracketOf_closing closes
        rw [Brackets.deepest_closing shape, lt_max_iff]
        by_cases deep : depth > 0
        · rw [if_pos ⟨closes, deep⟩, ih (by omega)]
          omega
        · have zero : depth - 1 = depth := by omega
          rw [if_neg (fun both => deep both.2), ih inside, zero]
          omega
      · rw [Brackets.deepest_plain (bracketOf_plain opens closes), if_neg (fun both => closes both.1)]
        exact ih inside

/-- Each pass lowers the depth that is allowed by the one level it takes off what the text opens. -/
theorem peel_reaches {passes allowed : Nat} {s : JSString} (reaches : Brackets.Reaches bracketOf (allowed + 1) s)
    (room : passes ≤ allowed) :
    Brackets.Reaches bracketOf ((peel passes s allowed).2 + 1) (peel passes s allowed).1 := by
  induction passes generalizing s allowed with
  | zero => exact reaches
  | succ passes ih =>
    rw [peel]
    split
    · dsimp only
      split
      · exact reaches
      · have lower : allowed - 1 + 1 = allowed := by omega
        exact ih (lower.symm ▸ reaches.dropPairs) (by omega)
    · exact reaches

/-- Brackets that close each other stay so, lower by as many levels as the depth that is allowed. -/
theorem peel_balanced {passes allowed height : Nat} {s : JSString} (balanced : Brackets.Balanced bracketOf height s)
    (room : passes ≤ allowed) : ∃ lower, Brackets.Balanced bracketOf lower (peel passes s allowed).1 ∧
      lower + allowed = height + (peel passes s allowed).2 := by
  induction passes generalizing s allowed height with
  | zero => exact ⟨height, balanced, rfl⟩
  | succ passes ih =>
    rw [peel]
    split
    next long =>
      dsimp only
      split
      · exact ⟨height, balanced, rfl⟩
      · obtain ⟨lower, inner, levels⟩ := ih balanced.dropPairs (show passes ≤ allowed - 1 by omega)
        have nested : 0 < height := by
          rcases balanced.ends with ⟨rfl, -⟩ | ⟨deep, -⟩
          · cases long
          · exact deep
        exact ⟨lower, inner, by rw [erasePairs]; omega⟩
    · exact ⟨height, balanced, rfl⟩

theorem room : nativePasses ≤ nativeStringifyDepth := by decide

theorem structureOf_length (text : JSString) : (structureOf text).length ≤ text.length := by
  induction text using structureOf.induct with
  | case1 => rw [structureOf]
  | case2 s rest closed ih =>
    have shorter := closeLiteral_length closed
    rw [structureOf_closed closed, List.length_cons]
    omega
  | case3 s open_ ih =>
    rw [structureOf, if_pos rfl]
    split
    next rest closed =>
      rw [open_] at closed
      cases closed
    next => exact Nat.succ_le_succ ih
  | case4 u s quote bracket ih =>
    rw [structureOf_bracket bracket]
    exact Nat.succ_le_succ ih
  | case5 u s quote loose ih =>
    rw [structureOf, if_neg quote, if_neg loose]
    exact Nat.le_succ_of_le ih

/-- A text that opens more brackets than the limit is refused. -/
theorem nestsTooDeep_of_reaches {text : JSString}
    (reaches : Brackets.Reaches bracketOf (nativeStringifyDepth + 1) (structureOf text)) : nestsTooDeep text = true := by
  have left := peel_reaches reaches room
  have deep := left.le_deepest 0
  have long := reaches.le_length.trans (structureOf_length text)
  have long' := left.le_length
  rw [nestsTooDeep, if_neg (by omega)]
  dsimp only
  rw [if_neg (by omega), exceeds_iff (Nat.zero_le _)]
  omega

/-- Brackets that close each other are refused only past the limit. -/
theorem height_of_nestsTooDeep {text : JSString} {height : Nat}
    (balanced : Brackets.Balanced bracketOf height (structureOf text)) (refused : nestsTooDeep text = true) :
    nativeStringifyDepth < height := by
  obtain ⟨lower, inner, levels⟩ := peel_balanced balanced room
  rw [nestsTooDeep] at refused
  split at refused
  · cases refused
  · dsimp only at refused
    split at refused
    · cases refused
    · have depth := inner.deepest 0 []
      rw [List.append_nil, Brackets.deepest] at depth
      rw [exceeds_iff (Nat.zero_le _), depth] at refused
      omega

theorem Accounts.reaches {s : JSString} {tail : JSString → JSString} {seen : Nat × Option JSString}
    (accounts : Accounts s tail seen) : Brackets.Reaches bracketOf seen.1 (structureOf s) := by
  cases ended : seen.2 with
  | none => exact accounts.stopped ended
  | some rest =>
    obtain ⟨brackets, balanced, same⟩ := accounts.read rest ended
    exact same ▸ balanced.reaches _

theorem containersOpen_of_passed {text : JSString} (passed : nestsTooDeep text = false) (steps : Nat) :
    containersOpen steps text ≤ nativeStringifyDepth := by
  by_contra deeper
  have deep : Brackets.Reaches bracketOf (nativeStringifyDepth + 1) (structureOf text) :=
    ((nest_accounts steps).1 text).reaches.mono (not_le.mp deeper)
  rw [nestsTooDeep_of_reaches deep] at passed
  cases passed

theorem containersOpen_of_refused {text rest : JSString} {steps : Nat} {value : Json}
    (read : parseValue steps text = some (value, rest)) (space : skipJsonSpace rest = [])
    (refused : nestsTooDeep text = true) : nativeStringifyDepth < containersOpen steps text := by
  have read' : (nestValue steps text).2 = some rest := by
    rw [(nest_parse steps).1, read]
    rfl
  obtain ⟨brackets, balanced, same⟩ := ((nest_accounts steps).1 text).read rest read'
  rw [id, ← structureOf_space rest, space, structureOf, List.append_nil] at same
  exact height_of_nestsTooDeep (same ▸ balanced) refused

/-- The guard of `JSON.parse` refuses a JSON text exactly where its arrays and objects nest past the limit, and lets no
text through that has a parser open more containers than the limit before it is through or meets a syntax error. -/
theorem nestsTooDeep_exact (text : JSString) :
    (∀ steps value rest, parseValue steps text = some (value, rest) → skipJsonSpace rest = [] →
      (nestsTooDeep text = true ↔ nativeStringifyDepth < containersOpen steps text)) ∧
    (nestsTooDeep text = false → ∀ steps, containersOpen steps text ≤ nativeStringifyDepth) := by
  refine ⟨fun steps value rest read space => ⟨containersOpen_of_refused read space, fun deep => ?_⟩,
    containersOpen_of_passed⟩
  by_contra passed
  exact absurd (containersOpen_of_passed (Bool.eq_false_iff.mpr passed) steps) (not_le.mpr deep)

theorem nestsTooDeep_exact_pair : nestsTooDeep (js "[\x7b\x7d]") = false ∧ containersOpen 9 (js "[\x7b\x7d]") ≤ 1000 :=
  ⟨by decide, (nestsTooDeep_exact (js "[\x7b\x7d]")).2 (by decide) 9⟩

/-- How the guarded `JSON.parse` of a text without a reviver throws. -/
inductive ParseStop where
  | overflow
  | syntaxError

/-- The guarded `JSON.parse`. -/
def parse (text : JSString) : Except ParseStop Json :=
  if nestsTooDeep text then .error .overflow
  else match parseJson text with
    | some value => .ok value
    | none => .error .syntaxError

/-- A text the native parser reads within the limit is read alike. -/
theorem parse_ok {text : JSString} {value : Json} (read : parseJson text = some value)
    (shallow : containersOpen (text.length + 1) text ≤ nativeStringifyDepth) : parse text = .ok value := by
  have passed : ¬ nestsTooDeep text = true := by
    intro refused
    rw [parseJson] at read
    split at read
    next parsed rest found =>
      split at read
      next space => exact absurd (containersOpen_of_refused found space refused) (not_lt.mpr shallow)
      next => cases read
    next => cases read
  rw [parse, if_neg passed, read]

end StackGuard

end Xript
