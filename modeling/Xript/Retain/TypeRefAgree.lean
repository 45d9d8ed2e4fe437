import Xript.Retain.TypeGrammar

namespace Xript

namespace TypeRef

mutual

/-- A type as the runtime holds it: the word `function` and a signature are both functions, and what is no type has the
empty name. -/
def shape : TypeNode → Retain.TypeNode
  | .name name => Retain.nameNode name
  | .array element => .array (shape element)
  | .union members => .union (shapes members)
  | .map value => .map (shape value)
  | .optional inner => .optional (shape inner)
  | .function => .function
  | .signature _ _ => .function
  | .unknown => .name []

def shapes : List TypeNode → List Retain.TypeNode
  | [] => []
  | node :: nodes => shape node :: shapes nodes

end

/-- The tokens the runtime's parser meets in a text, and whether they are all of it. -/
def lex : JSString → List Token × Bool
  | [] => ([], true)
  | u :: text =>
    if isSpace u then lex text
    else match unitToken u with
    | some token => (token :: (lex text).1, (lex text).2)
    | none =>
      if u = 91 then
        if text.head? = some 93 then (.pair :: (lex text.tail).1, (lex text.tail).2) else ([], false)
      else if Retain.startsName u then
        (.name (u :: text.takeWhile Retain.insideName) :: (lex (text.dropWhile Retain.insideName)).1,
          (lex (text.dropWhile Retain.insideName)).2)
      else ([], false)
termination_by text => text.length
decreasing_by
  all_goals simp only [List.length_cons]
  · exact Nat.lt_succ_self _
  · exact Nat.lt_succ_self _
  · exact Nat.lt_succ_of_le (List.length_tail ▸ Nat.sub_le ..)
  · exact Nat.lt_succ_of_le (length_dropWhile_le _ _)

/-- The runtime's tokens of a text without leading white space. -/
inductive Lexed : JSString → List Token × Bool → Prop
  | ended : Lexed [] ([], true)
  | unit {u : Nat} {text : JSString} {token : Token} : unitToken u = some token →
      Lexed (u :: text) (token :: (lex text).1, (lex text).2)
  | pair {text : JSString} : Lexed (91 :: 93 :: text) (.pair :: (lex text).1, (lex text).2)
  | name {u : Nat} {text : JSString} : Retain.startsName u = true →
      Lexed (u :: text) (.name (u :: text.takeWhile Retain.insideName) :: (lex (text.dropWhile Retain.insideName)).1,
        (lex (text.dropWhile Retain.insideName)).2)
  | stuck {u : Nat} {text : JSString} : unitToken u = none → Retain.startsName u = false →
      (u = 91 → text.head? ≠ some 93) → Lexed (u :: text) ([], false)

theorem lexed (text : JSString) : Lexed (Retain.skip text) (lex text) := by
  induction text with
  | nil =>
    rw [lex]
    exact .ended
  | cons u text ih =>
    rw [lex, Retain.skip, List.dropWhile_cons]
    split
    · exact ih
    · split
      · rename_i token single
        exact .unit single
      · rename_i other
        split
        · rename_i bracket
          subst bracket
          split
          · rename_i close
            obtain ⟨rest, rfl⟩ := List.head?_eq_some_iff.mp close
            exact .pair
          · rename_i unclosed
            exact .stuck other (by decide) fun _ => unclosed
        · rename_i plain
          split
          · rename_i starts
            exact .name starts
          · rename_i starts
            exact .stuck other (by simpa using starts) fun bracket => absurd bracket plain

theorem skip_idem (text : JSString) : Retain.skip (Retain.skip text) = Retain.skip text := List.dropWhile_idempotent _ _

theorem lex_nil : lex [] = ([], true) := by rw [lex]

theorem lex_space {u : Nat} (space : isSpace u = true) (text : JSString) : lex (u :: text) = lex text := by
  rw [lex.eq_def (u :: text)]
  simp only [space, if_true]

theorem lex_skip (text : JSString) : lex (Retain.skip text) = lex text := by
  induction text with
  | nil => rfl
  | cons u text ih =>
    rw [Retain.skip, List.dropWhile_cons]
    split
    · rename_i space
      rw [lex_space space]
      exact ih
    · rfl

theorem lexed_solid {u : Nat} (solid : isSpace u = false) (text : JSString) : Lexed (u :: text) (lex (u :: text)) := by
  have found := lexed (u :: text)
  rwa [Retain.skip, List.dropWhile_cons_of_neg (by rw [solid]; exact Bool.false_ne_true)] at found

theorem unitToken_cases {u : Nat} {token : Token} (single : unitToken u = some token) :
    (u = 124 ∧ token = .bar) ∨ (u = 63 ∧ token = .question) ∨ (u = 40 ∧ token = .opening) ∨ (u = 41 ∧ token = .closing) := by
  unfold unitToken at single
  split at single
  · exact .inl ⟨rfl, (Option.some.inj single).symm⟩
  · exact .inr (.inl ⟨rfl, (Option.some.inj single).symm⟩)
  · exact .inr (.inr (.inl ⟨rfl, (Option.some.inj single).symm⟩))
  · exact .inr (.inr (.inr ⟨rfl, (Option.some.inj single).symm⟩))
  · cases single

theorem shape_unionNode (first : TypeNode) (others : List TypeNode) :
    shape (unionNode first others) = Retain.unionNode (shape first) (shapes others) := by
  cases others with
  | nil => rfl
  | cons other others => rfl

theorem lex_pair (text : JSString) : lex (91 :: 93 :: text) = (.pair :: (lex text).1, (lex text).2) := by
  have found := lexed_solid (u := 91) (by decide) (93 :: text)
  generalize lex (91 :: 93 :: text) = read at found ⊢
  cases found with
  | unit single => cases single
  | pair => rfl
  | name starts => cases starts
  | stuck _ _ unclosed => exact absurd rfl (unclosed rfl)

theorem lex_unit {u : Nat} {token : Token} (single : unitToken u = some token) (text : JSString) :
    lex (u :: text) = (token :: (lex text).1, (lex text).2) := by
  have solid : isSpace u = false ∧ Retain.startsName u = false ∧ u ≠ 91 := by
    rcases unitToken_cases single with ⟨rfl, -⟩ | ⟨rfl, -⟩ | ⟨rfl, -⟩ | ⟨rfl, -⟩
    all_goals decide
  have found := lexed_solid solid.1 text
  generalize lex (u :: text) = read at found ⊢
  cases found with
  | unit other =>
    rw [single, Option.some.injEq] at other
    rw [other]
  | pair => exact absurd rfl solid.2.2
  | name starts => rw [solid.2.1] at starts; cases starts
  | stuck none => rw [single] at none; cases none

theorem insideName_solid {u : Nat} (inside : Retain.insideName u = true) : isSpace u = false := by
  simp only [Retain.insideName, isLetter, isUpper, isLower, isDigit, Bool.or_eq_true, Bool.and_eq_true, decide_eq_true_eq,
    beq_iff_eq] at inside
  exact isSpace_of_graphic (by omega) (by omega)

theorem insideName_of_starts {u : Nat} (starts : Retain.startsName u = true) : Retain.insideName u = true := by
  simp only [Retain.startsName, Retain.insideName, Bool.or_eq_true] at starts ⊢
  tauto

theorem lex_name {u : Nat} (starts : Retain.startsName u = true) (text : JSString) :
    lex (u :: text) = (.name (u :: text.takeWhile Retain.insideName) :: (lex (text.dropWhile Retain.insideName)).1,
      (lex (text.dropWhile Retain.insideName)).2) := by
  have found := lexed_solid (insideName_solid (insideName_of_starts starts)) text
  generalize lex (u :: text) = read at found ⊢
  cases found with
  | unit single =>
    rcases unitToken_cases single with ⟨rfl, -⟩ | ⟨rfl, -⟩ | ⟨rfl, -⟩ | ⟨rfl, -⟩
    all_goals cases starts
  | pair => cases starts
  | name => rfl
  | stuck _ none => rw [none] at starts; cases starts

theorem lex_stuck {u : Nat} (other : unitToken u = none) (plain : Retain.startsName u = false) {text : JSString}
    (unclosed : u = 91 → text.head? ≠ some 93) (solid : isSpace u = false) : lex (u :: text) = ([], false) := by
  have found := lexed_solid solid text
  generalize lex (u :: text) = read at found ⊢
  cases found with
  | unit single => rw [single] at other; cases other
  | pair => exact absurd rfl (unclosed rfl)
  | name starts => rw [plain] at starts; cases starts
  | stuck => rfl

/-- The marks behind a type, read from the text and from its tokens. -/
theorem marks_alike (text : JSString) (start : Retain.TypeNode) (node : TypeNode) (same : shape node = start) :
    (Retain.marks start text).1 = shape (parseMarks node (lex text).1).1 ∧
      lex (Retain.marks start text).2 = ((parseMarks node (lex text).1).2, (lex text).2) := by
  fun_induction Retain.marks start text generalizing node with
  | case1 start text ih =>
    rw [lex_pair]
    exact ih (.array node) (congrArg Retain.TypeNode.array same)
  | case2 start text ih =>
    rw [lex_unit (u := 63) rfl]
    exact ih (.optional node) (congrArg Retain.TypeNode.optional same)
  | case3 start u text notPair notQuestion space ih =>
    rw [lex_space space]
    exact ih node same
  | case4 start u text notPair notQuestion solid =>
    have found := lexed_solid (by simpa using solid) text
    have stop : parseMarks node (lex (u :: text)).1 = (node, (lex (u :: text)).1) := by
      generalize lex (u :: text) = read at found ⊢
      cases found with
      | unit single =>
        rcases unitToken_cases single with ⟨rfl, rfl⟩ | ⟨rfl, rfl⟩ | ⟨rfl, rfl⟩ | ⟨rfl, rfl⟩
        · rfl
        · exact absurd rfl notQuestion
        · rfl
        · rfl
      | pair => exact absurd rfl (notPair _ rfl)
      | name => rfl
      | stuck => rfl
    rw [stop]
    exact ⟨same.symm, rfl⟩
  | case5 start =>
    refine ⟨?_, ?_⟩
    · rw [lex_nil]
      exact same.symm
    · rw [lex_nil]
      rfl

/-- What the runtime's parser has read of a text, and the validator's of its tokens. -/
def SameRead (text : JSString) (read : Retain.TypeNode × JSString) (node : TypeNode × List Token) : Prop :=
  read.1 = shape node.1 ∧ lex read.2 = (node.2, (lex text).2)

def SameMembers (text : JSString) (read : List Retain.TypeNode × JSString) (nodes : List TypeNode × List Token) : Prop :=
  read.1 = shapes nodes.1 ∧ lex read.2 = (nodes.2, (lex text).2)

theorem readMembers_stop {fuel : Nat} {text : JSString} (stop : text.head? ≠ some 124) :
    Retain.readMembers (fuel + 1) text = some ([], text) := by
  unfold Retain.readMembers
  split
  · rename_i zero
    cases zero
  · exact absurd rfl stop
  · rfl

theorem readPrimary_plain {fuel : Nat} {text : JSString} (plain : text.head? ≠ some 40) :
    Retain.readPrimary (fuel + 1) text =
      (Retain.nameAt text).map fun found => (Retain.nameNode found.1, found.2) := by
  unfold Retain.readPrimary
  split
  · rename_i zero
    cases zero
  · exact absurd rfl plain
  · rfl

theorem parsePrimary_plain {fuel : Nat} {token : Token} {tokens : List Token} (unnamed : ∀ v, token ≠ .name v)
    (closed : token ≠ .opening) : parsePrimary (fuel + 1) (token :: tokens) = none := by
  cases token with
  | name v => exact absurd rfl (unnamed v)
  | opening => exact absurd rfl closed
  | bar | pair | question | closing => rfl

theorem lex_bar {text : JSString} (bar : (lex text).1.head? = some .bar) : ∃ rest, Retain.skip text = 124 :: rest := by
  have found := lexed text
  generalize Retain.skip text = solid at found ⊢
  generalize lex text = read at found bar
  cases found with
  | unit single =>
    rcases unitToken_cases single with ⟨rfl, rfl⟩ | ⟨rfl, rfl⟩ | ⟨rfl, rfl⟩ | ⟨rfl, rfl⟩
    · exact ⟨_, rfl⟩
    all_goals cases bar
  | ended | pair | name | stuck => cases bar

theorem nameAt_none {u : Nat} (starts : Retain.startsName u = false) (text : JSString) :
    Retain.nameAt (u :: text) = none := by
  rw [Retain.nameAt, starts]
  rfl

/-- A group closes in the text where it does in the tokens. -/
theorem close_alike {text rest : JSString} {node : TypeNode} {tokens : List Token} (left : lex rest = (tokens, (lex text).2)) :
    Option.Rel (SameRead text)
      (match Retain.skip rest with
        | 41 :: after => some (shape node, after)
        | _ => none)
      ((fun rest : List Token =>
        match rest with
        | .closing :: after => some (node, after)
        | _ => none) tokens) := by
  have found := lexed rest
  rw [left] at found
  generalize Retain.skip rest = solid at found ⊢
  generalize whole : (tokens, (lex text).2) = read at found
  cases found with
  | ended =>
    obtain ⟨rfl, -⟩ := Prod.mk.inj whole
    exact .none
  | @unit u after token single =>
    obtain ⟨rfl, ok⟩ := Prod.mk.inj whole
    rcases unitToken_cases single with ⟨rfl, rfl⟩ | ⟨rfl, rfl⟩ | ⟨rfl, rfl⟩ | ⟨rfl, rfl⟩
    · exact .none
    · exact .none
    · exact .none
    · exact .some ⟨rfl, Prod.ext rfl ok.symm⟩
  | pair =>
    obtain ⟨rfl, -⟩ := Prod.mk.inj whole
    exact .none
  | @name u after starts =>
    obtain ⟨rfl, -⟩ := Prod.mk.inj whole
    split
    · rename_i close
      obtain rfl := (List.cons.inj close).1
      cases starts
    · exact .none
  | @stuck u after other starts unclosed =>
    obtain ⟨rfl, -⟩ := Prod.mk.inj whole
    split
    · rename_i close
      obtain rfl := (List.cons.inj close).1
      cases other
    · exact .none

theorem primary_alike {fuel : Nat}
    (ofUnion : ∀ text, Option.Rel (SameRead text) (Retain.readUnion fuel text) (parseUnion fuel (lex text).1))
    {text : JSString} (solid : Retain.skip text = text) :
    Option.Rel (SameRead text) (Retain.readPrimary (fuel + 1) text) (parsePrimary (fuel + 1) (lex text).1) := by
  have found := lexed text
  rw [solid] at found
  unfold SameRead
  generalize whole : lex text = read at found ⊢
  cases found with
  | ended => exact .none
  | @unit u rest token single =>
    rcases unitToken_cases single with ⟨rfl, rfl⟩ | ⟨rfl, rfl⟩ | ⟨rfl, rfl⟩ | ⟨rfl, rfl⟩
    · rw [readPrimary_plain (by simp), nameAt_none (by decide)]
      exact .none
    · rw [readPrimary_plain (by simp), nameAt_none (by decide)]
      exact .none
    · rw [Retain.readPrimary, parsePrimary]
      have inner := ofUnion rest
      generalize Retain.readUnion fuel rest = read at inner ⊢
      generalize parseUnion fuel (lex rest).1 = parsed at inner ⊢
      cases inner with
      | none => exact .none
      | @some read parsed same =>
        obtain ⟨node, after⟩ := read
        obtain ⟨node', tokens⟩ := parsed
        obtain ⟨shaped, left⟩ := same
        obtain rfl : node = shape node' := shaped
        exact @close_alike rest after node' tokens left
    · rw [readPrimary_plain (by simp), nameAt_none (by decide)]
      exact .none
  | pair =>
    rw [readPrimary_plain (by simp), nameAt_none (by decide)]
    exact .none
  | @name u rest starts =>
    have plain : (u :: rest).head? ≠ some 40 := by
      intro same
      obtain rfl : u = 40 := Option.some.inj same
      cases starts
    rw [readPrimary_plain plain, Retain.nameAt, starts]
    exact .some ⟨rfl, rfl⟩
  | @stuck u rest other starts unclosed =>
    have plain : (u :: rest).head? ≠ some 40 := by
      intro same
      obtain rfl : u = 40 := Option.some.inj same
      cases other
    rw [readPrimary_plain plain, nameAt_none starts]
    exact .none

/-- The runtime's functions read from a text what the validator's read from its tokens. -/
theorem parse_alike (fuel : Nat) :
    (∀ text, Option.Rel (SameRead text) (Retain.readUnion fuel text) (parseUnion fuel (lex text).1)) ∧
    (∀ text, Option.Rel (SameMembers text) (Retain.readMembers fuel (Retain.skip text)) (parseMembers fuel (lex text).1)) ∧
    (∀ text, Option.Rel (SameRead text) (Retain.readPostfix fuel text) (parsePostfix fuel (lex text).1)) ∧
    ∀ text, Option.Rel (SameRead text) (Retain.readPrimary fuel (Retain.skip text)) (parsePrimary fuel (lex text).1) := by
  induction fuel with
  | zero => exact ⟨fun _ => .none, fun _ => .none, fun _ => .none, fun _ => .none⟩
  | succ fuel ih =>
    obtain ⟨ofUnion, ofMembers, ofPostfix, ofPrimary⟩ := ih
    refine ⟨?_, ?_, ?_, ?_⟩
    · intro text
      rw [Retain.readUnion, parseUnion]
      have first := ofPostfix text
      generalize Retain.readPostfix fuel text = read at first ⊢
      generalize parsePostfix fuel (lex text).1 = parsed at first ⊢
      cases first with
      | none => exact .none
      | @some read parsed same =>
        obtain ⟨node, rest⟩ := read
        obtain ⟨node', tokens⟩ := parsed
        obtain ⟨shaped, left⟩ := same
        obtain rfl : node = shape node' := shaped
        have others := ofMembers rest
        rw [left] at others
        simp only [Option.bind_eq_bind, Option.bind_some]
        generalize Retain.readMembers fuel (Retain.skip rest) = more at others ⊢
        generalize parseMembers fuel tokens = more' at others ⊢
        cases others with
        | none => exact .none
        | @some more more' same =>
          refine .some ⟨?_, ?_⟩
          · rw [shape_unionNode, same.1]
          · exact same.2.trans (by rw [left])
    · intro text
      by_cases bar : ∃ rest, Retain.skip text = 124 :: rest
      · obtain ⟨rest, split⟩ := bar
        have whole : lex text = (.bar :: (lex rest).1, (lex rest).2) := by
          rw [← lex_skip, split]
          exact lex_unit rfl rest
        rw [split, whole, Retain.readMembers, parseMembers]
        have next := ofPostfix rest
        generalize Retain.readPostfix fuel rest = read at next ⊢
        generalize parsePostfix fuel (lex rest).1 = parsed at next ⊢
        cases next with
        | none => exact .none
        | @some read parsed same =>
          obtain ⟨node, after⟩ := read
          obtain ⟨node', tokens⟩ := parsed
          obtain ⟨shaped, left⟩ := same
          obtain rfl : node = shape node' := shaped
          have others := ofMembers after
          rw [left] at others
          simp only [Option.bind_eq_bind, Option.bind_some]
          generalize Retain.readMembers fuel (Retain.skip after) = more at others ⊢
          generalize parseMembers fuel tokens = more' at others ⊢
          cases others with
          | none => exact .none
          | @some more more' same =>
            refine .some ⟨?_, ?_⟩
            · rw [same.1]
              rfl
            · exact same.2.trans (by rw [left, whole])
      · rw [readMembers_stop, parseMembers_stop]
        · exact .some ⟨rfl, lex_skip text⟩
        · exact fun head => bar (lex_bar head)
        · exact fun head => bar (List.head?_eq_some_iff.mp head)
    · intro text
      rw [Retain.readPostfix, parsePostfix]
      have inner := ofPrimary text
      generalize Retain.readPrimary fuel (Retain.skip text) = read at inner ⊢
      generalize parsePrimary fuel (lex text).1 = parsed at inner ⊢
      cases inner with
      | none => exact .none
      | @some read parsed same =>
        obtain ⟨node, rest⟩ := read
        obtain ⟨node', tokens⟩ := parsed
        obtain ⟨shaped, left⟩ := same
        have marked := marks_alike rest node node' shaped.symm
        rw [left] at marked
        exact .some marked
    · intro text
      have inner := primary_alike ofUnion (skip_idem text)
      unfold SameRead at inner ⊢
      rwa [lex_skip] at inner

end TypeRef

end Xript
