import Xript.Retain.TypeRefAgree

namespace Xript

namespace TypeRef

/-- Brackets with white space between them. -/
def SpacedPair (source : JSString) : Prop :=
  ∃ before inside after, source = before ++ 91 :: (inside ++ 93 :: after) ∧ inside ≠ [] ∧ inside.all isSpace = true

theorem SpacedPair.behind {source : JSString} (spaced : SpacedPair source) (before : JSString) : SpacedPair (before ++ source) := by
  obtain ⟨first, inside, after, rfl, nonempty, blank⟩ := spaced
  exact ⟨before ++ first, inside, after, (List.append_assoc ..).symm, nonempty, blank⟩

/-- A part without an opening bracket holds no part of the pair. -/
theorem SpacedPair.past {before source : JSString} (spaced : SpacedPair (before ++ source)) (free : 91 ∉ before) :
    SpacedPair source := by
  obtain ⟨first, inside, after, split, nonempty, blank⟩ := spaced
  rcases List.append_eq_append_iff.mp split with ⟨more, rfl, rest⟩ | ⟨more, rfl, rest⟩
  · exact ⟨more, inside, after, rest, nonempty, blank⟩
  · cases more with
    | nil => exact ⟨[], inside, after, rest.symm, nonempty, blank⟩
    | cons u more =>
      obtain rfl := (List.cons.inj rest).1
      exact absurd (List.mem_append_right first List.mem_cons_self) free

theorem SpacedPair.past_unit {u : Nat} {source : JSString} (spaced : SpacedPair (u :: source)) (other : u ≠ 91) :
    SpacedPair source :=
  @SpacedPair.past [u] source spaced (by simpa using other.symm)

/-- The pair starts at the first bracket, or is behind it. -/
theorem SpacedPair.at_bracket {source : JSString} (spaced : SpacedPair (91 :: source)) :
    SpacedPair source ∨ ∃ u rest, source = u :: rest ∧ isSpace u = true := by
  obtain ⟨first, inside, after, split, nonempty, blank⟩ := spaced
  cases first with
  | nil =>
    obtain ⟨u, rest, rfl⟩ := List.exists_cons_of_ne_nil nonempty
    rw [List.all_cons, Bool.and_eq_true] at blank
    exact .inr ⟨u, _, (List.cons.inj split).2, blank.1⟩
  | cons v first => exact .inl ⟨first, inside, after, (List.cons.inj split).2, nonempty, blank⟩

theorem insideName_bracket {u : Nat} (inside : Retain.insideName u = true) : u ≠ 91 := by
  rintro rfl
  cases inside

theorem startsName_bracket {u : Nat} (starts : Retain.startsName u = true) : u ≠ 91 := by
  rintro rfl
  cases starts

theorem bracket_takeWhile (text : JSString) : 91 ∉ text.takeWhile Retain.insideName := by
  intro member
  exact insideName_bracket (List.all_eq_true.mp List.all_takeWhile 91 member) rfl

theorem unitToken_bracket {u : Nat} {token : Token} (single : unitToken u = some token) : u ≠ 91 := by
  rintro rfl
  cases single

theorem space_bracket {u : Nat} (space : isSpace u = true) : u ≠ 91 := by
  rintro rfl
  cases space

theorem not_spaced_nil : ¬ SpacedPair [] := by
  rintro ⟨before, inside, after, split, -, -⟩
  cases before with
  | nil => cases split
  | cons => cases split

/-- A text the runtime finds nothing but tokens in has no spaced pair. -/
theorem lex_unspaced {text : JSString} (whole : (lex text).2 = true) : ¬ SpacedPair text := by
  induction text using lex.induct with
  | case1 => exact not_spaced_nil
  | case2 u text space ih =>
    rw [lex_space space] at whole
    exact fun spaced => ih whole (spaced.past_unit (space_bracket space))
  | case3 u text solid token single ih =>
    rw [lex_unit single] at whole
    exact fun spaced => ih whole (spaced.past_unit (unitToken_bracket single))
  | case4 text close solid other ih =>
    obtain ⟨rest, rfl⟩ := List.head?_eq_some_iff.mp close
    rw [lex_pair] at whole
    intro spaced
    rcases spaced.at_bracket with spaced | ⟨u, after, split, space⟩
    · exact ih whole (spaced.past_unit (by decide))
    · obtain rfl := (List.cons.inj split).1
      cases space
  | case5 text unclosed solid other =>
    rw [lex_stuck other rfl (fun _ => unclosed) rfl] at whole
    cases whole
  | case6 u text solid other plain starts ih =>
    rw [lex_name starts] at whole
    intro spaced
    have behind := spaced.past_unit plain
    rw [← List.takeWhile_append_dropWhile (p := Retain.insideName) (l := text)] at behind
    exact ih whole (behind.past (bracket_takeWhile text))
  | case7 u text solid other plain starts =>
    rw [lex_stuck other (by simpa using starts) (fun bracket => absurd bracket plain) (by simpa using solid)] at whole
    cases whole

/-- Where no pair is spaced, the two find the same tokens. -/
theorem tokenize_lex {source : JSString} (unspaced : ¬ SpacedPair source) :
    tokenize source = if (lex source).2 then some (lex source).1 else none := by
  induction source using tokenize.induct with
  | case1 => rw [tokenize, lex_nil]; rfl
  | case2 u source space ih =>
    rw [tokenize, if_pos space, lex_space space]
    exact ih fun spaced => unspaced (spaced.behind [u])
  | case3 u source solid token single ih =>
    rw [tokenize, if_neg solid, single, lex_unit single]
    simp only [ih fun spaced => unspaced (spaced.behind [u])]
    split <;> rfl
  | case4 source rest close solid other ih =>
    cases source with
    | nil => cases close
    | cons u after =>
      by_cases space : isSpace u = true
      · refine absurd ⟨[], (u :: after).takeWhile isSpace, rest, ?_, ?_, List.all_takeWhile⟩ unspaced
        · rw [← close, List.nil_append, List.takeWhile_append_dropWhile]
        · rw [List.takeWhile_cons_of_pos space]
          exact List.cons_ne_nil _ _
      · rw [List.dropWhile_cons_of_neg space] at close
        obtain ⟨rfl, rfl⟩ := List.cons.inj close
        rw [tokenize, if_neg solid, other, lex_pair]
        simp only [if_true]
        rw [List.dropWhile_cons_of_neg space]
        simp only [ih fun spaced => unspaced (spaced.behind [91, 93])]
        split <;> rfl
  | case5 source unclosed solid other =>
    have head : source.head? ≠ some 93 := by
      intro close
      obtain ⟨rest, rfl⟩ := List.head?_eq_some_iff.mp close
      exact unclosed rest (List.dropWhile_cons_of_neg (by decide))
    rw [tokenize, if_neg solid, other, lex_stuck other rfl (fun _ => head) rfl]
    simp only [if_true]
    rfl
  | case6 u source solid other plain starts ih =>
    rw [tokenize, if_neg solid, other, lex_name starts]
    simp only [if_neg plain, if_pos starts]
    rw [ih]
    · split <;> rfl
    · intro spaced
      refine unspaced ?_
      have behind := spaced.behind (u :: source.takeWhile Retain.insideName)
      rwa [List.cons_append, List.takeWhile_append_dropWhile] at behind
  | case7 u source solid other plain starts =>
    rw [tokenize, if_neg solid, other,
      lex_stuck other (by simpa using starts) (fun bracket => absurd bracket plain) (by simpa using solid)]
    simp only [if_neg plain, if_neg starts]
    rfl

/-- A text made of the tokens, with white space around them and inside pairs. -/
inductive Spelled : JSString → List Token → Prop
  | nil : Spelled [] []
  | space {u : Nat} {source : JSString} {tokens : List Token} : isSpace u = true → Spelled source tokens →
      Spelled (u :: source) tokens
  | unit {u : Nat} {token : Token} {source : JSString} {tokens : List Token} : unitToken u = some token →
      Spelled source tokens → Spelled (u :: source) (token :: tokens)
  | pair {inside source : JSString} {tokens : List Token} : inside.all isSpace = true → Spelled source tokens →
      Spelled (91 :: (inside ++ 93 :: source)) (.pair :: tokens)
  | name {u : Nat} {inside source : JSString} {tokens : List Token} : Retain.startsName u = true →
      inside.all Retain.insideName = true → Spelled source tokens → Spelled (u :: (inside ++ source)) (.name (u :: inside) :: tokens)

theorem tokenize_spelled {source : JSString} {tokens : List Token} (found : tokenize source = some tokens) :
    Spelled source tokens := by
  induction source using tokenize.induct generalizing tokens with
  | case1 =>
    rw [tokenize, Option.some.injEq] at found
    rw [← found]
    exact .nil
  | case2 u source space ih =>
    rw [tokenize, if_pos space] at found
    exact .space space (ih found)
  | case3 u source solid token single ih =>
    rw [tokenize, if_neg solid, single] at found
    obtain ⟨rest, inner, rfl⟩ := Option.map_eq_some_iff.mp found
    exact .unit single (ih inner)
  | case4 source rest close solid other ih =>
    rw [tokenize, if_neg solid, other] at found
    simp only [if_true] at found
    split at found
    · rename_i after close'
      obtain rfl : after = rest := by
        rw [close, List.cons.injEq] at close'
        exact close'.2.symm
      obtain ⟨tokens, inner, rfl⟩ := Option.map_eq_some_iff.mp found
      have paired : Spelled (91 :: (source.takeWhile isSpace ++ 93 :: after)) _ := .pair List.all_takeWhile (ih inner)
      rwa [← close, List.takeWhile_append_dropWhile] at paired
    · cases found
  | case5 source unclosed solid other =>
    rw [tokenize, if_neg solid, other] at found
    simp at found
  | case6 u source solid other plain starts ih =>
    rw [tokenize, if_neg solid, other] at found
    simp only [if_neg plain, if_pos starts] at found
    obtain ⟨rest, inner, rfl⟩ := Option.map_eq_some_iff.mp found
    have named := Spelled.name starts (List.all_takeWhile (p := Retain.insideName) (l := source)) (ih inner)
    rwa [List.takeWhile_append_dropWhile] at named
  | case7 u source solid other plain starts =>
    rw [tokenize, if_neg solid, other] at found
    simp [plain, starts] at found

theorem Spelled.length_le {source : JSString} {tokens : List Token} (spelled : Spelled source tokens) :
    tokens.length ≤ source.length := by
  induction spelled with
  | nil => exact le_rfl
  | space _ _ ih => exact ih.trans (Nat.le_succ _)
  | unit _ _ ih => exact Nat.succ_le_succ ih
  | pair _ _ ih =>
    simp only [List.length_cons, List.length_append]
    omega
  | name _ _ _ ih =>
    simp only [List.length_cons, List.length_append]
    omega

theorem Spelled.names {source : JSString} {tokens : List Token} (spelled : Spelled source tokens) {v : JSString}
    (member : Token.name v ∈ tokens) : 91 ∉ v := by
  induction spelled with
  | nil => cases member
  | space _ _ ih => exact ih member
  | unit single _ ih =>
    rcases List.mem_cons.mp member with rfl | later
    · rcases unitToken_cases single with ⟨-, bad⟩ | ⟨-, bad⟩ | ⟨-, bad⟩ | ⟨-, bad⟩
      all_goals cases bad
    · exact ih later
  | pair _ _ ih =>
    rcases List.mem_cons.mp member with bad | later
    · cases bad
    · exact ih later
  | @name u inside source tokens starts all _ ih =>
    rcases List.mem_cons.mp member with same | later
    · obtain rfl := Token.name.inj same
      intro bracket
      rcases List.mem_cons.mp bracket with rfl | within
      · exact startsName_bracket starts rfl
      · exact insideName_bracket (List.all_eq_true.mp all 91 within) rfl
    · exact ih later

theorem parseMarks_name (node : TypeNode) (tokens : List Token) (v : JSString)
    (bare : (parseMarks node tokens).1 = .name v) : node = .name v := by
  fun_induction parseMarks node tokens with
  | case1 node tokens ih => cases ih bare
  | case2 node tokens ih => cases ih bare
  | case3 node tokens => exact bare

/-- A name that is all that was read is one of the tokens. -/
theorem parse_name (fuel : Nat) :
    (∀ tokens v rest, parseUnion fuel tokens = some (.name v, rest) → .name v ∈ tokens) ∧
    (∀ tokens v rest, parsePostfix fuel tokens = some (.name v, rest) → .name v ∈ tokens) ∧
    ∀ tokens v rest, parsePrimary fuel tokens = some (.name v, rest) → .name v ∈ tokens := by
  induction fuel with
  | zero =>
    refine ⟨?_, ?_, ?_⟩
    all_goals
      intro tokens v rest read
      simp only [parseUnion, parsePostfix, parsePrimary, reduceCtorEq] at read
  | succ fuel ih =>
    obtain ⟨ofUnion, ofPostfix, ofPrimary⟩ := ih
    refine ⟨?_, ?_, ?_⟩
    · intro tokens v rest read
      obtain ⟨first, middle, others, readFirst, -, node⟩ := parseUnion_some.1 read
      cases others with
      | nil =>
        obtain rfl : .name v = first := node
        exact ofPostfix _ _ _ readFirst
      | cons => cases node
    · intro tokens v rest read
      obtain ⟨inner, middle, readInner, marked⟩ := parsePostfix_some.1 read
      have bare := parseMarks_name inner middle v (congrArg Prod.fst marked)
      subst bare
      exact ofPrimary _ _ _ readInner
    · intro tokens v rest read
      rcases parsePrimary_some read with ⟨w, rfl, same⟩ | ⟨inner, rfl, readInner⟩
      · obtain rfl := TypeNode.name.inj same
        exact List.mem_cons_self
      · exact List.mem_cons_of_mem _ (ofUnion _ _ _ readInner)

/-- A string form of the grammar. -/
def IsType (source : JSString) : Prop := ∃ tokens, tokenize source = some tokens ∧ Written .union tokens

/-- The strings both read alike: types without white space inside their brackets, and others without any around them. -/
def TextAlike (source : JSString) : Prop :=
  (IsType source → ¬ SpacedPair source) ∧ (¬ IsType source → trim source = source)

/-- What the validator reads of a type. -/
theorem parseTypeString_type {source : JSString} {tokens : List Token} (found : tokenize source = some tokens)
    (written : Written .union tokens) :
    ∃ node, parseUnion (Retain.enough tokens.length) tokens = some (node, []) ∧ parseTypeString source = node := by
  obtain ⟨node, read⟩ := (parseUnion_all le_rfl).2 written
  refine ⟨node, read, ?_⟩
  rw [parseTypeString, found]
  simp only [read]

theorem parseTypeString_untyped {source : JSString} (other : ¬ IsType source) :
    parseTypeString source = .name (trim source) := by
  unfold parseTypeString
  split
  · rfl
  · rename_i tokens found
    split
    · rename_i parsed read
      exact absurd ⟨tokens, found, (parseUnion_all le_rfl).1 ⟨parsed, read⟩⟩ other
    · rfl

theorem lex_all {text : JSString} (whole : lex text = ([], true)) : Retain.skip text = [] := by
  have found := lexed text
  rw [whole] at found
  generalize Retain.skip text = solid at found ⊢
  generalize read : (([], true) : List Token × Bool) = tokens at found
  cases found with
  | ended => rfl
  | unit => cases read
  | pair => cases read
  | name => cases read
  | stuck => cases read

/-- What the runtime reads of a type it finds nothing but tokens in. -/
theorem readString_type {source : JSString} {tokens : List Token} {node : TypeNode} (whole : lex source = (tokens, true))
    (short : tokens.length ≤ source.length) (read : parseUnion (Retain.enough tokens.length) tokens = some (node, [])) :
    Retain.parseTypeString source = shape node := by
  have room : Retain.enough tokens.length ≤ Retain.enough source.length := by
    simp only [Retain.enough]
    omega
  have alike := (parse_alike (Retain.enough source.length)).1 source
  rw [whole] at alike
  simp only [parseUnion_mono room read] at alike
  rw [Retain.parseTypeString]
  generalize Retain.readUnion (Retain.enough source.length) source = found at alike ⊢
  cases alike with
  | @some found node same =>
    obtain ⟨shaped, left⟩ := same
    rw [whole] at left
    simp only [lex_all left, if_true, shaped]

theorem readString_untyped {source : JSString} (other : (lex source).2 = true → ¬ Written .union (lex source).1) :
    Retain.parseTypeString source = .name source := by
  rw [Retain.parseTypeString]
  have alike := (parse_alike (Retain.enough source.length)).1 source
  generalize readR : Retain.readUnion (Retain.enough source.length) source = found at alike ⊢
  generalize readV : parseUnion (Retain.enough source.length) (lex source).1 = parsed at alike
  cases alike with
  | none => rfl
  | @some found parsed same =>
    obtain ⟨node, rest⟩ := found
    obtain ⟨node', tokens⟩ := parsed
    obtain ⟨-, left⟩ := same
    by_cases blank : Retain.skip rest = []
    · rw [← lex_skip, blank, lex_nil, Prod.mk.injEq] at left
      obtain ⟨rfl, whole⟩ := left
      obtain ⟨all, split, written⟩ := (parse_written _).1 _ _ _ readV
      rw [List.append_nil] at split
      rw [← split] at written
      exact absurd written (other whole.symm)
    · simp only [if_neg blank]

theorem tokenize_blank {before : JSString} (blank : before.all isSpace = true) (source : JSString) :
    tokenize (before ++ source) = tokenize source := by
  induction before with
  | nil => rfl
  | cons u before ih =>
    rw [List.all_cons, Bool.and_eq_true] at blank
    rw [List.cons_append, tokenize, if_pos blank.1, ih blank.2]

/-- The word `function` is a type, whatever white space is around it. -/
theorem isType_function {source : JSString} (word : trim source = js "function") : IsType source := by
  obtain ⟨after, blank, split⟩ := trim_split source
  have takes : (js "unction" ++ after).takeWhile Retain.insideName = js "unction" := by
    rw [List.takeWhile_append_of_pos (by decide)]
    cases after with
    | nil => rfl
    | cons u after =>
      rw [List.all_cons, Bool.and_eq_true] at blank
      rw [List.takeWhile_cons_of_neg, List.append_nil]
      intro inside
      rw [insideName_solid inside] at blank
      cases blank.1
  have drops : (js "unction" ++ after).dropWhile Retain.insideName = after := by
    have whole := List.takeWhile_append_dropWhile (p := Retain.insideName) (l := js "unction" ++ after)
    rw [takes] at whole
    exact List.append_cancel_left whole
  have ended : tokenize after = some [] := by
    have empty := tokenize_blank blank []
    rwa [List.append_nil, tokenize] at empty
  refine ⟨[.name (js "function")], ?_, @Written.union [.name _] [] (@Written.marked [.name _] [] .name rfl) .lone⟩
  rw [split, word, List.append_assoc, tokenize_blank List.all_takeWhile]
  have named : js "function" ++ after = 102 :: (js "unction" ++ after) := rfl
  rw [named, tokenize, if_neg (by decide), drops, takes, ended]
  rfl

theorem parseTypeString_alike (source : JSString) :
    shape (parseTypeString source) = Retain.parseTypeString source ↔ TextAlike source := by
  by_cases type : IsType source
  · obtain ⟨tokens, found, written⟩ := type
    obtain ⟨node, read, parsed⟩ := parseTypeString_type found written
    have spelled := tokenize_spelled found
    by_cases spaced : SpacedPair source
    · refine iff_of_false ?_ fun alike => alike.1 ⟨tokens, found, written⟩ spaced
      have bracket : 91 ∈ source := by
        obtain ⟨before, inside, after, rfl, -⟩ := spaced
        exact List.mem_append_right before List.mem_cons_self
      rw [parsed, readString_untyped fun whole => absurd spaced (lex_unspaced whole)]
      intro same
      cases node with
      | name v =>
        rw [shape, Retain.nameNode] at same
        split at same
        · cases same
        · obtain rfl := Retain.TypeNode.name.inj same
          exact spelled.names ((parse_name _).1 _ _ _ read) bracket
      | unknown =>
        obtain rfl := Retain.TypeNode.name.inj same
        cases bracket
      | array | union | map | optional | function | signature => cases same
    · have whole := tokenize_lex spaced
      rw [found] at whole
      split at whole
      · rename_i ok
        have tokensEq : lex source = (tokens, true) := Prod.ext (Option.some.inj whole).symm ok
        rw [parsed, readString_type tokensEq spelled.length_le read]
        exact iff_of_true rfl ⟨fun _ => spaced, fun other => absurd ⟨tokens, found, written⟩ other⟩
      · cases whole
  · have whole : Retain.parseTypeString source = .name source := by
      refine readString_untyped fun whole written => type ⟨(lex source).1, ?_, written⟩
      rw [tokenize_lex (lex_unspaced whole), if_pos whole]
    have word : trim source ≠ js "function" := fun word => type (isType_function word)
    rw [parseTypeString_untyped type, whole, shape, Retain.nameNode, if_neg word, Retain.TypeNode.name.injEq]
    constructor
    · exact fun same => ⟨fun other => absurd other type, fun _ => same⟩
    · exact fun alike => alike.2 type

/-- The members of a union object. -/
def listed (record : List (JSString × Json)) : Option (List Json) :=
  match Record.get record (js "union") with
  | some (.arr members) => some members
  | _ => none

theorem readObject (record : List (JSString × Json)) :
    Retain.parseTypeRef (.obj record) =
      if (Record.get record (js "function")).isSome then .function
      else match Record.get record (js "optional") with
      | some type => .optional (Retain.parseTypeRef type)
      | none => match Record.get record (js "array") with
        | some type => .array (Retain.parseTypeRef type)
        | none => match Record.get record (js "map") with
          | some type => .map (Retain.parseTypeRef type)
          | none => match listed record with
            | some members => .union (members.map Retain.parseTypeRef)
            | none => .name [] := by
  rw [Retain.parseTypeRef, listed]
  repeat' split
  all_goals simp_all

theorem parseObject (record : List (JSString × Json)) :
    parseTypeRef (.obj record) =
      match Record.get record (js "array") with
      | some type => .array (parseTypeRef type)
      | none => match listed record with
        | some members => .union (members.map parseTypeRef)
        | none => match Record.get record (js "map") with
          | some type => .map (parseTypeRef type)
          | none => match Record.get record (js "optional") with
            | some type => .optional (parseTypeRef type)
            | none => match Record.get record (js "function") with
              | some signature =>
                if isObject signature then
                  .signature
                    (match property signature (js "params") with
                      | some (.arr params) => params.filter isObject
                      | _ => [])
                    ((property signature (js "returns")).map parseTypeRef)
                else .unknown
              | none => .unknown := by
  rw [parseTypeRef, listed]
  repeat' split
  all_goals simp_all

theorem shapes_eq (nodes : List TypeNode) : shapes nodes = nodes.map shape := by
  induction nodes with
  | nil => rfl
  | cons node nodes ih => rw [shapes, ih, List.map_cons]

/-- The references both read alike: no object on the way has keys that the two try in another order, and a function
has an object behind it. -/
inductive ReadAlike : Json → Prop
  | text {source : JSString} : TextAlike source → ReadAlike (.str source)
  | function {record : List (JSString × Json)} {signature : Json} :
      Record.get record (js "function") = some signature → isObject signature = true →
      Record.get record (js "array") = none → listed record = none → Record.get record (js "map") = none →
      Record.get record (js "optional") = none → ReadAlike (.obj record)
  | optional {record : List (JSString × Json)} {type : Json} :
      Record.get record (js "function") = none → Record.get record (js "optional") = some type →
      Record.get record (js "array") = none → listed record = none → Record.get record (js "map") = none →
      ReadAlike type → ReadAlike (.obj record)
  | array {record : List (JSString × Json)} {type : Json} :
      Record.get record (js "function") = none → Record.get record (js "optional") = none →
      Record.get record (js "array") = some type → ReadAlike type → ReadAlike (.obj record)
  | map {record : List (JSString × Json)} {type : Json} :
      Record.get record (js "function") = none → Record.get record (js "optional") = none →
      Record.get record (js "array") = none → listed record = none → Record.get record (js "map") = some type →
      ReadAlike type → ReadAlike (.obj record)
  | union {record : List (JSString × Json)} {members : List Json} :
      Record.get record (js "function") = none → Record.get record (js "optional") = none →
      Record.get record (js "array") = none → Record.get record (js "map") = none → listed record = some members →
      (∀ member ∈ members, ReadAlike member) → ReadAlike (.obj record)
  | bare {record : List (JSString × Json)} :
      Record.get record (js "function") = none → Record.get record (js "optional") = none →
      Record.get record (js "array") = none → Record.get record (js "map") = none → listed record = none →
      ReadAlike (.obj record)
  | other {ref : Json} : (∀ source, ref ≠ .str source) → (∀ record, ref ≠ .obj record) → ReadAlike ref

theorem ReadAlike.same {ref : Json} (alike : ReadAlike ref) : shape (parseTypeRef ref) = Retain.parseTypeRef ref := by
  induction alike with
  | text alike =>
    rw [parseTypeRef, Retain.parseTypeRef]
    exact (parseTypeString_alike _).2 alike
  | function function isObject array union map optional =>
    rw [readObject, parseObject, function, array, union, map, optional]
    simp only [isObject, if_true, Option.isSome_some, shape]
  | optional function optional array union map _ ih =>
    rw [readObject, parseObject, function, optional, array, union, map]
    exact congrArg Retain.TypeNode.optional ih
  | array function optional array _ ih =>
    rw [readObject, parseObject, function, optional, array]
    exact congrArg Retain.TypeNode.array ih
  | map function optional array union map _ ih =>
    rw [readObject, parseObject, function, optional, array, union, map]
    exact congrArg Retain.TypeNode.map ih
  | union function optional array map union _ ih =>
    rw [readObject, parseObject, function, optional, array, map, union]
    simp only [shape, shapes_eq, List.map_map, Option.isSome_none, Bool.false_eq_true, if_false, Retain.TypeNode.union.injEq]
    exact List.map_congr_left ih
  | bare function optional array map union =>
    rw [readObject, parseObject, function, optional, array, map, union]
    rfl
  | @other ref noText noObject =>
    cases ref with
    | str source => exact absurd rfl (noText source)
    | obj record => exact absurd rfl (noObject record)
    | null | bool | num | arr =>
      rw [parseTypeRef.eq_def, Retain.parseTypeRef.eq_def]
      rfl

theorem ReadAlike.of_same (ref : Json) (same : shape (parseTypeRef ref) = Retain.parseTypeRef ref) : ReadAlike ref := by
  induction ref using Retain.parseTypeRef.induct with
  | case1 source =>
    rw [parseTypeRef, Retain.parseTypeRef] at same
    exact .text ((parseTypeString_alike source).1 same)
  | case2 record present =>
    obtain ⟨signature, function⟩ := Option.isSome_iff_exists.mp present
    rw [readObject, parseObject, function] at same
    cases array : Record.get record (js "array") with
    | some => simp [array, shape] at same
    | none =>
      cases union : listed record with
      | some => simp [array, union, shape] at same
      | none =>
        cases map : Record.get record (js "map") with
        | some => simp [array, union, map, shape] at same
        | none =>
          cases optional : Record.get record (js "optional") with
          | some => simp [array, union, map, optional, shape] at same
          | none =>
            cases object : isObject signature with
            | false => simp [array, union, map, optional, object, shape] at same
            | true => exact .function function object array union map optional
  | case3 record absent type optional ih =>
    have function := Option.not_isSome_iff_eq_none.mp absent
    rw [readObject, parseObject, function, optional] at same
    cases array : Record.get record (js "array") with
    | some => simp [array, shape] at same
    | none =>
      cases union : listed record with
      | some => simp [array, union, shape] at same
      | none =>
        cases map : Record.get record (js "map") with
        | some => simp [array, union, map, shape] at same
        | none =>
          refine .optional function optional array union map (ih ?_)
          simpa [array, union, map, shape] using same
  | case4 record absent optional type array ih =>
    have function := Option.not_isSome_iff_eq_none.mp absent
    rw [readObject, parseObject, function, optional, array] at same
    refine .array function optional array (ih ?_)
    simpa [shape] using same
  | case5 record absent optional array type map ih =>
    have function := Option.not_isSome_iff_eq_none.mp absent
    rw [readObject, parseObject, function, optional, array, map] at same
    cases union : listed record with
    | some => simp [union, shape] at same
    | none =>
      refine .map function optional array union map (ih ?_)
      simpa [union, shape] using same
  | case6 record absent optional array map members list ih =>
    have function := Option.not_isSome_iff_eq_none.mp absent
    have union : listed record = some members := by rw [listed, list]
    rw [readObject, parseObject, function, optional, array, map, union] at same
    simp only [shape, shapes_eq, List.map_map, Option.isSome_none, Bool.false_eq_true, if_false,
      Retain.TypeNode.union.injEq] at same
    exact .union function optional array map union fun member among =>
      ih ⟨member, among⟩ (List.map_inj_left.mp same member among)
  | case7 record absent optional array map other =>
    have union : listed record = none := by
      unfold listed
      split
      · rename_i members found
        exact absurd found (other members)
      · rfl
    exact .bare (Option.not_isSome_iff_eq_none.mp absent) optional array map union
  | case8 ref noText noObject => exact .other noText noObject

/-- Where the runtime's reading of a type reference is the validator's. -/
theorem parseTypeRef_agree_iff (ref : Json) :
    shape (parseTypeRef ref) = Retain.parseTypeRef ref ↔ ReadAlike ref :=
  ⟨ReadAlike.of_same ref, ReadAlike.same⟩

/-- White space between the brackets makes an array for one and a name of the whole text for the other. -/
theorem parseTypeRef_spaced : ¬ ∀ ref, shape (parseTypeRef ref) = Retain.parseTypeRef ref := by
  intro agree
  have split : js "Listener[ ]" = 76 :: js "istener[ ]" := rfl
  have takes : (js "istener[ ]").takeWhile Retain.insideName = js "istener" := by decide
  have drops : (js "istener[ ]").dropWhile Retain.insideName = [91, 32, 93] := by decide
  have ended : tokenize [] = some [] := by rw [tokenize]
  have brackets : tokenize [91, 32, 93] = some [.pair] := by
    rw [tokenize, if_neg (by decide)]
    exact congrArg (Option.map (Token.pair :: ·)) ended
  have tokens : tokenize (js "Listener[ ]") = some [.name (js "Listener"), .pair] := by
    rw [split, tokenize, if_neg (by decide), takes, drops, brackets]
    rfl
  have array : parseTypeString (js "Listener[ ]") = .array (.name (js "Listener")) := by
    rw [parseTypeString, tokens]
    rfl
  have verbatim : Retain.parseTypeString (js "Listener[ ]") = .name (js "Listener[ ]") := by rfl
  have same := agree (.str (js "Listener[ ]"))
  rw [parseTypeRef, Retain.parseTypeRef, array, verbatim] at same
  cases same

end TypeRef

end Xript
