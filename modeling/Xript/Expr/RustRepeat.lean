import Xript.Expr.RustInterpolate
import Xript.Fragment.ReadNames

namespace Xript

namespace Rust

/-- The implicit index name, in scope inside every copy. -/
def repeatIndexName : List Char := "$index".toList

def reservedBinderNames : List (List Char) := ["true", "false", "null", "in"].map String.toList

/-- A parsed `data-each` header. -/
structure RepeatHeader where
  item : List Char
  index : Option (List Char)
  source : List Char
  expression : ParsedExpression

def skip (s : List Char) : List Char := s.dropWhile isSpace

/-- The identifier at the start of `s`, and what follows it. -/
def ident : List Char → Option (List Char × List Char)
  | [] => none
  | c :: s => if isNameStart c then some (c :: s.takeWhile isNamePart, s.dropWhile isNamePart) else none

def closeBinders (item : List Char) (index : Option (List Char)) :
    List Char → Except JSString (List Char × Option (List Char) × List Char)
  | ')' :: s => .ok (item, index, skip s)
  | _ => .error (js "expected ')' to close the binder list")

/-- What follows the item name inside of brackets. -/
def readIndexName (item : List Char) : List Char → Except JSString (List Char × Option (List Char) × List Char)
  | ',' :: s =>
    match ident (skip s) with
    | none => .error (js "expected an index name after ','")
    | some (index, s) => closeBinders item (some index) (skip s)
  | s => closeBinders item none s

/-- The binder names of a header and what follows them. -/
def readBinders : List Char → Except JSString (List Char × Option (List Char) × List Char)
  | '(' :: s =>
    match ident (skip s) with
    | none => .error (js "expected an item name after '('")
    | some (item, s) => readIndexName item (skip s)
  | s =>
    match ident s with
    | none => .error (js "expected 'item in expression' or '(item, index) in expression'")
    | some (item, s) =>
      if s.head?.any isSpace then .ok (item, none, skip s) else .error (js "expected whitespace before 'in'")

/-- `in`, which whitespace must follow. -/
def readIn : List Char → Except JSString (List Char)
  | 'i' :: 'n' :: c :: s =>
    if isSpace c then .ok (c :: s) else .error (js "expected 'in' followed by an expression")
  | _ => .error (js "expected 'in' followed by an expression")

def checkBinder (name : List Char) : Except JSString Unit :=
  if name ∈ reservedBinderNames then .error (js "'" ++ utf16 name ++ js "' cannot name a repeat binding") else .ok ()

/-- `parse_repeat_header`. -/
def parseRepeatHeader (source : List Char) : Except JSString RepeatHeader := do
  let (item, index, s) ← readBinders (skip source)
  let s ← readIn s
  checkBinder item
  match index with
  | none => pure ()
  | some index =>
    checkBinder index
    if index = item then .error (js "the item and index cannot share the name '" ++ utf16 item ++ js "'")
  let rest := (skip s).rdropWhile isSpace
  if rest = [] then .error (js "expected an expression after 'in'")
  else
    match parseWithLimit defaultMaxExpressionNodes rest with
    | .error e => .error e.message
    | .ok expression => return ⟨item, index, rest, expression⟩

/-- `evaluate_repeat_items`; `none` is a panic. -/
def evaluateRepeatItems (formatNumber : F64 → JSString) (formatFixed : F64 → Nat → JSString)
    (bindings : List (List Char × Value)) (header : RepeatHeader) : Option (List Value) :=
  (eval formatNumber formatFixed bindings header.expression.ast).map fun
    | .arr items => items
    | _ => []

/-- `HashMap::insert`: the latest value of a name is the one that is found. -/
def insert (name : List Char) (value : Value) (bindings : List (List Char × Value)) : List (List Char × Value) :=
  (name, value) :: bindings

def repeatScope (bindings : List (List Char × Value)) (header : RepeatHeader) (item : Value) (index : Nat) :
    List (List Char × Value) :=
  let position := Value.number (F64.ofNat index)
  let scope := insert header.item item (insert repeatIndexName position bindings)
  match header.index with
  | none => scope
  | some name => insert name position scope

/-- The header as TypeScript holds it. -/
def RepeatHeader.units (header : RepeatHeader) : Xript.RepeatHeader :=
  ⟨utf16 header.item, header.index.map utf16, utf16 header.source, header.expression⟩

theorem skip_units (s : List Char) : utf16 (skip s) = skipHeaderSpace (utf16 s) := by
  have same : isSpace = fun c => isExprSpace c.toNat := funext rust_isSpace_eq
  rw [skip, same, skipHeaderSpace, (takeWhile_utf16 ascii_isExprSpace s).2]

theorem rdropWhile_units (s : List Char) : utf16 (s.rdropWhile isSpace) = (utf16 s).rdropWhile isExprSpace := by
  induction s using List.reverseRecOn with
  | nil => rfl
  | append_singleton s c ih =>
    have one : utf16 [c] = unitsOf c.toNat := by rw [utf16_cons, utf16_nil, List.append_nil]
    rw [List.rdropWhile_concat, rust_isSpace_eq]
    rcases unitsOf_cases c with single | ⟨hi, lo, pair, high, low⟩
    · rw [utf16_append, one, single, List.rdropWhile_concat]
      split
      · exact ih
      · rw [utf16_append, one, single]
    · have last : isExprSpace lo = false :=
        Bool.eq_false_iff.mpr fun space => absurd (ascii_isExprSpace lo space) (by omega)
      have solid : isExprSpace c.toNat = false := by
        refine Bool.eq_false_iff.mpr fun space => ?_
        rw [unitsOf_ascii (ascii_isExprSpace _ space)] at pair
        cases pair
      rw [solid, if_neg Bool.false_ne_true, utf16_append, one, pair, show [hi, lo] = [hi] ++ [lo] from rfl,
        ← List.append_assoc, List.rdropWhile_concat, last, if_neg Bool.false_ne_true]

theorem ident_units (s : List Char) : (ident s).map (fun r => (utf16 r.1, utf16 r.2)) = takeIdent (utf16 s) := by
  cases s with
  | nil => rfl
  | cons c s =>
    have same : isNamePart = fun c => isIdentPart c.toNat := funext isNamePart_eq
    rw [ident, isNameStart_eq]
    cases start : isIdentStart c.toNat with
    | true =>
      obtain ⟨taken, dropped⟩ := takeWhile_utf16 ascii_isIdentPart s
      have part : isIdentPart c.toNat = true := by
        rw [isIdentPart]
        rw [isIdentStart] at start
        simp only [Bool.or_eq_true] at start ⊢
        tauto
      rw [utf16_cons_ascii (ascii_isIdentStart _ start), takeIdent, start, if_pos rfl, if_pos rfl, Option.map_some,
        List.takeWhile_cons_of_pos part, List.dropWhile_cons_of_pos part, taken, dropped, same,
        utf16_cons_ascii (ascii_isIdentStart _ start)]
    | false =>
      obtain ⟨u, t, units, ascii, -⟩ := utf16_head c s
      rw [units, takeIdent, ascii _ ascii_isIdentStart, start]
      rfl

/-- No text starts with the unit of an ASCII character that it does not start with. -/
theorem not_starts {c : Char} (ascii : c.toNat < 128) {s : List Char} (plain : ∀ t, s = c :: t → False) (t : JSString)
    (same : utf16 s = c.toNat :: t) : False := by
  obtain ⟨d, r, rfl, equal, -⟩ := utf16_eq_cons same ascii
  exact plain r (by rw [char_eq equal])

/-- What the binders of a header are read as, as TypeScript holds it. -/
def bindersUnits (r : List Char × Option (List Char) × List Char) : JSString × Option JSString × JSString :=
  (utf16 r.1, r.2.1.map utf16, utf16 r.2.2)

theorem closeBinders_units (item : List Char) (index : Option (List Char)) (s : List Char) :
    (closeBinders item index s).map bindersUnits = Xript.closeBinders (utf16 item) (index.map utf16) (utf16 s) := by
  fun_cases closeBinders item index s with
  | case1 s =>
    show Except.ok (utf16 item, index.map utf16, utf16 (skip s)) =
      Xript.closeBinders (utf16 item) (index.map utf16) (41 :: utf16 s)
    rw [skip_units, Xript.closeBinders]
  | case2 s plain =>
    rw [Xript.closeBinders]
    · rfl
    · exact not_starts (c := ')') (by decide) plain

theorem head_space (s : List Char) : (s.head?.any isSpace) = ((utf16 s).head?.any isExprSpace) := by
  cases s with
  | nil => rfl
  | cons c s =>
    obtain ⟨u, t, units, ascii, -⟩ := utf16_head c s
    rw [units, List.head?_cons, List.head?_cons, Option.any_some, Option.any_some, ascii _ ascii_isExprSpace,
      rust_isSpace_eq]

theorem readBinders_units (s : List Char) : (readBinders s).map bindersUnits = Xript.readBinders (utf16 s) := by
  fun_cases readBinders s with
  | case1 s none =>
    show _ = Xript.readBinders (40 :: utf16 s)
    rw [Xript.readBinders, ← skip_units, ← ident_units, none]
    rfl
  | case2 s item t found =>
    show _ = Xript.readBinders (40 :: utf16 s)
    rw [Xript.readBinders, ← skip_units, ← ident_units, found]
    simp only [Option.map_some, ← skip_units]
    generalize skip t = r
    fun_cases readIndexName item r with
    | case1 s none =>
      rw [show utf16 (',' :: s) = 44 :: utf16 s from rfl]
      simp only [← skip_units, ← ident_units, none, Option.map_none]
      rfl
    | case2 s index t found =>
      rw [show utf16 (',' :: s) = 44 :: utf16 s from rfl]
      simp only [← skip_units, ← ident_units, found, Option.map_some]
      exact closeBinders_units item (some index) (skip t)
    | case3 r plain =>
      split
      · rename_i t same
        exact (not_starts (c := ',') (by decide) plain t same).elim
      · exact closeBinders_units item none r
  | case3 s plain none =>
    rw [Xript.readBinders, ← ident_units, none]
    · rfl
    · exact not_starts (c := '(') (by decide) plain
  | case4 s plain item t found space =>
    rw [Xript.readBinders, ← ident_units, found]
    · rw [Option.map_some]
      dsimp only
      rw [← head_space, if_pos space, ← skip_units]
      rfl
    · exact not_starts (c := '(') (by decide) plain
  | case5 s plain item t found solid =>
    rw [Xript.readBinders, ← ident_units, found]
    · rw [Option.map_some]
      dsimp only
      rw [← head_space, if_neg solid]
      rfl
    · exact not_starts (c := '(') (by decide) plain

theorem readIn_units (s : List Char) : (readIn s).map utf16 = Xript.readIn (utf16 s) := by
  fun_cases readIn s with
  | case1 c s space =>
    rw [rust_isSpace_eq] at space
    have units := utf16_cons_ascii (ascii_isExprSpace _ space) s
    show Except.ok (utf16 (c :: s)) = Xript.readIn (105 :: 110 :: utf16 (c :: s))
    rw [units, Xript.readIn, if_pos space]
  | case2 c s solid =>
    obtain ⟨u, t, units, ascii, -⟩ := utf16_head c s
    rw [rust_isSpace_eq, ← ascii _ ascii_isExprSpace] at solid
    show _ = Xript.readIn (105 :: 110 :: utf16 (c :: s))
    rw [units, Xript.readIn, if_neg solid]
    rfl
  | case3 s plain =>
    rw [Xript.readIn]
    · rfl
    · intro u t same
      obtain ⟨i, r, rfl, first, rest⟩ := utf16_eq_cons same (by decide)
      obtain ⟨n, q, rfl, second, last⟩ := utf16_eq_cons rest (by decide)
      cases q with
      | nil => cases last
      | cons c q => exact plain c q (by rw [char_eq (d := 'i') first, char_eq (d := 'n') second])

theorem checkBinder_units (name : List Char) : checkBinder name = Xript.checkBinder (utf16 name) := by
  have injective : Function.Injective utf16 := fun _ _ => utf16_inj.mp
  have listed : Xript.reservedBinderNames = reservedBinderNames.map utf16 := rfl
  have reserved : utf16 name ∈ Xript.reservedBinderNames ↔ name ∈ reservedBinderNames := by
    rw [listed, List.mem_map_of_injective injective]
  rw [checkBinder, Xript.checkBinder]
  simp only [reserved]

theorem parseRepeatHeader_cases (source : List Char) :
    (∃ e e', Xript.parseRepeatHeader (utf16 source) = .error e ∧ parseRepeatHeader source = .error e') ∨
      ∃ header, parseRepeatHeader source = .ok header ∧ Xript.parseRepeatHeader (utf16 source) = .ok header.units := by
  rw [parseRepeatHeader, Xript.parseRepeatHeader, ← skip_units, ← readBinders_units]
  cases readBinders (skip source) with
  | error e => exact .inl ⟨e, e, rfl, rfl⟩
  | ok r =>
    obtain ⟨item, index, s⟩ := r
    simp only [Except.map, bind, Except.bind, bindersUnits]
    rw [← readIn_units]
    cases readIn s with
    | error e => exact .inl ⟨e, e, rfl, rfl⟩
    | ok t =>
      simp only [Except.map]
      rw [← checkBinder_units]
      cases checkBinder item with
      | error e => exact .inl ⟨e, e, rfl, rfl⟩
      | ok u =>
        obtain ⟨rest, same⟩ : ∃ rest, (skip t).rdropWhile isSpace = rest := ⟨_, rfl⟩
        have units : (skipHeaderSpace (utf16 t)).rdropWhile isExprSpace = utf16 rest := by
          rw [← skip_units, ← rdropWhile_units, same]
        rcases index with _ | index
        case' some =>
          simp only [Option.map_some]
          rw [← checkBinder_units]
          rcases checkBinder index with e | u
          · exact .inl ⟨e, e, rfl, rfl⟩
          by_cases equal : index = item
          · simp only [if_pos equal, if_pos (congrArg utf16 equal)]
            exact .inl ⟨_, _, rfl, rfl⟩
          simp only [if_neg equal, if_neg fun both => equal (utf16_inj.mp both)]
        -- what follows `in` is read alike, with an index name or without one
        all_goals
          simp only [same, units]
          by_cases empty : rest = []
          · simp only [if_pos empty, if_pos (utf16_eq_nil.mpr empty)]
            exact .inl ⟨_, _, rfl, rfl⟩
          · simp only [if_neg empty, if_neg fun none => empty (utf16_eq_nil.mp none)]
            rcases parse_cases defaultMaxExpressionNodes rest with ⟨e, e', ours, theirs⟩ | ⟨parsed, ours, theirs⟩
            · rw [ours, theirs]
              exact .inl ⟨_, _, rfl, rfl⟩
            · rw [ours, theirs]
              exact .inr ⟨⟨item, _, rest, parsed⟩, rfl, rfl⟩

theorem member_insert (name : List Char) (value : Value) (entries : List (List Char × Value)) (x : JSString) :
    member (insert name value entries) x = if x = utf16 name then X.fromJson value else member entries x := by
  by_cases same : x = utf16 name
  · subst same
    have spelled : keyString (utf16 name) = some name := by
      rw [keyString, fromUtf16Lossy_utf16, if_pos rfl]
    rw [if_pos rfl, member, spelled, Option.bind_some, insert, List.lookup_cons_self]
    rfl
  · rw [if_neg same, member, member]
    cases spelled : keyString x with
    | none => rfl
    | some key =>
      have other : (key == name) = false := by
        rw [beq_eq_false_iff_ne]
        rintro rfl
        rw [keyString] at spelled
        split at spelled
        · rename_i whole
          cases spelled
          exact same whole.symm
        · cases spelled
      rw [Option.bind_some, Option.bind_some, insert, List.lookup_cons, other]

mutual

/-- Normalizing a value of the language changes nothing. -/
theorem toExprValue_again : ∀ value : JsValue, toExprValue (hostValue (toExprValue value)) = toExprValue value
  | .undefined | .null | .func _ _ | .bool _ | .str _ => rfl
  | .num x => by
    rw [toExprValue]
    by_cases finite : x.isFinite = true
    · rw [if_pos finite, hostValue, toExprValue, if_pos finite]
    · rw [if_neg finite]
      rfl
  | .arr items => congrArg Json.arr (toExprItems_again items)
  | .obj members => congrArg Json.obj (toExprMembers_again members)

theorem toExprItems_again : ∀ items : List JsValue, toExprItems (hostItems (toExprItems items)) = toExprItems items
  | [] => rfl
  | item :: items => by
    rw [toExprItems, hostItems, toExprItems, toExprValue_again item, toExprItems_again items]

theorem toExprMembers_again : ∀ members : List (JSString × JsValue),
    toExprMembers (hostMembers (toExprMembers members)) = toExprMembers members
  | [] => rfl
  | (key, value) :: members => by
    rw [toExprMembers]
    by_cases dropped : key ∈ forbiddenPropNames
    · rw [if_pos dropped]
      exact toExprMembers_again members
    · rw [if_neg dropped, hostMembers, toExprMembers, if_neg dropped, toExprValue_again value,
        toExprMembers_again members]

end

section

variable {entries : List (List Char × Value)} {bindings : Bindings} (agree : BindingsAlike entries bindings)

include agree

theorem BindingsAlike.insert (name : List Char) {value : Value} {other : JsValue}
    (alike : Alike (X.fromJson value) (toExprValue other)) :
    BindingsAlike (insert name value entries) { bindings with own := Record.set bindings.own (utf16 name) other } := by
  intro x
  rw [member_insert, Record.get_set]
  by_cases same : x = utf16 name
  · rw [if_pos same, if_pos same]
    exact alike
  · rw [if_neg same, if_neg same]
    exact agree x

/-- The scope of a copy: where both enclosing scopes are alike, so are these. -/
theorem repeatScope_alike (header : RepeatHeader) (value : Value) (index : Nat) :
    BindingsAlike (repeatScope entries header (scrub value) index)
      (Xript.repeatScope bindings header.units (exprOf value) index) := by
  have position : Alike (X.fromJson (.number (F64.ofNat index))) (toExprValue (.num (F64.ofNat index))) :=
    alike_fromJson (.number (F64.ofNat index))
  have item : Alike (X.fromJson (scrub value)) (toExprValue (hostValue (exprOf value))) := by
    rw [fromJson_scrub, toExprValue_again]
    exact alike_fromJson value
  have scope := (agree.insert repeatIndexName position).insert header.item item
  cases named : header.index with
  | none =>
    simp only [repeatScope, Xript.repeatScope, RepeatHeader.units, named, Option.map_none]
    exact scope
  | some name =>
    simp only [repeatScope, Xript.repeatScope, RepeatHeader.units, named, Option.map_some]
    exact scope.insert name position

theorem evaluateRepeatItems_alike {header : RepeatHeader} (admitted : header.expression.ast.Admitted)
    (short : ∀ part ∈ header.expression.ast.parts, Short (Xript.evaluateAst bindings part)) :
    ∃ items : List Value, evaluateRepeatItems F64.toText F64.toFixed entries header = some (items.map scrub) ∧
      Xript.evaluateRepeatItems header.units bindings = items.map exprOf := by
  obtain ⟨value, other, ours, theirs, alike⟩ := eval_answers agree admitted short
  rw [evaluateRepeatItems, Xript.evaluateRepeatItems, RepeatHeader.units, ours, Xript.evaluateAst, theirs]
  cases alike with
  | arr items => exact ⟨items, congrArg some (scrubItems_map items), exprItems_map items⟩
  | null | bool | num | str | obj => exact ⟨[], rfl, rfl⟩

end

end Rust

/-- Both runtimes read a `data-each` header alike and repeat it over the same items, in scopes that hold alike values under
the same names: so an expression inside of any nest of copies evaluates alike again. -/
theorem parseRepeatHeader_rust (source : List Char) :
    (∃ e e', parseRepeatHeader (utf16 source) = .error e ∧ Rust.parseRepeatHeader source = .error e') ∨
    ∃ header, Rust.parseRepeatHeader source = .ok header ∧ parseRepeatHeader (utf16 source) = .ok header.units ∧
      ∀ entries bindings, Rust.BindingsAlike entries bindings →
        (∀ part ∈ header.expression.ast.parts, Rust.Short (evaluateAst bindings part)) →
        ∃ items : List Rust.Value,
          Rust.evaluateRepeatItems F64.toText F64.toFixed entries header = some (items.map Rust.scrub) ∧
          evaluateRepeatItems header.units bindings = items.map Rust.exprOf ∧
          ∀ value ∈ items, ∀ index, Rust.BindingsAlike (Rust.repeatScope entries header (Rust.scrub value) index)
            (repeatScope bindings header.units (Rust.exprOf value) index) := by
  rcases Rust.parseRepeatHeader_cases source with failed | ⟨header, ours, theirs⟩
  · exact .inl failed
  · obtain ⟨toks, -, derives, -, -⟩ := parseExpression_eq_ok.1 (parseRepeatHeader_expression theirs)
    refine .inr ⟨header, ours, theirs, fun entries bindings agree short => ?_⟩
    obtain ⟨items, mine, its⟩ := Rust.evaluateRepeatItems_alike agree derives.admitted short
    exact ⟨items, mine, its, fun value _ index => Rust.repeatScope_alike agree header value index⟩

end Xript
