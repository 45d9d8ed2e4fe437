import Xript.Expr.EvalReads
import Xript.Fragment.Bind
import Xript.Sanitize.Fragment

namespace Xript

inductive ExpressionSurface where
  | condition
  | bind
  | each
  | key
  | interpolation
  deriving DecidableEq

/-- A place in a fragment that holds an expression; `scope` has the names that the repeats around it bind. -/
structure ExpressionSite where
  surface : ExpressionSurface
  path : JSString
  source : JSString
  parsed : Option ParsedExpression
  error : Option JSString
  scope : List JSString

def site (surface : ExpressionSurface) (path source : JSString) (scope : List JSString) : ExpressionSite :=
  match parseExpression defaultMaxExpressionNodes source with
  | .ok parsed => ⟨surface, path, source, some parsed, none, scope⟩
  | .error e => ⟨surface, path, source, none, some e.message, scope⟩

/-- The header's expression is read in the enclosing scope, not its own. -/
def repeatSite (path source : JSString) (outer : List JSString) : ExpressionSite :=
  match parseRepeatHeader source with
  | .ok header => ⟨.each, path, source, some header.expression, none, outer⟩
  | .error message => ⟨.each, path, source, none, some message, outer⟩

/-- The names a node's `data-each` brings into scope for itself and its subtree. -/
def repeatScopeOf (props : Props) (outer : List JSString) : List JSString :=
  match (stringProp props "data-each").map parseRepeatHeader with
  | some (.ok header) => addNames outer (repeatIndexName :: header.item :: header.index.toList)
  | _ => outer

/-- The site that a prop is, where it holds a string. -/
def propSite (surface : ExpressionSurface) (props : Props) (name : String) (path : JSString) (scope : List JSString) :
    List ExpressionSite :=
  (stringProp props name).toList.map fun source => site surface path source scope

def pieceSite (path : JSString) (scope : List JSString) : TextSegment → Option ExpressionSite
  | .literal _ => none
  | .expr source => some (site .interpolation path source scope)

/-- The sites of an element's own props. -/
def ownSites (props : Props) (path : JSString) (outer : List JSString) : List ExpressionSite :=
  let scope := repeatScopeOf props outer
  (match stringProp props "data-each" with
    | some each => repeatSite path each outer :: propSite .key props "data-key" path scope
    | none => []) ++
    propSite .condition props "data-if" path scope ++ propSite .bind props "data-bind" path scope

mutual

def nodeSites (interpolate : Bool) (path : JSString) (outer : List JSString) : FragmentNode → List ExpressionSite
  | .text _ segments => if interpolate = false then [] else (segments.getD []).filterMap (pieceSite path outer)
  | .element _ props children _ =>
    ownSites props path outer ++ visitSites interpolate path (repeatScopeOf props outer) 0 children

def visitSites (interpolate : Bool) (path : JSString) (outer : List JSString) (index : Nat) :
    List FragmentNode → List ExpressionSite
  | [] => []
  | node :: nodes =>
    nodeSites interpolate (childPath path index) outer node ++ visitSites interpolate path outer (index + 1) nodes

end

def collectSites (tree : FragmentTree) (interpolate : Bool) : List ExpressionSite := visitSites interpolate [] [] 0 tree

/-- The names a site reads that no repeat around it binds. -/
def ExpressionSite.free (s : ExpressionSite) : List JSString :=
  (s.parsed.elim [] ParsedExpression.names).filter (· ∉ s.scope)

structure FragmentReadOptions where
  interpolate : Bool
  formats : Option (Record (Option RawFormat))
  vocabularies : Option (Record (Option (Option RawNodes)))

/-- The binding names a fragment's expressions read, in first-read order. -/
def fragmentReadNames (source format : JSString) (options : FragmentReadOptions) : List JSString :=
  match resolveFormatProfile format options.formats options.vocabularies with
  | .ok (some profile) =>
    match sanitizeFragment source profile ⟨false, options.interpolate⟩ with
    | .ok fragment => addNames [] ((collectSites fragment.tree options.interpolate).flatMap ExpressionSite.free)
    | .error _ => []
  | .ok none | .error _ => []

/-- Whether a `data-bind`, if there is one, parses as an expression. -/
def bindParses (props : Props) : Bool :=
  (stringProp props "data-bind").all fun body => (parseExpression defaultMaxExpressionNodes body).isOk

mutual

/-- Whether every `data-bind` of a node parses as an expression. -/
def bindsParseIn : FragmentNode → Bool
  | .text _ _ => true
  | .element _ props children _ => bindParses props && bindsParse children

def bindsParse : List FragmentNode → Bool
  | [] => true
  | node :: nodes => bindsParseIn node && bindsParse nodes

end

section

variable {first second : Bindings} {names scope : List JSString}

/-- The names that a site leaves free are among some names. -/
def ExpressionSite.FreeIn (names : List JSString) (s : ExpressionSite) : Prop := ∀ x ∈ s.free, x ∈ names

theorem ExpressionSite.FreeIn.agree {s : ExpressionSite} (free : s.FreeIn names) {parsed : ParsedExpression}
    (read : s.parsed = some parsed) (outside : AgreeOn names first second) (inside : AgreeOn s.scope first second) :
    AgreeOn parsed.names first second := by
  intro x member
  by_cases bound : x ∈ s.scope
  · exact inside x bound
  · refine outside x (free x (List.mem_filter.mpr ⟨?_, by simpa using bound⟩))
    rw [read]
    exact member

theorem evaluateAst_agree {source : JSString} {parsed : ParsedExpression}
    (parses : parseExpression defaultMaxExpressionNodes source = .ok parsed) (agree : AgreeOn parsed.names first second) :
    evaluateAst first parsed.ast = evaluateAst second parsed.ast :=
  (evaluateAst_reads_names _ source parsed parses).1 first second agree

theorem site_parsed {surface : ExpressionSurface} {path source : JSString} {parsed : ParsedExpression}
    (parses : parseExpression defaultMaxExpressionNodes source = .ok parsed) (scope : List JSString) :
    site surface path source scope = ⟨surface, path, source, some parsed, none, scope⟩ := by
  rw [site, parses]

variable (outside : AgreeOn names first second) (inside : AgreeOn scope first second)
include outside inside

theorem site_agree {surface : ExpressionSurface} {path source : JSString} {parsed : ParsedExpression}
    (parses : parseExpression defaultMaxExpressionNodes source = .ok parsed)
    (free : (site surface path source scope).FreeIn names) : AgreeOn parsed.names first second := by
  rw [site_parsed parses] at free
  exact free.agree rfl outside inside

theorem evaluateExpression_agree {surface : ExpressionSurface} {path source : JSString}
    (free : (site surface path source scope).FreeIn names) :
    evaluateExpression first source = evaluateExpression second source := by
  unfold evaluateExpression
  cases parses : parseExpression defaultMaxExpressionNodes source with
  | error e => rfl
  | ok parsed => exact evaluateAst_agree parses (site_agree outside inside parses free)

theorem resolveSegments_agree {path : JSString} {segments : List TextSegment}
    (free : ∀ s ∈ segments.filterMap (pieceSite path scope), s.FreeIn names) :
    resolveSegments segments first = resolveSegments segments second := by
  unfold resolveSegments
  refine List.flatMap_congr fun segment member => ?_
  cases segment with
  | literal value => rfl
  | expr source =>
    have own := free _ (List.mem_filterMap.mpr ⟨.expr source, member, rfl⟩)
    exact congrArg renderValue (evaluateExpression_agree outside inside own)

theorem bindValue_agree {path source : JSString} (parses : (parseExpression defaultMaxExpressionNodes source).isOk = true)
    (free : (site .bind path source scope).FreeIn names) : bindValue source first = bindValue source second := by
  unfold bindValue
  cases read : parseExpression defaultMaxExpressionNodes source with
  | error e =>
    rw [read] at parses
    cases parses
  | ok parsed =>
    have agree := site_agree outside inside read free
    obtain ⟨toks, -, -, -, same⟩ := parseExpression_eq_ok.1 read
    have listed : parsed.names = addNames [] parsed.ast.reads := by rw [same]
    dsimp only
    split
    next x ast =>
      have member : x ∈ parsed.names := by
        rw [listed, ast, ExprAst.reads]
        exact List.mem_singleton_self x
      rw [ownText, ownText, agree x member]
    next => rw [evaluateAst_agree read agree]

theorem reportCondition_agree {path : JSString} {props : Props}
    (free : ∀ s ∈ propSite .condition props "data-if" path scope, s.FreeIn names) (place : List Nat) (st : BindState) :
    reportCondition props first place st = reportCondition props second place st := by
  unfold reportCondition
  unfold propSite at free
  cases prop : stringProp props "data-if" with
  | none => rfl
  | some condition =>
    rw [prop] at free
    have own := free _ (List.mem_singleton_self _)
    simp only [evaluateCondition, evaluateExpression_agree outside inside own]

theorem writeBinding_agree {path : JSString} {props : Props} (parses : bindParses props = true)
    (free : ∀ s ∈ propSite .bind props "data-bind" path scope, s.FreeIn names) (profile : FormatProfile) (name : JSString)
    (children : List FragmentNode) (selfClosing : Bool) (place : List Nat) (st : BindState) :
    writeBinding profile name props children selfClosing first place st =
      writeBinding profile name props children selfClosing second place st := by
  have same : ((stringProp props "data-bind").bind fun source => bindValue source first) =
      (stringProp props "data-bind").bind fun source => bindValue source second := by
    unfold propSite at free
    unfold bindParses at parses
    cases prop : stringProp props "data-bind" with
    | none => rfl
    | some body =>
      rw [prop] at free parses
      exact bindValue_agree outside inside parses (free _ (List.mem_singleton_self _))
  rw [writeBinding, writeBinding, same]

theorem bindElement_agree {path : JSString} {props : Props} (parses : bindParses props = true)
    (condition : ∀ s ∈ propSite .condition props "data-if" path scope, s.FreeIn names)
    (bind : ∀ s ∈ propSite .bind props "data-bind" path scope, s.FreeIn names) (profile : FormatProfile)
    {kidsFirst kidsSecond : BindState → List FragmentNode × BindState} (kids : ∀ st, kidsFirst st = kidsSecond st)
    (name : JSString) (selfClosing : Bool) (place : List Nat) (st : BindState) :
    bindElement profile kidsFirst name props selfClosing first place st =
      bindElement profile kidsSecond name props selfClosing second place st := by
  rw [bindElement, bindElement, kids]
  simp only
  rw [reportCondition_agree outside inside condition, writeBinding_agree outside inside parses bind]

end

/-- A header's expression is what its source parses to. -/
theorem parseRepeatHeader_expression {source : JSString} {header : RepeatHeader}
    (parsed : parseRepeatHeader source = .ok header) :
    parseExpression defaultMaxExpressionNodes header.source = .ok header.expression := by
  unfold parseRepeatHeader at parsed
  obtain ⟨⟨item, index, s⟩, -, parsed⟩ := ok_of_bind parsed
  obtain ⟨rest, -, parsed⟩ := ok_of_bind parsed
  obtain ⟨-, -, parsed⟩ := ok_of_bind parsed
  dsimp only at parsed
  split at parsed
  on_goal 2 =>
    obtain ⟨-, -, parsed⟩ := ok_of_bind parsed
    split at parsed
    · cases parsed
  all_goals
    split at parsed
    · cases parsed
    · split at parsed
      · cases parsed
      next found =>
        cases parsed
        exact found

/-- The names a header binds in each copy. -/
def RepeatHeader.binders (header : RepeatHeader) : List JSString := repeatIndexName :: header.item :: header.index.toList

theorem repeatScope_agree {first second : Bindings} {header : RepeatHeader} {x : JSString}
    (same : x ∈ header.binders ∨ Record.get first.own x = Record.get second.own x) (item : ExprValue) (index : Nat) :
    Record.get (repeatScope first header item index).own x = Record.get (repeatScope second header item index).own x := by
  unfold repeatScope
  unfold RepeatHeader.binders at same
  cases named : header.index with
  | none =>
    rw [named] at same
    simp only [Record.get_set]
    split_ifs <;> simp_all
  | some index =>
    rw [named] at same
    simp only [Record.get_set]
    split_ifs <;> simp_all

theorem repeatScopeOf_some {props : Props} {each : JSString} {header : RepeatHeader}
    (template : stringProp props "data-each" = some each) (parsed : parseRepeatHeader each = .ok header)
    (outer : List JSString) : repeatScopeOf props outer = addNames outer header.binders := by
  rw [repeatScopeOf, template, Option.map_some, parsed]
  rfl

theorem stringProp_filter {props : Props} {keep : JSString × PropValue → Bool} {name : String}
    (kept : ∀ value, keep (js name, value) = true) : stringProp (props.filter keep) name = stringProp props name := by
  have same : Record.get (props.filter keep) (js name) = Record.get props (js name) := by
    induction props with
    | nil => rfl
    | cons entry props ih =>
      obtain ⟨key, value⟩ := entry
      by_cases own : js name = key
      · subst own
        rw [List.filter_cons_of_pos (kept value), Record.get_cons, Record.get_cons, if_pos rfl, if_pos rfl]
      · rw [Record.get_cons, if_neg own, ← ih]
        by_cases keeps : keep (key, value) = true
        · rw [List.filter_cons_of_pos keeps, Record.get_cons, if_neg own]
        · rw [List.filter_cons_of_neg keeps]
  rw [stringProp, stringProp, same]

theorem bindCopies_agree {α : Type} {bindCopy : Bindings → RepeatKey → Nat → BindState → FragmentNode × BindState}
    {scopeFirst scopeSecond : α → Bindings} {items : List α}
    (same : ∀ item ∈ items, ∀ key out st, bindCopy (scopeFirst item) key out st = bindCopy (scopeSecond item) key out st)
    (keys : List RepeatKey) (out : Nat) (st : BindState) :
    bindCopies bindCopy ((items.map scopeFirst).zip keys) out st =
      bindCopies bindCopy ((items.map scopeSecond).zip keys) out st := by
  induction items generalizing keys out st with
  | nil => rfl
  | cons item items ih =>
    cases keys with
    | nil => rfl
    | cons key keys =>
      rw [List.map_cons, List.map_cons, List.zip_cons_cons, List.zip_cons_cons, bindCopies, bindCopies,
        same item (List.mem_cons_self ..)]
      simp only
      rw [ih fun other member => same other (List.mem_cons_of_mem _ member)]

theorem mem_addNames {names reads : List JSString} {x : JSString} : x ∈ addNames names reads ↔ x ∈ names ∨ x ∈ reads := by
  induction reads generalizing names with
  | nil => simp
  | cons y reads ih =>
    rw [addNames, List.foldl_cons]
    refine ih.trans ?_
    split_ifs with present
    · rw [List.mem_cons]
      exact ⟨fun either => either.imp_right Or.inr, fun either => by grind⟩
    · rw [List.mem_append, List.mem_singleton, List.mem_cons, or_assoc]

section

variable {names scope : List JSString}

/-- The copies of a template come out the same: its header is read outside of it, and its own sites and its children
with what the header binds in a copy. -/
theorem expandRepeat_agree {first second : Bindings} (outside : AgreeOn names first second)
    (inside : AgreeOn scope first second) {path each name : JSString} {props : Props} (parses : bindParses props = true)
    (template : stringProp props "data-each" = some each) (free : ∀ s ∈ ownSites props path scope, s.FreeIn names)
    (profile : FormatProfile) (previous : Option RepeatState)
    {bindKids : Bindings → List Nat → List RepeatKey → BindState → List FragmentNode × BindState}
    (kids : ∀ a b, AgreeOn names a b → AgreeOn (repeatScopeOf props scope) a b →
      ∀ place within st, bindKids a place within st = bindKids b place within st)
    (selfClosing : Bool) (parentPath source : List Nat) (within : List RepeatKey) (out : Nat) (st : BindState) :
    expandRepeat profile previous bindKids each name props selfClosing first parentPath source within out st =
      expandRepeat profile previous bindKids each name props selfClosing second parentPath source within out st := by
  simp only [ownSites, template, List.mem_append, List.mem_cons] at free
  unfold expandRepeat
  cases parsed : parseRepeatHeader each with
  | error message => rfl
  | ok header =>
    have scopeIn := repeatScopeOf_some template parsed scope
    -- The header's expression is read in the enclosing scope.
    have headerFree := free _ (.inl (.inl (.inl rfl)))
    rw [repeatSite, parsed] at headerFree
    have items : evaluateRepeatItems header first = evaluateRepeatItems header second := by
      unfold evaluateRepeatItems
      rw [evaluateAst_agree (parseRepeatHeader_expression parsed) (headerFree.agree rfl outside inside)]
    simp only [Except.toOption, Option.elim_some, items]
    generalize takeItems name source (evaluateRepeatItems header second) st = taken
    -- In a copy its own names agree beside the enclosing ones.
    have copies : ∀ entry : ExprValue × Nat,
        AgreeOn names (repeatScope first header entry.1 entry.2) (repeatScope second header entry.1 entry.2) ∧
          AgreeOn (repeatScopeOf props scope) (repeatScope first header entry.1 entry.2)
            (repeatScope second header entry.1 entry.2) := by
      intro entry
      refine ⟨fun x member => repeatScope_agree (.inr (outside x member)) _ _, fun x member => ?_⟩
      rw [scopeIn] at member
      rcases mem_addNames.mp member with outer | bound
      · exact repeatScope_agree (.inr (inside x outer)) _ _
      · exact repeatScope_agree (.inl bound) _ _
    have keys : resolveCopies (stringProp props "data-key")
          (taken.1.zipIdx.map fun entry => repeatScope first header entry.1 entry.2) =
        resolveCopies (stringProp props "data-key")
          (taken.1.zipIdx.map fun entry => repeatScope second header entry.1 entry.2) := by
      unfold resolveCopies
      cases prop : stringProp props "data-key" with
      | none => simp only [List.length_map]
      | some keySource =>
        have keyFree := free (site .key path keySource (repeatScopeOf props scope)) (.inl (.inl (.inr (by
          rw [propSite, prop]
          exact List.mem_singleton_self _))))
        simp only [List.map_map]
        refine congrArg (resolveRepeatKeys ∘ some) (List.map_congr_left fun entry _ => ?_)
        exact evaluateExpression_agree (copies entry).1 (copies entry).2 keyFree
    rw [keys]
    simp only [List.length_map]
    refine bindCopies_agree (fun entry _ key position st => ?_) _ _ _
    obtain ⟨around, within⟩ := copies entry
    have own : ∀ prop : String, js prop ≠ js "data-each" ∧ js prop ≠ js "data-key" →
        stringProp (props.filter fun entry => entry.1 ≠ js "data-each" ∧ entry.1 ≠ js "data-key") prop =
          stringProp props prop := fun prop apart => stringProp_filter fun _ => by simpa using apart
    have sites : ∀ (surface : ExpressionSurface) (prop : String), js prop ≠ js "data-each" ∧ js prop ≠ js "data-key" →
        propSite surface (props.filter fun entry => entry.1 ≠ js "data-each" ∧ entry.1 ≠ js "data-key") prop path
            (repeatScopeOf props scope) = propSite surface props prop path (repeatScopeOf props scope) := by
      intro surface prop apart
      rw [propSite, propSite, own prop apart]
    refine @bindElement_agree _ _ names _ around within path _ ?_ ?_ ?_ profile _ _ (kids _ _ around within _ _) name selfClosing _ st
    · rw [bindParses, own "data-bind" (by decide)]
      exact parses
    · rw [sites .condition "data-if" (by decide)]
      exact fun s member => free s (.inl (.inr member))
    · rw [sites .bind "data-bind" (by decide)]
      exact fun s member => free s (.inr member)

theorem bindText_agree {first second : Bindings} (outside : AgreeOn names first second)
    (inside : AgreeOn scope first second) {interpolate : Bool} {path value : JSString}
    {segments : Option (List TextSegment)} (plain : interpolate = false → segments = none)
    (free : ∀ s ∈ nodeSites interpolate path scope (.text value segments), s.FreeIn names) :
    bindText value segments first = bindText value segments second := by
  cases segments with
  | none => rfl
  | some segments =>
    have on : interpolate ≠ false := fun off => Option.some_ne_none _ (plain off)
    rw [nodeSites, if_neg on, Option.getD_some] at free
    rw [bindText, bindText, resolveSegments_agree outside inside free]

/-- The names in scope for a node's children. -/
def FragmentNode.scopeInside (outer : List JSString) : FragmentNode → List JSString
  | .text _ _ => outer
  | .element _ props _ _ => repeatScopeOf props outer

variable {interpolate : Bool} (profile : FormatProfile) (previous : Option RepeatState)

theorem bindSibling_agree {first second : Bindings} (outside : AgreeOn names first second)
    (inside : AgreeOn scope first second) {path : JSString} {node : FragmentNode} (parses : bindsParseIn node = true)
    (plain : interpolate = false → UnsegmentedNode node) (free : ∀ s ∈ nodeSites interpolate path scope node, s.FreeIn names)
    {bindKids : Bindings → List Nat → List RepeatKey → BindState → List FragmentNode × BindState}
    (kids : ∀ a b, AgreeOn names a b → AgreeOn (node.scopeInside scope) a b →
      ∀ place within st, bindKids a place within st = bindKids b place within st)
    (parentPath source : List Nat) (within : List RepeatKey) (out : Nat) (st : BindState) :
    bindSibling profile previous bindKids node first parentPath source within out st =
      bindSibling profile previous bindKids node second parentPath source within out st := by
  cases node with
  | text value segments => rw [bindSibling, bindSibling, bindText_agree outside inside plain free]
  | element name props children selfClosing =>
    rw [bindsParseIn, Bool.and_eq_true] at parses
    rw [nodeSites] at free
    have own : ∀ s ∈ ownSites props path scope, s.FreeIn names := fun s member => free s (List.mem_append_left _ member)
    rw [bindSibling, bindSibling]
    cases template : stringProp props "data-each" with
    | some each =>
      exact expandRepeat_agree outside inside parses.1 template own profile previous kids selfClosing parentPath source
        within out st
    | none =>
      have same : repeatScopeOf props scope = scope := by rw [repeatScopeOf, template]; rfl
      rw [FragmentNode.scopeInside, same] at kids
      simp only [ownSites, template, same, List.nil_append, List.mem_append] at own
      simp only
      rw [@bindElement_agree _ _ names scope outside inside path props parses.1 (fun s member => own s (.inl member))
        (fun s member => own s (.inr member)) profile _ _ (kids first second outside inside _ _)]

mutual

theorem bindInside_agree : ∀ (node : FragmentNode) {path : JSString} {outer : List JSString}, bindsParseIn node = true →
    (interpolate = false → UnsegmentedNode node) → (∀ s ∈ nodeSites interpolate path outer node, s.FreeIn names) →
      ∀ (source : List Nat) (first second : Bindings), AgreeOn names first second →
        AgreeOn (node.scopeInside outer) first second →
          ∀ (place : List Nat) (within : List RepeatKey) (st : BindState),
            bindInside profile previous node source first place within st =
              bindInside profile previous node source second place within st
  | .text _ _, _, _, _, _, _, _, _, _, _, _, _, _, _ => by rw [bindInside, bindInside]
  | .element name props children selfClosing, path, outer, parses, plain, free, source, first, second, outside, inside,
      place, within, st => by
    rw [bindInside, bindInside]
    rw [bindsParseIn, Bool.and_eq_true] at parses
    rw [nodeSites] at free
    exact bindChildren_agree children parses.2 plain (fun s member => free s (List.mem_append_right _ member)) outside
      inside place source 0 within st

/-- The pass over siblings depends on the names their sites leave free, and on those in scope. -/
theorem bindChildren_agree : ∀ (nodes : List FragmentNode) {path : JSString} {index : Nat} {outer : List JSString},
    bindsParse nodes = true → (interpolate = false → Unsegmented nodes) →
      (∀ s ∈ visitSites interpolate path outer index nodes, s.FreeIn names) →
        ∀ {first second : Bindings}, AgreeOn names first second → AgreeOn outer first second →
          ∀ (place source : List Nat) (out : Nat) (within : List RepeatKey) (st : BindState),
            bindChildren profile previous nodes first place source index out within st =
              bindChildren profile previous nodes second place source index out within st
  | [], _, _, _, _, _, _, _, _, _, _, _, _, _, _, _ => by rw [bindChildren, bindChildren]
  | node :: nodes, path, index, outer, parses, plain, free, first, second, outside, inside, place, source, out, within,
      st => by
    rw [bindsParse, Bool.and_eq_true] at parses
    rw [visitSites] at free
    have own : ∀ s ∈ nodeSites interpolate (childPath path index) outer node, s.FreeIn names := fun s member =>
      free s (List.mem_append_left _ member)
    have kids := bindInside_agree node parses.1 (fun off => (plain off).1) own (source ++ [index])
    rw [bindChildren, bindChildren]
    simp only
    rw [bindSibling_agree profile previous outside inside parses.1 (fun off => (plain off).1) own kids]
    rw [bindChildren_agree nodes parses.2 (fun off => (plain off).2)
      (fun s member => free s (List.mem_append_right _ member)) outside inside]

end

end

/-- A fragment that sanitizes binds alike under two bindings objects whose own properties agree on the names it reads. -/
theorem fragmentReadNames_enough (source format : JSString) (options : FragmentReadOptions) (profile : FormatProfile)
    (resolved : resolveFormatProfile format options.formats options.vocabularies = .ok (some profile))
    (fragment : SanitizedFragment) (sanitized : sanitizeFragment source profile ⟨false, options.interpolate⟩ = .ok fragment)
    (parses : bindsParse fragment.tree = true) (first second : Bindings)
    (agree : ∀ x ∈ fragmentReadNames source format options, Record.get first.own x = Record.get second.own x)
    (previous : Option RepeatState) :
    processTree fragment.tree first profile previous = processTree fragment.tree second profile previous := by
  have listed : fragmentReadNames source format options =
      addNames [] ((collectSites fragment.tree options.interpolate).flatMap ExpressionSite.free) := by
    rw [fragmentReadNames, resolved]
    simp only [sanitized]
  have free : ∀ s ∈ collectSites fragment.tree options.interpolate, s.FreeIn (fragmentReadNames source format options) := by
    intro s member x read
    rw [listed]
    exact mem_addNames.mpr (.inr (List.mem_flatMap.mpr ⟨s, member, read⟩))
  have plain : options.interpolate = false → Unsegmented fragment.tree := by
    intro off
    rw [off] at sanitized
    exact sanitizeFragment_unsegmented sanitized
  rw [processTree, processTree, bindChildren_agree profile previous fragment.tree parses plain free agree
    fun x member => absurd member List.not_mem_nil]

/-- A list whose items shadow a binding. -/
def shadowingList : JSString :=
  js "<ul data-if=\"show\"><li data-each=\"x in xs\" data-bind=\"x\">\x7b\x7b y \x7d\x7d</li></ul>"

theorem fragmentReadNames_enough_list :
    let tree := (sanitizeTree (htmlToTree shadowingList (some textHtml)) textHtml ⟨false, true⟩).tree
    processTree tree ⟨[(js "show", .bool true), (js "x", .null)], []⟩ textHtml none =
      processTree tree ⟨[(js "$index", .null), (js "show", .bool true)], []⟩ textHtml none := by
  refine fragmentReadNames_enough shadowingList (js "text/html") ⟨true, none, none⟩ textHtml (by decide +kernel)
    ⟨_, _, .html, _⟩ rfl (by decide +kernel) _ _ (fun x member => ?_) none
  have listed : fragmentReadNames shadowingList (js "text/html") ⟨true, none, none⟩ = [js "show", js "xs", js "y"] := by
    decide +kernel
  rw [listed] at member
  simp only [List.mem_cons, List.not_mem_nil, or_false] at member
  rcases member with rfl | rfl | rfl
  all_goals rfl

end Xript
