import Xript.Fragment.Expansion

namespace Xript

/-- One expansion of a template: the bindings that its header is evaluated against, the items that its copies are
made of, and what the pass records and reports of it. -/
structure Expansion where
  name : JSString
  each : JSString
  bindings : Bindings
  items : List ExprValue
  made : FragmentRepeat
  diagnostics : List FragmentDiagnostic

namespace Expansion

/-- The list that the header evaluates to; a header that does not parse has none. -/
def evaluated (e : Expansion) : List ExprValue :=
  (parseRepeatHeader e.each).toOption.elim [] fun header => evaluateRepeatItems header e.bindings

/-- The bindings of the copies, one for each item. -/
def scopes (e : Expansion) : List Bindings :=
  (parseRepeatHeader e.each).toOption.elim [] fun header =>
    e.items.zipIdx.map fun entry => repeatScope e.bindings header entry.1 entry.2

/-- The copies come from a prefix of the list, and the reports are about them. -/
structure Sound (e : Expansion) : Prop where
  items : e.items <+: e.evaluated
  count : e.made.count = e.items.length
  expression : e.made.expression = e.each
  limit : (∃ d ∈ e.diagnostics, d.code = .repeatLimit) ↔ e.items.length < e.evaluated.length
  sited : ∀ d ∈ e.diagnostics, d.path = sourcePointer e.made.site.template ∧ d.node = e.name
  keys : e.items = [] → ∀ d ∈ e.diagnostics, d.code ≠ .invalidKey ∧ d.code ≠ .duplicateKey

end Expansion

/-- Whether a diagnostic is about a repeat. -/
def FragmentDiagnostic.ofRepeat (d : FragmentDiagnostic) : Bool :=
  d.code = .repeatLimit ∨ d.code = .invalidKey ∨ d.code = .duplicateKey

/-- A copy of a template: its key, its bindings, the expansions in it and its bound children. -/
structure RepeatCopy where
  key : RepeatKey
  scope : Bindings
  inner : List Expansion
  kids : List FragmentNode

/-- What the pass makes of an element whose children are bound. -/
def boundElement (profile : FormatProfile) (name : JSString) (props : Props) (selfClosing : Bool) (bindings : Bindings)
    (kids : List FragmentNode) : FragmentNode :=
  (writeBinding profile name props kids selfClosing bindings [] .start).1

/-- The props that a copy carries. -/
def copyProps (props : Props) : Props := props.filter fun entry => entry.1 ≠ js "data-each" ∧ entry.1 ≠ js "data-key"

/-- The expansions that the pass over sibling nodes makes, in document order, and the nodes it leaves: `path` and `out`
place the first of them in the bound tree, `source` and `index` in the source. -/
inductive Expanded (profile : FormatProfile) :
    List FragmentNode → Bindings → List Nat → List Nat → Nat → Nat → List RepeatKey → List Expansion →
      List FragmentNode → Prop where
  | nil {bindings : Bindings} {path source : List Nat} {index out : Nat} {within : List RepeatKey} :
      Expanded profile [] bindings path source index out within [] []
  | text {value : JSString} {segments : Option (List TextSegment)} {nodes left : List FragmentNode}
      {bindings : Bindings} {path source : List Nat} {index out : Nat} {within : List RepeatKey} {rest : List Expansion} :
      Expanded profile nodes bindings path source (index + 1) (out + 1) within rest left →
      Expanded profile (.text value segments :: nodes) bindings path source index out within rest
        (bindText value segments bindings :: left)
  | element {name : JSString} {props : Props} {children nodes kids left : List FragmentNode} {selfClosing : Bool}
      {bindings : Bindings} {path source : List Nat} {index out : Nat} {within : List RepeatKey}
      {inner rest : List Expansion} :
      stringProp props "data-each" = none →
      Expanded profile children bindings (path ++ [out]) (source ++ [index]) 0 0 within inner kids →
      Expanded profile nodes bindings path source (index + 1) (out + 1) within rest left →
      Expanded profile (.element name props children selfClosing :: nodes) bindings path source index out within
        (inner ++ rest) (boundElement profile name props selfClosing bindings kids :: left)
  | template {name : JSString} {props : Props} {children nodes left : List FragmentNode} {selfClosing : Bool}
      {bindings : Bindings} {path source : List Nat} {index out : Nat} {within : List RepeatKey} {e : Expansion}
      {copies : List RepeatCopy} {rest : List Expansion} :
      stringProp props "data-each" = some e.each → e.name = name → e.bindings = bindings →
      e.made.site = ⟨source ++ [index], within⟩ → e.made.path = path → e.made.start = out →
      copies.map RepeatCopy.scope = e.scopes → copies.map RepeatCopy.key = e.made.keys →
      (∀ i copy, copies[i]? = some copy → Expanded profile children copy.scope (path ++ [out + i]) (source ++ [index]) 0 0
        (within ++ [copy.key]) copy.inner copy.kids) →
      Expanded profile nodes bindings path source (index + 1) (out + copies.length) within rest left →
      Expanded profile (.element name props children selfClosing :: nodes) bindings path source index out within
        (e :: copies.flatMap RepeatCopy.inner ++ rest)
        ((copies.map fun copy => boundElement profile name (copyProps props) selfClosing copy.scope copy.kids) ++ left)

/-- From `st` to `st'` the pass made the expansions `new`. -/
structure Traces (st st' : BindState) (new : List Expansion) : Prop where
  repeats : st'.repeats = st.repeats ++ new.map Expansion.made
  diagnostics : st'.diagnostics.filter FragmentDiagnostic.ofRepeat =
    st.diagnostics.filter FragmentDiagnostic.ofRepeat ++ new.flatMap Expansion.diagnostics
  copies : (new.map fun e => e.made.count).sum + st'.remainingCopies = st.remainingCopies
  sound : ∀ e ∈ new, e.Sound

namespace Traces

theorem refl (st : BindState) : Traces st st [] :=
  ⟨(List.append_nil _).symm, (List.append_nil _).symm, Nat.zero_add _, fun _ member => nomatch member⟩

theorem trans {st st' st'' : BindState} {first second : List Expansion} (one : Traces st st' first)
    (two : Traces st' st'' second) : Traces st st'' (first ++ second) where
  repeats := by rw [two.repeats, one.repeats, List.map_append, List.append_assoc]
  diagnostics := by rw [two.diagnostics, one.diagnostics, List.flatMap_append, List.append_assoc]
  copies := by
    have early := one.copies
    have late := two.copies
    rw [List.map_append, List.sum_append]
    omega
  sound := List.forall_mem_append.mpr ⟨one.sound, two.sound⟩

end Traces

theorem reportCondition_traces (props : Props) (bindings : Bindings) (path : List Nat) (st : BindState) :
    Traces st (reportCondition props bindings path st) [] := by
  have kept := Traces.refl st
  unfold reportCondition
  split <;> exact ⟨kept.repeats, kept.diagnostics, kept.copies, kept.sound⟩

section

variable {profile : FormatProfile} {previous : Option RepeatState}

/-- A `data-bind` makes no expansion, and writes the same wherever the element stands. -/
theorem writeBinding_traces (name : JSString) (props : Props) (kids : List FragmentNode) (selfClosing : Bool)
    (bindings : Bindings) (path : List Nat) (st : BindState) :
    Traces st (writeBinding profile name props kids selfClosing bindings path st).2 [] ∧
      (writeBinding profile name props kids selfClosing bindings path st).1 =
        boundElement profile name props selfClosing bindings kids := by
  have kept := Traces.refl st
  have refused : ∀ target undeclared, Traces st
      { st with diagnostics := st.diagnostics ++ [bindRefusal name target undeclared path] } [] := by
    intro target undeclared
    have other : (bindRefusal name target undeclared path).ofRepeat = false := by
      cases undeclared <;> rfl
    refine ⟨kept.repeats, ?_, kept.copies, kept.sound⟩
    rw [List.filter_append, List.filter_cons_of_neg (by simp [other]), List.filter_nil]
    rfl
  unfold boundElement writeBinding
  split
  · exact ⟨kept, rfl⟩
  · dsimp only
    split
    · exact ⟨kept, rfl⟩
    · split
      · exact ⟨kept, rfl⟩
      · exact ⟨refused _ _, rfl⟩
      · exact ⟨refused _ _, rfl⟩

theorem bindElement_traces {bindKids : BindState → List FragmentNode × BindState} {name : JSString} {props : Props}
    {selfClosing : Bool} {bindings : Bindings} {path : List Nat} {st : BindState} {new : List Expansion}
    (kids : Traces st (bindKids st).2 new) :
    Traces st (bindElement profile bindKids name props selfClosing bindings path st).2 new ∧
      (bindElement profile bindKids name props selfClosing bindings path st).1 =
        boundElement profile name props selfClosing bindings (bindKids st).1 := by
  have condition := reportCondition_traces props bindings path (bindKids st).2
  obtain ⟨written, node⟩ := @writeBinding_traces profile name props (bindKids st).1 selfClosing bindings path
    (reportCondition props bindings path (bindKids st).2)
  have whole := kids.trans (condition.trans written)
  rw [List.append_nil, List.append_nil] at whole
  exact ⟨whole, node⟩

theorem bindCopies_traces {children : List FragmentNode} {name : JSString} {props : Props} {selfClosing : Bool}
    {path source : List Nat} {within : List RepeatKey}
    {bindCopy : Bindings → RepeatKey → Nat → BindState → FragmentNode × BindState}
    (each : ∀ scope key out st, ∃ new kids, Traces st (bindCopy scope key out st).2 new ∧
      (bindCopy scope key out st).1 = boundElement profile name props selfClosing scope kids ∧
      Expanded profile children scope (path ++ [out]) source 0 0 (within ++ [key]) new kids) :
    ∀ (copies : List (Bindings × RepeatKey)) (out : Nat) (st : BindState), ∃ made : List RepeatCopy,
      (made.map fun copy => (copy.scope, copy.key)) = copies ∧
      Traces st (bindCopies bindCopy copies out st).2 (made.flatMap RepeatCopy.inner) ∧
      (bindCopies bindCopy copies out st).1 =
        (made.map fun copy => boundElement profile name props selfClosing copy.scope copy.kids) ∧
      ∀ i copy, made[i]? = some copy → Expanded profile children copy.scope (path ++ [out + i]) source 0 0
        (within ++ [copy.key]) copy.inner copy.kids := by
  intro copies
  induction copies with
  | nil => exact fun out st => ⟨[], rfl, .refl st, rfl, fun i copy found => by simp at found⟩
  | cons copy copies ih =>
    intro out st
    obtain ⟨scope, key⟩ := copy
    obtain ⟨new, kids, first, node, expanded⟩ := each scope key out st
    obtain ⟨made, same, others, nodes, all⟩ := ih (out + 1) (bindCopy scope key out st).2
    refine ⟨⟨key, scope, new, kids⟩ :: made, ?_, first.trans others, ?_, ?_⟩
    · rw [List.map_cons, same]
    · rw [List.map_cons, ← nodes, ← node]
      rfl
    · intro i copy found
      cases i with
      | zero =>
        cases found
        exact expanded
      | succ i =>
        have later := all i copy found
        rwa [Nat.add_right_comm] at later

/-- What a cut list reports. -/
def limitDiagnostics (name : JSString) (source : List Nat) (remaining count : Nat) : List FragmentDiagnostic :=
  if remaining < count then
    [⟨.repeatLimit, .warning, sourcePointer source, name, some (js "data-each"), repeatLimitMessage remaining count⟩]
  else []

/-- What unusable keys report. -/
def keyDiagnostics (name : JSString) (source : List Nat) (keySource : Option JSString) :
    Option RepeatKeyProblem → List FragmentDiagnostic
  | none => []
  | some problem =>
    [⟨keyProblemCode problem, .warning, sourcePointer source, name, some (js "data-key"),
      keyProblemMessage (keySource.getD []) problem⟩]

theorem takeItems_eq (name : JSString) (source : List Nat) (items : List ExprValue) (st : BindState) :
    takeItems name source items st = (items.take st.remainingCopies,
      { st with
        diagnostics := st.diagnostics ++ limitDiagnostics name source st.remainingCopies items.length
        remainingCopies := st.remainingCopies - (items.take st.remainingCopies).length }) := by
  unfold takeItems limitDiagnostics
  dsimp only
  split
  · rfl
  · rw [List.append_nil]

theorem reportKeyProblem_eq (name : JSString) (source : List Nat) (keySource : Option JSString)
    (problem : Option RepeatKeyProblem) (st : BindState) :
    reportKeyProblem name source keySource problem st =
      { st with diagnostics := st.diagnostics ++ keyDiagnostics name source keySource problem } := by
  cases problem with
  | none =>
    rw [reportKeyProblem, keyDiagnostics, List.append_nil]
  | some problem => rfl

theorem mem_limitDiagnostics {name : JSString} {source : List Nat} {remaining count : Nat} {d : FragmentDiagnostic}
    (member : d ∈ limitDiagnostics name source remaining count) :
    remaining < count ∧ d.code = .repeatLimit ∧ d.path = sourcePointer source ∧ d.node = name := by
  rw [limitDiagnostics] at member
  split at member
  · rename_i cut
    obtain rfl := List.mem_singleton.mp member
    exact ⟨cut, rfl, rfl, rfl⟩
  · cases member

theorem limitDiagnostics_of_cut (name : JSString) (source : List Nat) {remaining count : Nat} (cut : remaining < count) :
    ⟨.repeatLimit, .warning, sourcePointer source, name, some (js "data-each"), repeatLimitMessage remaining count⟩ ∈
      limitDiagnostics name source remaining count := by
  rw [limitDiagnostics, if_pos cut]
  exact List.mem_singleton_self _

theorem mem_keyDiagnostics {name : JSString} {source : List Nat} {keySource : Option JSString}
    {problem : Option RepeatKeyProblem} {d : FragmentDiagnostic}
    (member : d ∈ keyDiagnostics name source keySource problem) :
    problem ≠ none ∧ (d.code = .invalidKey ∨ d.code = .duplicateKey) ∧ d.path = sourcePointer source ∧ d.node = name := by
  cases problem with
  | none => cases member
  | some problem =>
    obtain rfl := List.mem_singleton.mp member
    refine ⟨nofun, ?_, rfl, rfl⟩
    cases problem with
    | invalidKey => exact .inl rfl
    | duplicateKey => exact .inr rfl

theorem filter_ofRepeat {diagnostics : List FragmentDiagnostic}
    (all : ∀ d ∈ diagnostics, d.code = .repeatLimit ∨ d.code = .invalidKey ∨ d.code = .duplicateKey) :
    diagnostics.filter FragmentDiagnostic.ofRepeat = diagnostics :=
  List.filter_eq_self.mpr fun d member => decide_eq_true (all d member)

/-- The expansion that a template makes of what is left of the ceiling. -/
def expansionOf (previous : Option RepeatState) (each name : JSString) (props : Props) (bindings : Bindings)
    (path source : List Nat) (within : List RepeatKey) (out remaining : Nat) : Expansion :=
  let header := (parseRepeatHeader each).toOption
  let evaluated := header.elim [] fun header => evaluateRepeatItems header bindings
  let items := evaluated.take remaining
  let scopes := header.elim [] fun header => items.zipIdx.map fun entry => repeatScope bindings header entry.1 entry.2
  let keySource := stringProp props "data-key"
  let resolution := resolveCopies keySource scopes
  { name, each, bindings, items
    made := ⟨⟨source, within⟩, path, out, scopes.length, each, keySource, resolution.mode, resolution.keys,
      diffRepeat (before previous ⟨source, within⟩) ⟨resolution.mode, resolution.keys⟩⟩
    diagnostics := limitDiagnostics name source remaining evaluated.length ++
      keyDiagnostics name source keySource resolution.problem }

section

variable (each name : JSString) (props : Props) (bindings : Bindings) (path source : List Nat)
  (within : List RepeatKey) (out remaining : Nat)

theorem expansionOf_count :
    (expansionOf previous each name props bindings path source within out remaining).made.count =
      (expansionOf previous each name props bindings path source within out remaining).items.length := by
  unfold expansionOf
  dsimp only
  cases (parseRepeatHeader each).toOption with
  | none => simp only [Option.elim_none, List.take_nil, List.length_nil]
  | some header => simp only [Option.elim_some, List.length_map, List.length_zipIdx]

theorem resolveCopies_empty (keySource : Option JSString) : (resolveCopies keySource []).problem = none := by
  cases keySource <;> rfl

theorem expansionOf_sound :
    (expansionOf previous each name props bindings path source within out remaining).Sound where
  items := List.take_prefix _ _
  count := expansionOf_count ..
  expression := rfl
  limit := by
    have length : (expansionOf previous each name props bindings path source within out remaining).items.length =
        min remaining (expansionOf previous each name props bindings path source within out remaining).evaluated.length :=
      List.length_take
    rw [length]
    constructor
    · rintro ⟨d, member, code⟩
      rcases List.mem_append.mp member with limit | key
      · exact min_lt_iff.mpr (.inl (mem_limitDiagnostics limit).1)
      · rcases (mem_keyDiagnostics key).2.1 with other | other
        · cases code.symm.trans other
        · cases code.symm.trans other
    · intro cut
      have short := (min_lt_iff.mp cut).resolve_right (lt_irrefl _)
      exact ⟨_, List.mem_append_left _ (limitDiagnostics_of_cut name source short), rfl⟩
  sited := by
    intro d member
    rcases List.mem_append.mp member with limit | key
    · exact (mem_limitDiagnostics limit).2.2
    · exact (mem_keyDiagnostics key).2.2
  keys := by
    intro empty d member
    rcases List.mem_append.mp member with limit | key
    · have code := (mem_limitDiagnostics limit).2.1
      rw [code]
      exact ⟨nofun, nofun⟩
    · refine absurd ?_ (mem_keyDiagnostics key).1
      have none : (expansionOf previous each name props bindings path source within out remaining).made.count = 0 := by
        rw [expansionOf_count, empty, List.length_nil]
      rw [List.eq_nil_of_length_eq_zero none]
      exact resolveCopies_empty _

end

/-- One template: its expansion, then the ones in its copies. -/
theorem expandRepeat_traces {children : List FragmentNode} {source : List Nat}
    {bindKids : Bindings → List Nat → List RepeatKey → BindState → List FragmentNode × BindState}
    (kids : ∀ bindings path within st, ∃ new, Traces st (bindKids bindings path within st).2 new ∧
      Expanded profile children bindings path source 0 0 within new (bindKids bindings path within st).1)
    (each name : JSString) (props : Props) (selfClosing : Bool) (bindings : Bindings) (path : List Nat)
    (within : List RepeatKey) (out : Nat) (st : BindState) :
    ∃ (e : Expansion) (copies : List RepeatCopy),
      Traces st (expandRepeat profile previous bindKids each name props selfClosing bindings path source within out st).2
        (e :: copies.flatMap RepeatCopy.inner) ∧
      e.each = each ∧ e.name = name ∧ e.bindings = bindings ∧ e.made.site = ⟨source, within⟩ ∧ e.made.path = path ∧
      e.made.start = out ∧ copies.map RepeatCopy.scope = e.scopes ∧ copies.map RepeatCopy.key = e.made.keys ∧
      (expandRepeat profile previous bindKids each name props selfClosing bindings path source within out st).1 =
        (copies.map fun copy => boundElement profile name (copyProps props) selfClosing copy.scope copy.kids) ∧
      ∀ i copy, copies[i]? = some copy → Expanded profile children copy.scope (path ++ [out + i]) source 0 0
        (within ++ [copy.key]) copy.inner copy.kids := by
  let e := expansionOf previous each name props bindings path source within out st.remainingCopies
  let st₁ : BindState := { st with
    diagnostics := st.diagnostics ++ e.diagnostics
    remainingCopies := st.remainingCopies - e.items.length
    next := e.made.entry :: st.next
    repeats := st.repeats ++ [e.made] }
  have first : Traces st st₁ [e] := by
    have count : e.made.count = e.items.length := expansionOf_count ..
    have few : e.items.length ≤ st.remainingCopies := List.length_take_le _ _
    refine ⟨rfl, ?_, ?_, List.forall_mem_singleton.mpr (expansionOf_sound ..)⟩
    · have reports : e.diagnostics.filter FragmentDiagnostic.ofRepeat = e.diagnostics := by
        refine filter_ofRepeat fun d member => ?_
        rcases List.mem_append.mp member with limit | key
        · exact .inl (mem_limitDiagnostics limit).2.1
        · exact .inr (mem_keyDiagnostics key).2.1
      rw [List.filter_append, reports, List.flatMap_singleton]
    · rw [List.map_singleton, List.sum_singleton, count]
      exact Nat.add_sub_of_le few
  have state : expandRepeat profile previous bindKids each name props selfClosing bindings path source within out st =
      bindCopies (fun scope key position =>
        bindElement profile (bindKids scope (path ++ [position]) (within ++ [key])) name (copyProps props) selfClosing scope
          (path ++ [position])) (e.scopes.zip e.made.keys) out st₁ := by
    simp only [expandRepeat, takeItems_eq, reportKeyProblem_eq, List.append_assoc]
    rfl
  have copied : ∀ scope key position st, ∃ new inner, Traces st (bindElement profile
        (bindKids scope (path ++ [position]) (within ++ [key])) name (copyProps props) selfClosing scope
        (path ++ [position]) st).2 new ∧
      (bindElement profile (bindKids scope (path ++ [position]) (within ++ [key])) name (copyProps props) selfClosing scope
        (path ++ [position]) st).1 = boundElement profile name (copyProps props) selfClosing scope inner ∧
      Expanded profile children scope (path ++ [position]) source 0 0 (within ++ [key]) new inner := by
    intro scope key position st
    obtain ⟨new, traces, expanded⟩ := kids scope (path ++ [position]) (within ++ [key]) st
    obtain ⟨own, node⟩ := @bindElement_traces profile _ name (copyProps props) selfClosing scope (path ++ [position])
      _ _ traces
    exact ⟨new, _, own, node, expanded⟩
  obtain ⟨copies, same, traces, nodes, all⟩ := bindCopies_traces copied (e.scopes.zip e.made.keys) out st₁
  have keys : e.made.keys.length = e.scopes.length := resolveCopies_length ..
  have scopes : copies.map RepeatCopy.scope = e.scopes := by
    have fst := congrArg (List.map Prod.fst) same
    rwa [List.map_map, List.map_fst_zip (by rw [keys])] at fst
  have named : copies.map RepeatCopy.key = e.made.keys := by
    have snd := congrArg (List.map Prod.snd) same
    rwa [List.map_map, List.map_snd_zip (by rw [keys])] at snd
  rw [state]
  exact ⟨e, copies, first.trans traces, rfl, rfl, rfl, rfl, rfl, rfl, scopes, named, nodes, all⟩

mutual

theorem bindInside_traces : ∀ (node : FragmentNode) (source : List Nat) (bindings : Bindings) (path : List Nat)
    (within : List RepeatKey) (st : BindState),
    ∃ new, Traces st (bindInside profile previous node source bindings path within st).2 new ∧
      Expanded profile node.children bindings path source 0 0 within new
        (bindInside profile previous node source bindings path within st).1
  | .text _ _, _, _, _, _, st => by
    rw [bindInside]
    exact ⟨[], .refl st, .nil⟩
  | .element _ _ children _, source, bindings, path, within, st => by
    rw [bindInside]
    exact bindChildren_traces children bindings path source 0 0 within st

/-- The bind pass makes exactly the expansions of the nodes it walks. -/
theorem bindChildren_traces : ∀ (nodes : List FragmentNode) (bindings : Bindings) (path source : List Nat)
    (index out : Nat) (within : List RepeatKey) (st : BindState),
    ∃ new, Traces st (bindChildren profile previous nodes bindings path source index out within st).2 new ∧
      Expanded profile nodes bindings path source index out within new
        (bindChildren profile previous nodes bindings path source index out within st).1
  | [], _, _, _, _, _, _, st => by
    rw [bindChildren]
    exact ⟨[], .refl st, .nil⟩
  | node :: nodes, bindings, path, source, index, out, within, st => by
    have kids := bindInside_traces node (source ++ [index])
    have siblings := fun out => bindChildren_traces nodes bindings path source (index + 1) out within
    rw [bindChildren]
    cases node with
    | text value segments =>
      obtain ⟨rest, traces, expanded⟩ := siblings (out + 1) st
      exact ⟨rest, traces, .text expanded⟩
    | element name props children selfClosing =>
      rw [bindSibling]
      cases each : stringProp props "data-each" with
      | none =>
        obtain ⟨inner, traces, expanded⟩ := kids bindings (path ++ [out]) within st
        obtain ⟨own, node⟩ := @bindElement_traces profile _ name props selfClosing bindings (path ++ [out]) _ _ traces
        obtain ⟨rest, others, expandedRest⟩ := siblings (out + 1) _
        refine ⟨inner ++ rest, own.trans others, ?_⟩
        dsimp only
        rw [node]
        exact .element each expanded expandedRest
      | some text =>
        obtain ⟨e, copies, traces, source, named, bound, site, place, start, scopes, keys, nodesAre, all⟩ :=
          expandRepeat_traces kids text name props selfClosing bindings path within out st
        obtain ⟨rest, others, expandedRest⟩ := siblings _ _
        refine ⟨e :: copies.flatMap RepeatCopy.inner ++ rest, traces.trans others, ?_⟩
        dsimp only
        rw [nodesAre, List.length_map] at expandedRest ⊢
        exact .template (each.trans (by rw [source])) named bound site place start scopes keys all expandedRest

end

end

/-- One render makes at most `maxRepeatCopies` copies. Each template's copies come from a prefix of the list that its
header evaluates to, in order, a report says where the list was cut, and a header without a list gives no copies and
no report about keys. -/
theorem processTree_ceiling (tree : FragmentTree) (bindings : Bindings) (profile : FormatProfile)
    (previous : Option RepeatState) :
    ((processTree tree bindings profile previous).repeats.map FragmentRepeat.count).sum ≤ maxRepeatCopies ∧
      ∃ expansions : List Expansion,
        Expanded profile tree bindings [] [] 0 0 [] expansions (processTree tree bindings profile previous).tree ∧
        (processTree tree bindings profile previous).repeats = expansions.map Expansion.made ∧
        (processTree tree bindings profile previous).diagnostics.filter FragmentDiagnostic.ofRepeat =
          expansions.flatMap Expansion.diagnostics ∧
        (∀ e ∈ expansions, e.Sound) ∧
        ∀ e ∈ expansions,
          (∀ header, parseRepeatHeader e.each = .ok header →
            ∀ items, evaluateAst e.bindings header.expression.ast ≠ .arr items) →
          e.made.count = 0 ∧ ∀ d ∈ e.diagnostics, d.code ≠ .invalidKey ∧ d.code ≠ .duplicateKey := by
  obtain ⟨new, traces, expanded⟩ := @bindChildren_traces profile previous tree bindings [] [] 0 0 [] .start
  have repeats : (processTree tree bindings profile previous).repeats = new.map Expansion.made := traces.repeats
  refine ⟨?_, new, expanded, repeats, traces.diagnostics, traces.sound, ?_⟩
  · have copies := traces.copies
    rw [repeats, List.map_map]
    exact Nat.le_of_add_right_le copies.le
  · intro e member listless
    have sound := traces.sound e member
    have none : e.evaluated = [] := by
      rw [Expansion.evaluated]
      cases parsed : parseRepeatHeader e.each with
      | error message => rfl
      | ok header =>
        show evaluateRepeatItems header e.bindings = []
        rw [evaluateRepeatItems]
        split
        · rename_i items list
          exact absurd list (listless header parsed items)
        · rfl
    have empty : e.items = [] := List.prefix_nil.mp (none ▸ sound.items)
    exact ⟨by rw [sound.count, empty, List.length_nil], sound.keys empty⟩

end Xript
