import Xript.Fragment.Bind

namespace Xript

/-- A repeat without its patch. -/
def FragmentRepeat.unpatched (r : FragmentRepeat) : FragmentRepeat := { r with patch := [] }

def BindState.unpatched (st : BindState) : BindState := { st with repeats := st.repeats.map FragmentRepeat.unpatched }

/-- Two results that differ in patches only. -/
structure Alike {α : Type} (first second : α × BindState) : Prop where
  made : first.1 = second.1
  state : first.2.unpatched = second.2.unpatched

theorem reportCondition_unpatched (props : Props) (bindings : Bindings) (path : List Nat) (st : BindState) :
    (reportCondition props bindings path st).unpatched = reportCondition props bindings path st.unpatched := by
  unfold reportCondition
  split <;> rfl

theorem writeBinding_unpatched (profile : FormatProfile) (name : JSString) (props : Props)
    (children : List FragmentNode) (selfClosing : Bool) (bindings : Bindings) (path : List Nat) (st : BindState) :
    (writeBinding profile name props children selfClosing bindings path st).1 =
        (writeBinding profile name props children selfClosing bindings path st.unpatched).1 ∧
      (writeBinding profile name props children selfClosing bindings path st).2.unpatched =
        (writeBinding profile name props children selfClosing bindings path st.unpatched).2 := by
  unfold writeBinding
  split
  · exact ⟨rfl, rfl⟩
  · dsimp only
    split
    · exact ⟨rfl, rfl⟩
    · split <;> exact ⟨rfl, rfl⟩

theorem takeItems_unpatched (name : JSString) (source : List Nat) (items : List ExprValue) (st : BindState) :
    (takeItems name source items st.unpatched).1 = (takeItems name source items st).1 ∧
      (takeItems name source items st).2.unpatched = (takeItems name source items st.unpatched).2 := by
  refine ⟨rfl, ?_⟩
  by_cases limited : st.remainingCopies < items.length
  · rw [takeItems, takeItems, if_pos limited, if_pos (show st.unpatched.remainingCopies < items.length from limited)]
    rfl
  · rw [takeItems, takeItems, if_neg limited, if_neg (show ¬st.unpatched.remainingCopies < items.length from limited)]
    rfl

theorem reportKeyProblem_unpatched (name : JSString) (source : List Nat) (keySource : Option JSString)
    (problem : Option RepeatKeyProblem) (st : BindState) :
    (reportKeyProblem name source keySource problem st).unpatched =
      reportKeyProblem name source keySource problem st.unpatched := by
  unfold reportKeyProblem
  split <;> rfl

/-- Two steps that give alike results from alike states. -/
def Parallel {α : Type} (first second : BindState → α × BindState) : Prop :=
  ∀ st st', st.unpatched = st'.unpatched → Alike (first st) (second st')

theorem bindElement_parallel {profile : FormatProfile} {first second : BindState → List FragmentNode × BindState}
    (kids : Parallel first second) (name : JSString) (props : Props) (selfClosing : Bool) (bindings : Bindings)
    (path : List Nat) :
    Parallel (bindElement profile first name props selfClosing bindings path)
      (bindElement profile second name props selfClosing bindings path) := by
  intro st st' same
  obtain ⟨children, states⟩ := kids st st' same
  have reported : (reportCondition props bindings path (first st).2).unpatched =
      (reportCondition props bindings path (second st').2).unpatched := by
    rw [reportCondition_unpatched, reportCondition_unpatched, states]
  have one := writeBinding_unpatched profile name props (first st).1 selfClosing bindings path
    (reportCondition props bindings path (first st).2)
  have two := writeBinding_unpatched profile name props (second st').1 selfClosing bindings path
    (reportCondition props bindings path (second st').2)
  rw [reported, children] at one
  have shape : ∀ (bindKids : BindState → List FragmentNode × BindState) (st : BindState),
      bindElement profile bindKids name props selfClosing bindings path st =
        writeBinding profile name props (bindKids st).1 selfClosing bindings path
          (reportCondition props bindings path (bindKids st).2) := fun _ _ => rfl
  constructor
  · rw [shape, shape, children]
    exact one.1.trans two.1.symm
  · rw [shape, shape, children]
    exact one.2.trans two.2.symm

theorem bindCopies_parallel {first second : Bindings → RepeatKey → Nat → BindState → FragmentNode × BindState}
    (each : ∀ scope key out, Parallel (first scope key out) (second scope key out)) :
    ∀ (copies : List (Bindings × RepeatKey)) (out : Nat),
      Parallel (bindCopies first copies out) (bindCopies second copies out) := by
  intro copies
  induction copies with
  | nil => exact fun out st st' same => ⟨rfl, same⟩
  | cons copy copies ih =>
    intro out st st' same
    obtain ⟨node, states⟩ := each copy.1 copy.2 out st st' same
    obtain ⟨nodes, ends⟩ := ih (out + 1) _ _ states
    simp only [bindCopies]
    exact ⟨by rw [node, nodes], ends⟩

section

variable {profile : FormatProfile} {previous other : Option RepeatState}

theorem expandRepeat_parallel
    {first second : Bindings → List Nat → List RepeatKey → BindState → List FragmentNode × BindState}
    (kids : ∀ bindings path within, Parallel (first bindings path within) (second bindings path within))
    (each name : JSString) (props : Props) (selfClosing : Bool) (bindings : Bindings) (parentPath source : List Nat)
    (within : List RepeatKey) (out : Nat) :
    Parallel (expandRepeat profile previous first each name props selfClosing bindings parentPath source within out)
      (expandRepeat profile other second each name props selfClosing bindings parentPath source within out) := by
  intro st st' same
  unfold expandRepeat
  dsimp only
  generalize (parseRepeatHeader each).toOption = header
  generalize (header.elim [] fun header => evaluateRepeatItems header bindings) = items
  obtain ⟨takenA, stateA⟩ := takeItems_unpatched name source items st
  obtain ⟨takenB, stateB⟩ := takeItems_unpatched name source items st'
  have taken : (takeItems name source items st).1 = (takeItems name source items st').1 := by
    rw [← takenA, same, takenB]
  rw [taken]
  refine bindCopies_parallel (fun scope key position => ?_) _ _ _ _ ?_
  · exact bindElement_parallel (kids scope (parentPath ++ [position]) (within ++ [key])) name _ selfClosing scope _
  · have states := fun problem => (reportKeyProblem_unpatched name source (stringProp props "data-key") problem
      (takeItems name source items st).2).trans ((congrArg _ (stateA.trans ((congrArg (fun s =>
        (takeItems name source items s).2) same).trans stateB.symm))).trans
          (reportKeyProblem_unpatched name source (stringProp props "data-key") problem _).symm)
    have parts := states (resolveCopies (stringProp props "data-key") (header.elim [] fun header =>
      (takeItems name source items st').1.zipIdx.map fun entry => repeatScope bindings header entry.1 entry.2)).problem
    simp only [BindState.unpatched, BindState.mk.injEq, List.map_append, List.map_cons, List.map_nil] at parts ⊢
    obtain ⟨visibility, conditions, repeats, diagnostics, next, remaining⟩ := parts
    exact ⟨visibility, conditions, by rw [repeats]; rfl, diagnostics, by rw [next], remaining⟩

mutual

theorem bindInside_parallel : ∀ (node : FragmentNode) (source : List Nat) (bindings : Bindings) (path : List Nat)
    (within : List RepeatKey), Parallel (bindInside profile previous node source bindings path within)
      (bindInside profile other node source bindings path within)
  | .text _ _, _, _, _, _ => by
    intro st st' same
    rw [bindInside, bindInside]
    exact ⟨rfl, same⟩
  | .element _ _ children _, source, bindings, path, within => by
    intro st st' same
    rw [bindInside, bindInside]
    exact bindChildren_parallel children bindings path source 0 0 within st st' same

/-- The bind pass reads the previous render for its patches only. -/
theorem bindChildren_parallel : ∀ (nodes : List FragmentNode) (bindings : Bindings) (parentPath source : List Nat)
    (index out : Nat) (within : List RepeatKey),
    Parallel (bindChildren profile previous nodes bindings parentPath source index out within)
      (bindChildren profile other nodes bindings parentPath source index out within)
  | [], _, _, _, _, _, _ => by
    intro st st' same
    rw [bindChildren, bindChildren]
    exact ⟨rfl, same⟩
  | node :: nodes, bindings, parentPath, source, index, out, within => by
    have kids := bindInside_parallel node (source ++ [index])
    have siblings := fun out => bindChildren_parallel nodes bindings parentPath source (index + 1) out within
    intro st st' same
    have sibling : Alike
        (bindSibling profile previous (bindInside profile previous node (source ++ [index])) node bindings parentPath
          (source ++ [index]) within out st)
        (bindSibling profile other (bindInside profile other node (source ++ [index])) node bindings parentPath
          (source ++ [index]) within out st') := by
      cases node with
      | text value segments => exact ⟨rfl, same⟩
      | element name props children selfClosing =>
        rw [bindSibling, bindSibling]
        cases stringProp props "data-each" with
        | none =>
          obtain ⟨node, states⟩ := bindElement_parallel
            (kids bindings (parentPath ++ [out]) within) name props selfClosing bindings (parentPath ++ [out]) st st' same
          exact ⟨congrArg (fun node => [node]) node, states⟩
        | some each =>
          exact expandRepeat_parallel kids each name props selfClosing bindings parentPath (source ++ [index]) within out
            st st' same
    obtain ⟨made, states⟩ := sibling
    rw [bindChildren, bindChildren]
    dsimp only
    rw [made]
    obtain ⟨rest, ends⟩ := siblings _ _ _ states
    exact ⟨congrArg₂ (· ++ ·) rfl rest, ends⟩

end

end

/-- The repeats of a render, apart from their patches, do not depend on the render before. -/
theorem processTree_unpatched (tree : FragmentTree) (bindings : Bindings) (profile : FormatProfile)
    (previous other : Option RepeatState) :
    (processTree tree bindings profile previous).repeats.map FragmentRepeat.unpatched =
      (processTree tree bindings profile other).repeats.map FragmentRepeat.unpatched := by
  have states := (@bindChildren_parallel profile previous other tree bindings [] [] 0
    0 [] .start .start rfl).state
  exact congrArg BindState.repeats states

end Xript
