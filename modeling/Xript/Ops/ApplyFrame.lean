import Xript.Ops.Apply
import Mathlib.Order.Basic

namespace Xript

namespace Rust

/-- One node twice, but for what its children are. -/
def SameOwn : FragmentNode → FragmentNode → Prop
  | .text value segments, .text value' segments' => value = value' ∧ segments = segments'
  | .element name props children selfClosing, .element name' props' children' selfClosing' =>
    name = name' ∧ props = props' ∧ selfClosing = selfClosing' ∧ children.length = children'.length
  | _, _ => False

def FragmentNode.Carries (id : List Char) : FragmentNode → Prop
  | .text _ _ => False
  | .element _ props _ _ => props.getStr "id".toList = some id

/-- The path leads to a node with the id, and no path before it in document order does. -/
def First (id : List Char) (tree : List FragmentNode) (path : List Nat) : Prop :=
  (∃ node, nodeAt tree path = some node ∧ node.Carries id) ∧
    ∀ q node, nodeAt tree q = some node → q < path → ¬ node.Carries id

/-- The prop an op is about. -/
def FragmentOp.named (op : FragmentOp) : Option (List Char) :=
  if op.op = "toggle".toList then some "data-if-visible".toList
  else if op.op = "setProp".toList ∨ op.op = "setAttr".toList ∨ op.op = "removeAttr".toList then op.prop.or op.attr
  else none

/-- The entries of all props but the one an op is about, in their order. -/
def FragmentOp.others (op : FragmentOp) (props : Props) : List (List Char × Value) :=
  props.entries.filter fun entry => some entry.1 ≠ op.named

/-- What an op does to an element at most. -/
def FragmentOp.Within (op : FragmentOp) (props props' : Props) (children children' : List FragmentNode) : Prop :=
  if op.op = "setText".toList ∨ op.op = "replaceChildren".toList then props' = props
  else children' = children ∧ op.others props' = op.others props

/-- A tree before and after an op that found an element or a text at the path. -/
structure Confined (op : FragmentOp) (path : List Nat) (before after : List FragmentNode) : Prop where
  outside : ∀ q, ¬ path <+: q → Option.Rel SameOwn (nodeAt before q) (nodeAt after q)
  apart : ∀ q, ¬ path <+: q → ¬ q <+: path → nodeAt after q = nodeAt before q
  text : ∀ value segments, nodeAt before path = some (.text value segments) → after = before
  element : ∀ name props children selfClosing, nodeAt before path = some (.element name props children selfClosing) →
    ∃ props' children', nodeAt after path = some (.element name props' children' selfClosing) ∧
      op.Within props props' children children'

theorem SameOwn.refl (node : FragmentNode) : SameOwn node node := by
  cases node with
  | text => exact ⟨rfl, rfl⟩
  | element => exact ⟨rfl, rfl, rfl, rfl⟩

theorem sameOwn_option (node : Option FragmentNode) : Option.Rel SameOwn node node := by
  cases node with
  | none => exact .none
  | some node => exact .some (SameOwn.refl node)

/-- The child a write goes through, and its siblings. -/
theorem getElem?_through (f : FragmentNode → FragmentNode) (nodes : List FragmentNode) (i j : Nat) :
    (nodes.modify i f)[j]? = if i = j then nodes[j]?.map f else nodes[j]? := by
  rw [List.getElem?_modify]
  by_cases same : i = j
  · simp [same]
  · simp [same]

theorem prefix_step {i j : Nat} {path q : List Nat} (same : i = j) : i :: path <+: j :: q ↔ path <+: q := by
  rw [List.cons_prefix_cons, and_iff_right same]

theorem modify_text (edit : Edit) (path : List Nat) (value : List Char) (segments : Option (List TextSegment)) :
    (FragmentNode.text value segments).modify edit path = .text value segments := by
  cases path with
  | nil => rfl
  | cons => rfl

theorem descend_modify_outside (edit : Edit) {path q : List Nat} (outside : ¬ path <+: q) (node : FragmentNode) :
    Option.Rel SameOwn (node.descend q) ((node.modify edit path).descend q) := by
  induction path generalizing q node with
  | nil => exact absurd List.nil_prefix outside
  | cons index rest ih =>
    cases node with
    | text => exact sameOwn_option _
    | element name props children selfClosing =>
      cases q with
      | nil => exact .some ⟨rfl, rfl, rfl, (List.length_modify ..).symm⟩
      | cons j q =>
        rw [FragmentNode.modify, FragmentNode.descend, FragmentNode.descend, getElem?_through]
        by_cases same : index = j
        · rw [if_pos same]
          cases children[j]? with
          | none => exact .none
          | some child => exact ih (fun on => outside ((prefix_step same).2 on)) child
        · rw [if_neg same]
          exact sameOwn_option _

theorem descend_modify_apart (edit : Edit) {path q : List Nat} (outside : ¬ path <+: q) (off : ¬ q <+: path)
    (node : FragmentNode) : (node.modify edit path).descend q = node.descend q := by
  induction path generalizing q node with
  | nil => exact absurd List.nil_prefix outside
  | cons index rest ih =>
    cases node with
    | text => rfl
    | element name props children selfClosing =>
      cases q with
      | nil => exact absurd List.nil_prefix off
      | cons j q =>
        rw [FragmentNode.modify, FragmentNode.descend, FragmentNode.descend, getElem?_through]
        by_cases same : index = j
        · rw [if_pos same]
          cases children[j]? with
          | none => rfl
          | some child =>
            exact ih (fun on => outside ((prefix_step same).2 on)) (fun on => off ((prefix_step same.symm).2 on)) child
        · rw [if_neg same]

theorem descend_modify_end (edit : Edit) (path : List Nat) (node : FragmentNode) :
    (node.modify edit path).descend path = (node.descend path).map (FragmentNode.modify edit []) := by
  induction path generalizing node with
  | nil => rfl
  | cons index rest ih =>
    cases node with
    | text => rfl
    | element name props children selfClosing =>
      rw [FragmentNode.modify, FragmentNode.descend, FragmentNode.descend, getElem?_through, if_pos rfl]
      cases children[index]? with
      | none => rfl
      | some child => exact ih child

/-- A write at a text node is none. -/
theorem modify_at_text (edit : Edit) {path : List Nat} {node : FragmentNode} {value : List Char}
    {segments : Option (List TextSegment)} (reached : node.descend path = some (.text value segments)) :
    node.modify edit path = node := by
  induction path generalizing node with
  | nil =>
    rw [FragmentNode.descend, Option.some.injEq] at reached
    rw [reached, modify_text]
  | cons index rest ih =>
    cases node with
    | text => rfl
    | element name props children selfClosing =>
      rw [FragmentNode.descend] at reached
      rw [FragmentNode.modify]
      congr 1
      refine List.ext_getElem? fun j => ?_
      rw [getElem?_through]
      by_cases same : index = j
      · subst same
        rw [if_pos rfl]
        cases child : children[index]? with
        | none => rfl
        | some child' =>
          rw [child] at reached
          rw [Option.map_some, ih reached]
      · rw [if_neg same]

/-- The tree as the children of one node, for the walks that start at its top. -/
def rootOf (tree : List FragmentNode) : FragmentNode := .element [] .new tree false

theorem nodeAt_root (tree : List FragmentNode) (first : Nat) (rest : List Nat) :
    nodeAt tree (first :: rest) = (rootOf tree).descend (first :: rest) := rfl

theorem rootOf_modifyAt (edit : Edit) (tree : List FragmentNode) (first : Nat) (rest : List Nat) :
    rootOf (modifyAt edit tree (first :: rest)) = (rootOf tree).modify edit (first :: rest) := rfl

theorem modifyAt_outside (edit : Edit) (tree : List FragmentNode) {path q : List Nat} (outside : ¬ path <+: q) :
    Option.Rel SameOwn (nodeAt tree q) (nodeAt (modifyAt edit tree path) q) := by
  cases path with
  | nil => exact absurd List.nil_prefix outside
  | cons first rest =>
    cases q with
    | nil => exact .none
    | cons j q =>
      rw [nodeAt_root, nodeAt_root, rootOf_modifyAt]
      exact descend_modify_outside edit outside _

theorem modifyAt_apart (edit : Edit) (tree : List FragmentNode) {path q : List Nat} (outside : ¬ path <+: q)
    (off : ¬ q <+: path) : nodeAt (modifyAt edit tree path) q = nodeAt tree q := by
  cases path with
  | nil => exact absurd List.nil_prefix outside
  | cons first rest =>
    cases q with
    | nil => rfl
    | cons j q =>
      rw [nodeAt_root, nodeAt_root, rootOf_modifyAt]
      exact descend_modify_apart edit outside off _

theorem modifyAt_end (edit : Edit) (tree : List FragmentNode) (path : List Nat) :
    nodeAt (modifyAt edit tree path) path = (nodeAt tree path).map (FragmentNode.modify edit []) := by
  cases path with
  | nil => rfl
  | cons first rest =>
    rw [nodeAt_root, nodeAt_root, rootOf_modifyAt]
    exact descend_modify_end edit _ _

theorem modifyAt_text (edit : Edit) {tree : List FragmentNode} {path : List Nat} {value : List Char}
    {segments : Option (List TextSegment)} (reached : nodeAt tree path = some (.text value segments)) :
    modifyAt edit tree path = tree := by
  cases path with
  | nil => rfl
  | cons first rest =>
    rw [nodeAt_root] at reached
    have same := modify_at_text edit reached
    rw [← rootOf_modifyAt, rootOf, rootOf, FragmentNode.element.injEq] at same
    exact same.2.2.1

theorem filter_setEntry {keep : List Char × Value → Bool} {key : List Char} (dropped : ∀ value, keep (key, value) = false)
    (value : Value) (entries : List (List Char × Value)) : (setEntry key value entries).filter keep = entries.filter keep := by
  induction entries with
  | nil => simp [setEntry, dropped]
  | cons entry entries ih =>
    rw [setEntry]
    by_cases same : entry.1 = key
    · obtain ⟨name, old⟩ := entry
      obtain rfl : name = key := same
      rw [if_pos rfl, List.filter_cons_of_neg (by simp [dropped]), List.filter_cons_of_neg (by simp [dropped])]
    · rw [if_neg same, List.filter_cons, List.filter_cons, ih]

theorem filter_eraseP {α : Type} {keep gone : α → Bool} (dropped : ∀ a, gone a = true → keep a = false) (as : List α) :
    (as.eraseP gone).filter keep = as.filter keep := by
  induction as with
  | nil => rfl
  | cons a as ih =>
    by_cases out : gone a = true
    · rw [List.eraseP_cons_of_pos out, List.filter_cons_of_neg (by simp [dropped a out])]
    · rw [List.eraseP_cons_of_neg out, List.filter_cons, List.filter_cons, ih]

/-- Each arm of the match on the op's name writes no more than the op is for. -/
theorem edit_within {op : FragmentOp} {edit : Edit} (arm : op.edit = some edit) (props : Props) (children : List FragmentNode) :
    op.Within props (edit props children).1 children (edit props children).2 := by
  unfold FragmentOp.edit at arm
  unfold FragmentOp.Within FragmentOp.others FragmentOp.named
  split at arm
  · rename_i toggle
    obtain rfl := Option.some.inj arm
    rw [toggle, if_neg (by decide), if_pos rfl]
    exact ⟨rfl, filter_setEntry (by simp) _ _⟩
  · rename_i toggle
    rw [if_neg toggle]
    split at arm
    · rename_i setText
      obtain rfl := Option.some.inj arm
      rw [if_pos (.inl setText)]
    · split at arm
      · rename_i setProp
        have named : op.op = "setProp".toList ∨ op.op = "setAttr".toList ∨ op.op = "removeAttr".toList := by
          rcases setProp with setProp | setAttr
          · exact .inl setProp
          · exact .inr (.inl setAttr)
        have plain : ¬ (op.op = "setText".toList ∨ op.op = "replaceChildren".toList) := by
          rcases setProp with setProp | setAttr
          · rw [setProp]; decide
          · rw [setAttr]; decide
        rw [if_neg plain, if_pos named]
        cases prop : op.prop.or op.attr with
        | none => simp [prop] at arm
        | some key =>
          cases value : op.value with
          | none => simp [prop, value] at arm
          | some value =>
            simp only [prop, value, Option.some.injEq] at arm
            subst arm
            exact ⟨rfl, filter_setEntry (by simp) _ _⟩
      · split at arm
        · rename_i removeAttr
          rw [removeAttr, if_neg (by decide), if_pos (by decide)]
          cases prop : op.prop.or op.attr with
          | none => simp [prop] at arm
          | some key =>
            rw [prop, Option.map_some, Option.some.injEq] at arm
            subst arm
            exact ⟨rfl, filter_eraseP (by simp) _⟩
        · split at arm
          · rename_i replaceChildren
            obtain rfl := Option.some.inj arm
            rw [if_pos (.inr replaceChildren)]
          · cases arm

theorem applyOps_single (tree : List FragmentNode) (op : FragmentOp) : applyOps tree [op] = applyOp tree op := rfl

theorem applyOps_fold (tree : List FragmentNode) (ops : List FragmentOp) :
    applyOps tree ops = ops.foldl (fun tree op => applyOps tree [op]) tree := by
  induction ops generalizing tree with
  | nil => rfl
  | cons op ops ih => exact ih (applyOp tree op)

theorem applyOp_confined {tree : List FragmentNode} {op : FragmentOp} {path : List Nat}
    (resolved : resolveTarget tree op.target = some path) : Confined op path tree (applyOp tree op) := by
  cases arm : op.edit with
  | none =>
    have same : applyOp tree op = tree := by rw [applyOp, resolved, arm]
    rw [same]
    refine ⟨fun q _ => sameOwn_option _, fun q _ _ => rfl, fun value segments _ => rfl, ?_⟩
    intro name props children selfClosing reached
    refine ⟨props, children, reached, ?_⟩
    rw [FragmentOp.Within]
    split
    · rfl
    · exact ⟨rfl, rfl⟩
  | some edit =>
    have written : applyOp tree op = modifyAt edit tree path := by rw [applyOp, resolved, arm]
    rw [written]
    refine ⟨fun q outside => modifyAt_outside edit tree outside, fun q outside off => modifyAt_apart edit tree outside off,
      fun value segments reached => modifyAt_text edit reached, ?_⟩
    intro name props children selfClosing reached
    refine ⟨(edit props children).1, (edit props children).2, ?_, edit_within arm props children⟩
    rw [modifyAt_end, reached]
    rfl

/-- A head without the id moves the first path by one. -/
theorem First.shift {id : List Char} {node : FragmentNode} {nodes : List FragmentNode} {index : Nat} {rest : List Nat}
    (free : ∀ q reached, node.descend q = some reached → ¬ reached.Carries id) (first : First id nodes (index :: rest)) :
    First id (node :: nodes) ((index + 1) :: rest) := by
  refine ⟨first.1, ?_⟩
  intro q reached walked before
  cases q with
  | nil => cases walked
  | cons j q =>
    cases j with
    | zero => exact free q reached walked
    | succ j =>
      refine first.2 (j :: q) reached walked ?_
      rw [List.cons_lt_cons_iff] at before ⊢
      exact before.imp Nat.lt_of_succ_lt_succ (And.imp_left Nat.succ.inj)

theorem First.inside {id name : List Char} {props : Props} {children nodes : List FragmentNode} {selfClosing : Bool}
    {index : Nat} {rest : List Nat} (other : props.getStr "id".toList ≠ some id) (first : First id children (index :: rest)) :
    First id (.element name props children selfClosing :: nodes) (0 :: index :: rest) := by
  refine ⟨first.1, ?_⟩
  intro q reached walked before
  cases q with
  | nil => cases walked
  | cons j q =>
    rw [List.cons_lt_cons_iff] at before
    rcases before with below | ⟨rfl, before⟩
    · exact absurd below (Nat.not_lt_zero j)
    cases q with
    | nil =>
      obtain rfl := Option.some.inj walked
      exact other
    | cons j q => exact first.2 (j :: q) reached walked before

/-- No node of the list, at any depth, has the id. -/
def Free (id : List Char) (nodes : List FragmentNode) : Prop := ∀ q node, nodeAt nodes q = some node → ¬ node.Carries id

theorem Free.cons {id : List Char} {node : FragmentNode} {nodes : List FragmentNode}
    (head : ∀ q reached, node.descend q = some reached → ¬ reached.Carries id) (tail : Free id nodes) :
    Free id (node :: nodes) := by
  intro q reached walked
  cases q with
  | nil => cases walked
  | cons j q =>
    cases j with
    | zero => exact head q reached walked
    | succ j => exact tail (j :: q) reached walked

theorem text_free (id value : List Char) (segments : Option (List TextSegment)) (q : List Nat) (reached : FragmentNode)
    (walked : (FragmentNode.text value segments).descend q = some reached) : ¬ reached.Carries id := by
  cases q with
  | nil =>
    obtain rfl := Option.some.inj walked
    exact not_false
  | cons => cases walked

theorem element_free {id name : List Char} {props : Props} {children : List FragmentNode} {selfClosing : Bool}
    (other : props.getStr "id".toList ≠ some id) (free : Free id children) (q : List Nat) (reached : FragmentNode)
    (walked : (FragmentNode.element name props children selfClosing).descend q = some reached) : ¬ reached.Carries id := by
  cases q with
  | nil =>
    obtain rfl := Option.some.inj walked
    exact other
  | cons j q => exact free (j :: q) reached walked

/-- The buffer is as it was where nothing is found, and else holds the path behind what it held. -/
theorem findById_spec (id : List Char) (nodes : List FragmentNode) (index : Nat) (path : List Nat) :
    ((findById id nodes index path).1 = none ∧ (findById id nodes index path).2 = path ∧ Free id nodes) ∨
      ∃ i rest, (findById id nodes index path).1 = some (path ++ (index + i) :: rest) ∧ First id nodes (i :: rest) := by
  fun_induction findById id nodes index path with
  | case1 index path =>
    refine .inl ⟨rfl, rfl, ?_⟩
    intro q node walked
    cases q with
    | nil => cases walked
    | cons j q => cases walked
  | case2 value segments nodes index path ih =>
    rcases ih with ⟨missing, kept, free⟩ | ⟨i, rest, found, first⟩
    · exact .inl ⟨missing, kept, free.cons (text_free id value segments)⟩
    · refine .inr ⟨i + 1, rest, ?_, first.shift (text_free id value segments)⟩
      rw [found, Nat.add_assoc, Nat.add_comm 1 i]
  | case3 name props children selfClosing nodes index path here =>
    refine .inr ⟨0, [], rfl, ⟨_, rfl, here⟩, ?_⟩
    intro q reached walked before
    cases q with
    | nil => cases walked
    | cons j q =>
      rw [List.cons_lt_cons_iff] at before
      rcases before with below | ⟨-, below⟩
      · exact absurd below (Nat.not_lt_zero j)
      · exact absurd below (List.not_lt_nil q)
  | case4 name props children selfClosing nodes index path other inside inner ih =>
    rcases ih with ⟨missing, -, -⟩ | ⟨i, rest, found, first⟩
    · rw [missing] at inner
      cases inner
    · refine .inr ⟨0, i :: rest, ?_, first.inside other⟩
      rw [found, List.append_assoc, Nat.zero_add]
      rfl
  | case5 name props children selfClosing nodes index path other inside inner ihInside ih =>
    rcases ihInside with ⟨missing, kept, free⟩ | ⟨i, rest, found, -⟩
    · have back : inside.2.dropLast = path := by rw [kept, List.dropLast_concat]
      rw [back] at ih ⊢
      rcases ih with ⟨missing, kept, after⟩ | ⟨i, rest, found, first⟩
      · exact .inl ⟨missing, kept, after.cons (element_free other free)⟩
      · refine .inr ⟨i + 1, rest, ?_, first.shift (element_free other free)⟩
        rw [found, Nat.add_assoc, Nat.add_comm 1 i]
    · rw [found] at inner
      exact absurd rfl inner

theorem First.unique {id : List Char} {tree : List FragmentNode} {p q : List Nat} (first : First id tree p)
    (second : First id tree q) : p = q := by
  obtain ⟨node, reached, carries⟩ := first.1
  obtain ⟨node', reached', carries'⟩ := second.1
  rcases lt_trichotomy p q with before | same | after
  · exact absurd carries (second.2 p node reached before)
  · exact same
  · exact absurd carries' (first.2 q node' reached' after)

theorem resolve_id_iff (tree : List FragmentNode) (id : List Char) (path : List Nat) :
    resolveTarget tree (.id id) = some path ↔ First id tree path := by
  rw [resolveTarget]
  rcases findById_spec id tree 0 [] with ⟨missing, -, free⟩ | ⟨i, rest, found, first⟩
  · rw [missing]
    constructor
    · intro resolved
      cases resolved
    · rintro ⟨⟨node, reached, carries⟩, -⟩
      exact absurd carries (free path node reached)
  · rw [found, Option.some.injEq, Nat.zero_add, List.nil_append]
    constructor
    · rintro rfl
      exact first
    · exact first.unique

theorem resolve_id_none (tree : List FragmentNode) (id : List Char) :
    resolveTarget tree (.id id) = none ↔ Free id tree := by
  rw [resolveTarget]
  rcases findById_spec id tree 0 [] with ⟨missing, -, free⟩ | ⟨i, rest, found, first⟩
  · exact iff_of_true missing free
  · obtain ⟨node, reached, carries⟩ := first.1
    rw [found]
    refine iff_of_false ?_ fun free => free _ node reached carries
    intro missing
    cases missing

/-- The names with an arm of their own. -/
def opNames : List (List Char) :=
  ["toggle".toList, "setText".toList, "setProp".toList, "setAttr".toList, "removeAttr".toList, "replaceChildren".toList]

/-- An op that has no arm, or one whose arm leaves before it writes. -/
def FragmentOp.Idle (op : FragmentOp) : Prop :=
  op.op ∉ opNames ∨
    (op.op = "setProp".toList ∨ op.op = "setAttr".toList) ∧ (op.prop.or op.attr = none ∨ op.value = none) ∨
    op.op = "removeAttr".toList ∧ op.prop.or op.attr = none

theorem FragmentOp.Idle.edit {op : FragmentOp} (idle : op.Idle) : op.edit = none := by
  unfold FragmentOp.edit
  rcases idle with unknown | ⟨setProp, lacks⟩ | ⟨removeAttr, lacks⟩
  · simp only [opNames, List.mem_cons, List.not_mem_nil, or_false, not_or] at unknown
    obtain ⟨h₁, h₂, h₃, h₄, h₅, h₆⟩ := unknown
    rw [if_neg h₁, if_neg h₂, if_neg (not_or.mpr ⟨h₃, h₄⟩), if_neg h₅, if_neg h₆]
  · have name : op.op ≠ "toggle".toList ∧ op.op ≠ "setText".toList := by
      rcases setProp with setProp | setAttr
      · rw [setProp]; decide
      · rw [setAttr]; decide
    rw [if_neg name.1, if_neg name.2, if_pos setProp]
    rcases lacks with lacks | lacks
    · rw [lacks]
    · rw [lacks]
      cases op.prop.or op.attr with
      | none => rfl
      | some => rfl
  · rw [removeAttr, if_neg (by decide), if_neg (by decide), if_neg (by decide), if_pos rfl, lacks]
    rfl

end Rust

end Xript
