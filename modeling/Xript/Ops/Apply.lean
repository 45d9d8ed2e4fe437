import Xript.Json.RustCanonical
import Xript.Ops.NodeRef
import Mathlib.Data.List.Lex
import Mathlib.Data.List.Nodup

namespace Xript

namespace Rust

/-- What `Props.set` leaves of the entries: a repeated name is written in its place, a new one goes last. -/
def setEntry (key : List Char) (value : Value) : List (List Char × Value) → List (List Char × Value)
  | [] => [(key, value)]
  | entry :: entries => if entry.1 = key then (entry.1, value) :: entries else entry :: setEntry key value entries

theorem names_setEntry (key : List Char) (value : Value) (entries : List (List Char × Value)) :
    (setEntry key value entries).map Prod.fst =
      if key ∈ entries.map Prod.fst then entries.map Prod.fst else entries.map Prod.fst ++ [key] := by
  induction entries with
  | nil => rfl
  | cons entry entries ih =>
    rw [setEntry]
    by_cases same : entry.1 = key
    · simp [same]
    · rw [if_neg same, List.map_cons, ih, List.map_cons]
      by_cases found : key ∈ entries.map Prod.fst
      · rw [if_pos found, if_pos (List.mem_cons_of_mem _ found)]
      · rw [if_neg found, if_neg]
        · rfl
        · rw [List.mem_cons]
          rintro (first | later)
          · exact same first.symm
          · exact found later

/-- An insertion-ordered prop bag. -/
structure Props where
  entries : List (List Char × Value)
  distinct : (entries.map Prod.fst).Nodup

def Props.new : Props := ⟨[], List.nodup_nil⟩

def Props.set (props : Props) (key : List Char) (value : Value) : Props where
  entries := setEntry key value props.entries
  distinct := by
    rw [names_setEntry]
    split
    · exact props.distinct
    · rename_i new
      exact List.Nodup.append props.distinct (List.nodup_singleton key) (List.disjoint_singleton.mpr new)

def Props.remove (props : Props) (key : List Char) : Props where
  entries := props.entries.eraseP fun entry => entry.1 = key
  distinct := props.distinct.sublist (List.eraseP_sublist.map Prod.fst)

def Props.get (props : Props) (key : List Char) : Option Value :=
  (props.entries.find? fun entry => entry.1 = key).map Prod.snd

/-- `Value::as_str`. -/
def Value.asStr : Value → Option (List Char)
  | .string s => some s
  | _ => none

def Props.getStr (props : Props) (key : List Char) : Option (List Char) := (props.get key).bind Value.asStr

inductive TextSegment where
  | literal (text : List Char)
  | expr (source : List Char)

inductive FragmentNode where
  | text (value : List Char) (segments : Option (List TextSegment))
  | element (name : List Char) (props : Props) (children : List FragmentNode) (selfClosing : Bool)

/-- `FragmentNode::text`. -/
def FragmentNode.plain (value : List Char) : FragmentNode := .text value none

structure FragmentOp where
  op : List Char
  target : NodeRef
  prop : Option (List Char)
  attr : Option (List Char)
  value : Option Value

/-- `find_by_id`, with the path buffer handed from call to call. -/
def findById (id : List Char) : List FragmentNode → Nat → List Nat → Option (List Nat) × List Nat
  | [], _, path => (none, path)
  | .text _ _ :: nodes, index, path => findById id nodes (index + 1) path
  | .element _ props children _ :: nodes, index, path =>
    if props.getStr "id".toList = some id then (some (path ++ [index]), path ++ [index])
    else
      let inside := findById id children 0 (path ++ [index])
      if inside.1.isSome then inside else findById id nodes (index + 1) inside.2.dropLast

/-- The walk of `node_at` from a node it has reached. -/
def FragmentNode.descend : FragmentNode → List Nat → Option FragmentNode
  | node, [] => some node
  | .text _ _, _ :: _ => none
  | .element _ _ children _, index :: rest => children[index]?.bind (FragmentNode.descend · rest)

def nodeAt (tree : List FragmentNode) : List Nat → Option FragmentNode
  | [] => none
  | first :: rest => tree[first]?.bind (FragmentNode.descend · rest)

def resolveTarget (tree : List FragmentNode) : NodeRef → Option (List Nat)
  | .id id => (findById id tree 0 []).1
  | .path path => (nodeAt tree (path.map UInt64.toNat)).map fun _ => path.map UInt64.toNat
  | .selector _ => none

/-- A write to the props and the children of an element. -/
abbrev Edit := Props → List FragmentNode → Props × List FragmentNode

/-- The walk of `node_at_mut` from a node it has reached, with the write at its end. -/
def FragmentNode.modify (edit : Edit) : List Nat → FragmentNode → FragmentNode
  | _, .text value segments => .text value segments
  | [], .element name props children selfClosing =>
    .element name (edit props children).1 (edit props children).2 selfClosing
  | index :: rest, .element name props children selfClosing =>
    .element name props (children.modify index (FragmentNode.modify edit rest)) selfClosing

/-- A write through `node_at_mut`, which leaves the tree alone where no element stands at the path. -/
def modifyAt (edit : Edit) (tree : List FragmentNode) : List Nat → List FragmentNode
  | [] => tree
  | first :: rest => tree.modify first (FragmentNode.modify edit rest)

/-- `js_number_to_string`. -/
def jsNumberToString (n : F64) : List Char := n.toText.map Char.ofNat

mutual

/-- `js_string`. -/
def jsString : Value → List Char
  | .string s => s
  | .number n => jsNumberToString n
  | .bool b => if b then "true".toList else "false".toList
  | .null => "null".toList
  | .array items => [','].intercalate (jsStrings items)
  | .object _ => "[object Object]".toList

def jsStrings : List Value → List (List Char)
  | [] => []
  | .null :: items => [] :: jsStrings items
  | item :: items => jsString item :: jsStrings items

end

/-- `FromIterator` of `Props`. -/
def Props.collect (members : List (List Char × Value)) : Props :=
  members.foldl (fun props member => props.set member.1 member.2) .new

mutual

def jsmlValueToNode : Value → Option FragmentNode
  | .string text => some (.plain text)
  | .array (.string name :: .object members :: items) => some (.element name (.collect members) (jsmlChildren items) false)
  | .array (.string name :: items) => some (.element name .new (jsmlChildren items) false)
  | _ => none

/-- `filter_map(jsml_value_to_node)`. -/
def jsmlChildren : List Value → List FragmentNode
  | [] => []
  | item :: items => (jsmlValueToNode item).toList ++ jsmlChildren items

end

/-- `Value::as_bool`. -/
def Value.asBool : Value → Option Bool
  | .bool b => some b
  | _ => none

/-- What an op writes at the element it names, where its arm reaches `node_at_mut`. -/
def FragmentOp.edit (op : FragmentOp) : Option Edit :=
  if op.op = "toggle".toList then
    let visible := (op.value.bind Value.asBool).getD false
    some fun props children => (props.set "data-if-visible".toList (.bool visible), children)
  else if op.op = "setText".toList then
    let text := (op.value.map jsString).getD []
    some fun props _ => (props, [.plain text])
  else if op.op = "setProp".toList ∨ op.op = "setAttr".toList then
    match op.prop.or op.attr, op.value with
    | some prop, some value => some fun props children => (props.set prop value, children)
    | _, _ => none
  else if op.op = "removeAttr".toList then
    (op.prop.or op.attr).map fun prop props children => (props.remove prop, children)
  else if op.op = "replaceChildren".toList then
    let replaced := match op.value with
      | some (.string text) => [.plain text]
      | some (.array items) => jsmlChildren items
      | _ => []
    some fun props _ => (props, replaced)
  else none

/-- One round of the loop of `apply_ops`. -/
def applyOp (tree : List FragmentNode) (op : FragmentOp) : List FragmentNode :=
  match resolveTarget tree op.target, op.edit with
  | some path, some edit => modifyAt edit tree path
  | _, _ => tree

def applyOps : List FragmentNode → List FragmentOp → List FragmentNode
  | tree, [] => tree
  | tree, op :: ops => applyOps (applyOp tree op) ops

end Rust

end Xript
