import Xript.Crossing.Markers

namespace Xript

namespace Serde

inductive Source where
  | array (items : List Value)
  | object (entries : List (List Char × Value))

inductive Out where
  | array (items : List Value)
  | object (entries : List (List Char × Value))

structure Frame where
  source : Source
  out : Out
  key : Option (List Char)

/-- `open`: a frame for a container, the value itself for a leaf. -/
def openFrame (value : Value) (key : Option (List Char)) : Except Value Frame :=
  match value with
  | .array items => .ok ⟨.array items, .array [], key⟩
  | .object entries => .ok ⟨.object entries, .object [], key⟩
  | leaf => .error leaf

def put (preserveOrder : Bool) (out : Out) (key : Option (List Char)) (value : Value) : Out :=
  match out with
  | .array items => .array (items ++ [value])
  | .object entries => .object (insert preserveOrder (key.getD []) value entries)

/-- The iterator's next item with its key, and the iterator behind it. -/
def Source.next : Source → Option (Option (List Char) × Value × Source)
  | .array [] => none
  | .array (item :: items) => some (none, item, .array items)
  | .object [] => none
  | .object ((key, item) :: entries) => some (some key, item, .object entries)

def Out.done : Out → Value
  | .array items => .array items
  | .object entries => .object entries

mutual

/-- The rounds of the loop a value takes, a container one to open it and one to close it. -/
def Value.size : Value → Nat
  | .array items => sizeItems items + 2
  | .object entries => sizeEntries entries + 2
  | _ => 1

def sizeItems : List Value → Nat
  | [] => 0
  | item :: items => item.size + sizeItems items

def sizeEntries : List (List Char × Value) → Nat
  | [] => 0
  | (_, item) :: entries => item.size + sizeEntries entries

end

/-- The rounds the rest of an iterator takes. -/
def Source.left : Source → Nat
  | .array items => sizeItems items
  | .object entries => sizeEntries entries

def Frame.weight (frame : Frame) : Nat := frame.source.left + 1

theorem next_left {source rest : Source} {key : Option (List Char)} {item : Value}
    (next : source.next = some (key, item, rest)) : source.left = item.size + rest.left := by
  unfold Source.next at next
  split at next
  · cases next
  · obtain ⟨rfl, rfl⟩ := Prod.mk.inj (Prod.mk.inj (Option.some.inj next)).2
    rfl
  · cases next
  · obtain ⟨rfl, rfl⟩ := Prod.mk.inj (Prod.mk.inj (Option.some.inj next)).2
    rfl

theorem size_pos (value : Value) : 0 < value.size := by
  cases value with
  | null | bool | number | string => exact Nat.zero_lt_one
  | array | object => exact Nat.succ_pos _

theorem open_weight {item : Value} {key : Option (List Char)} {frame : Frame} (opened : openFrame item key = .ok frame) :
    frame.weight + 1 = item.size := by
  unfold openFrame at opened
  split at opened
  · obtain rfl := Except.ok.inj opened
    rfl
  · obtain rfl := Except.ok.inj opened
    rfl
  · cases opened

/-- The loop of `copy`, on the frame on top of the stack and those under it. -/
def copyLoop (preserveOrder : Bool) (top : Frame) (stack : List Frame) : Value :=
  match _ : top.source.next with
  | some (key, item, source) =>
    match _ : openFrame item key with
    | .ok frame => copyLoop preserveOrder frame ({ top with source := source } :: stack)
    | .error leaf => copyLoop preserveOrder { top with source := source, out := put preserveOrder top.out key leaf } stack
  | none =>
    match stack with
    | parent :: stack => copyLoop preserveOrder { parent with out := put preserveOrder parent.out top.key top.out.done } stack
    | [] => top.out.done
termination_by top.weight + (stack.map Frame.weight).sum
decreasing_by
  · have step := next_left ‹_›
    have inner := open_weight ‹_›
    simp only [List.map_cons, List.sum_cons, Frame.weight] at inner ⊢
    omega
  · have step := next_left ‹_›
    have := size_pos item
    simp only [Frame.weight]
    omega
  · simp only [List.map_cons, List.sum_cons, Frame.weight]
    omega

/-- `copy`. -/
def copy (preserveOrder : Bool) (value : Value) : Value :=
  match openFrame value none with
  | .ok frame => copyLoop preserveOrder frame []
  | .error leaf => leaf

/-- The order of the keys of a map: any but no key twice, or ascending. -/
def Before (preserveOrder : Bool) (a b : List Char) : Prop :=
  a ≠ b ∧ (preserveOrder = false → a.map Char.toNat < b.map Char.toNat)

mutual

/-- The values of the type, whose objects are maps. -/
def Value.Proper (preserveOrder : Bool) : Value → Prop
  | .array items => ProperItems preserveOrder items
  | .object entries => (entries.map Prod.fst).Pairwise (Before preserveOrder) ∧ ProperEntries preserveOrder entries
  | _ => True

def ProperItems (preserveOrder : Bool) : List Value → Prop
  | [] => True
  | item :: items => item.Proper preserveOrder ∧ ProperItems preserveOrder items

def ProperEntries (preserveOrder : Bool) : List (List Char × Value) → Prop
  | [] => True
  | (_, item) :: entries => item.Proper preserveOrder ∧ ProperEntries preserveOrder entries

end

/-- The next key of an iterator goes last into the copy. -/
theorem insert_last {preserveOrder : Bool} {entries : List (List Char × Value)} {key : List Char}
    (order : (entries.map Prod.fst ++ [key]).Pairwise (Before preserveOrder)) (value : Value) :
    insert preserveOrder key value entries = entries ++ [(key, value)] := by
  induction entries with
  | nil => rfl
  | cons entry entries ih =>
    rw [List.map_cons, List.cons_append, List.pairwise_cons] at order
    obtain ⟨other, before⟩ := order.1 key (List.mem_append_right _ List.mem_cons_self)
    rw [insert, if_neg other, if_neg, ih order.2, List.cons_append]
    rintro ⟨sorted, after⟩
    exact List.lt_asymm after (before sorted)

/-- What the loop does once a container has been copied to its end. -/
def close (preserveOrder : Bool) (done : Value) (key : Option (List Char)) : List Frame → Value
  | parent :: stack => copyLoop preserveOrder { parent with out := put preserveOrder parent.out key done } stack
  | [] => done

theorem copyLoop_end {preserveOrder : Bool} {top : Frame} (ended : top.source.next = none) (stack : List Frame) :
    copyLoop preserveOrder top stack = close preserveOrder top.out.done top.key stack := by
  rw [copyLoop.eq_def]
  split
  · rename_i more
    rw [ended] at more
    cases more
  · cases stack with
    | nil => rfl
    | cons parent stack => rfl

/-- The loop copies an item and goes on behind it. -/
def Copied (preserveOrder : Bool) (item : Value) : Prop :=
  ∀ (top : Frame) (key : Option (List Char)) (source : Source) (stack : List Frame), top.source.next = some (key, item, source) →
    copyLoop preserveOrder top stack =
      copyLoop preserveOrder { top with source := source, out := put preserveOrder top.out key item } stack

theorem copied_leaf {preserveOrder : Bool} {item : Value} (leaf : ∀ key, openFrame item key = .error item) :
    Copied preserveOrder item := by
  intro top key source stack next
  rw [copyLoop.eq_def]
  split
  · rename_i more
    rw [next] at more
    obtain ⟨rfl, inner⟩ := Prod.mk.inj (Option.some.inj more)
    obtain ⟨rfl, rfl⟩ := Prod.mk.inj inner
    split
    · rename_i opened
      rw [leaf] at opened
      cases opened
    · rename_i opened
      rw [leaf] at opened
      rw [Except.error.inj opened]
  · rename_i ended
    rw [next] at ended
    cases ended

/-- A container is copied by its own frame, and the copy then goes to the frame under it. -/
theorem copied_container {preserveOrder : Bool} {item : Value} {source : Source} {out : Out}
    (container : ∀ key, openFrame item key = .ok ⟨source, out, key⟩)
    (inner : ∀ key stack, copyLoop preserveOrder ⟨source, out, key⟩ stack = close preserveOrder item key stack) :
    Copied preserveOrder item := by
  intro top key rest stack next
  rw [copyLoop.eq_def]
  split
  · rename_i more
    rw [next] at more
    obtain ⟨rfl, under⟩ := Prod.mk.inj (Option.some.inj more)
    obtain ⟨rfl, rfl⟩ := Prod.mk.inj under
    split
    · rename_i opened
      rw [container] at opened
      rw [← Except.ok.inj opened, inner]
      rfl
    · rename_i opened
      rw [container] at opened
      cases opened
  · rename_i ended
    rw [next] at ended
    cases ended

mutual

theorem value_copied {preserveOrder : Bool} : ∀ (value : Value), value.Proper preserveOrder → Copied preserveOrder value
  | .null, _ => copied_leaf fun _ => rfl
  | .bool _, _ => copied_leaf fun _ => rfl
  | .number _, _ => copied_leaf fun _ => rfl
  | .string _, _ => copied_leaf fun _ => rfl
  | .array items, proper => copied_container (fun _ => rfl) fun key stack => items_copied items proper [] key stack
  | .object entries, proper =>
    copied_container (fun _ => rfl) fun key stack => entries_copied entries proper.2 [] proper.1 key stack

theorem items_copied {preserveOrder : Bool} : ∀ (items : List Value), ProperItems preserveOrder items →
    ∀ (out : List Value) (key : Option (List Char)) (stack : List Frame),
      copyLoop preserveOrder ⟨.array items, .array out, key⟩ stack = close preserveOrder (.array (out ++ items)) key stack
  | [], _, out, key, stack => by
    rw [copyLoop_end rfl, List.append_nil]
    rfl
  | item :: items, proper, out, key, stack => by
    rw [value_copied item proper.1 _ none (.array items) stack rfl]
    simp only [put]
    rw [items_copied items proper.2, List.append_assoc]
    rfl

theorem entries_copied {preserveOrder : Bool} : ∀ (entries : List (List Char × Value)), ProperEntries preserveOrder entries →
    ∀ (out : List (List Char × Value)), ((out ++ entries).map Prod.fst).Pairwise (Before preserveOrder) →
      ∀ (key : Option (List Char)) (stack : List Frame),
        copyLoop preserveOrder ⟨.object entries, .object out, key⟩ stack =
          close preserveOrder (.object (out ++ entries)) key stack
  | [], _, out, _, key, stack => by
    rw [copyLoop_end rfl, List.append_nil]
    rfl
  | (name, item) :: entries, proper, out, order, key, stack => by
    have upTo : (out.map Prod.fst ++ [name]).Pairwise (Before preserveOrder) := by
      refine order.sublist ?_
      rw [List.map_append, List.map_cons]
      exact (List.Sublist.refl _).append (List.Sublist.cons_cons _ (List.nil_sublist _))
    rw [value_copied item proper.1 _ (some name) (.object entries) stack rfl]
    simp only [put, Option.getD_some, insert_last upTo]
    rw [entries_copied entries proper.2, List.append_assoc]
    · rfl
    · rw [List.append_assoc]
      exact order

end

theorem copy_eq {preserveOrder : Bool} {value : Value} (proper : value.Proper preserveOrder) : copy preserveOrder value = value := by
  cases value with
  | null | bool | number | string => rfl
  | array items => exact items_copied items proper [] none []
  | object entries => exact entries_copied entries proper.2 [] proper.1 none []

/-- Markers and their objects are one to one, and the loop that copies a value gives the value. -/
theorem markers_and_copies (preserveOrder : Bool) :
    (∀ m : Marker, m.Built → Marker.fromValue (m.toValue preserveOrder) = some m) ∧
      (∀ (value : Value) (m : Marker), Marker.fromValue value = some m → (m.toValue preserveOrder).Same value) ∧
      ∀ value : Value, value.Proper preserveOrder → copy preserveOrder value = value :=
  ⟨fun _ built => fromValue_toValue preserveOrder built, fun _ _ read => toValue_of_fromValue preserveOrder read,
    fun _ proper => copy_eq proper⟩

end Serde

end Xript
