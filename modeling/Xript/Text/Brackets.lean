import Mathlib.Data.List.Basic
import Mathlib.Order.Lattice

namespace Xript

/-- What a symbol is to the nesting of a text; brackets of different kinds do not close each other. -/
inductive Bracket (κ : Type) where
  | opening (kind : κ)
  | closing (kind : κ)
  | plain

namespace Brackets

variable {α κ : Type} (shape : α → Bracket κ)

/-- Whether two neighbouring symbols open and close one bracket. -/
def paired [DecidableEq κ] (a b : α) : Bool :=
  match shape a, shape b with
  | .opening k, .closing k' => k = k'
  | _, _ => false

/-- The symbols left when every innermost pair is dropped, in one pass from the left. -/
def dropPairs [DecidableEq κ] : List α → List α
  | [] => []
  | [a] => [a]
  | a :: b :: s => if paired shape a b then dropPairs s else a :: dropPairs (b :: s)

/-- The deepest a walk gets that counts brackets of any kind and never goes below zero. -/
def deepest : Nat → List α → Nat
  | depth, [] => depth
  | depth, a :: s =>
    match shape a with
    | .opening _ => deepest (depth + 1) s
    | .closing _ => max depth (deepest (depth - 1) s)
    | .plain => deepest depth s

/-- Brackets that close each other, nested `h` deep. -/
inductive Balanced : Nat → List α → Prop
  | nil : Balanced 0 []
  | cons {k : κ} {o c : α} {h m : Nat} {s t : List α} (opens : shape o = .opening k) (closes : shape c = .closing k) :
    Balanced h s → Balanced m t → Balanced (max (h + 1) m) (o :: (s ++ c :: t))

/-- Read from the left, `n` brackets are open at once before any is closed by another kind. -/
inductive Reaches : Nat → List α → Prop
  | zero (s : List α) : Reaches 0 s
  | opening {k : κ} {o : α} {h n : Nat} {s t : List α} (opens : shape o = .opening k) :
    Balanced shape h s → Reaches n t → Reaches (n + 1) (s ++ o :: t)

variable {shape}

theorem Balanced.append {h m : Nat} {s t : List α} (first : Balanced shape h s) (second : Balanced shape m t) :
    Balanced shape (max h m) (s ++ t) := by
  induction first with
  | nil => rwa [Nat.zero_max]
  | @cons k o c h h' s s' opens closes inner _ _ ih =>
    rw [List.cons_append, List.append_assoc, List.cons_append, max_assoc]
    exact .cons opens closes inner ih

theorem Balanced.ends {h : Nat} {s : List α} (balanced : Balanced shape h s) :
    s = [] ∧ h = 0 ∨ 0 < h ∧ (∃ o t k, s = o :: t ∧ shape o = .opening k) ∧ ∃ t c k, s = t ++ [c] ∧ shape c = .closing k := by
  induction balanced with
  | nil => exact Or.inl ⟨rfl, rfl⟩
  | @cons k o c h m s t opens closes _ _ _ ih =>
    refine Or.inr ⟨by omega, ⟨o, _, k, rfl, opens⟩, ?_⟩
    rcases ih with ⟨rfl, -⟩ | ⟨-, -, u, d, k', rfl, last⟩
    · exact ⟨o :: s, c, k, rfl, closes⟩
    · exact ⟨o :: (s ++ c :: u), d, k', by simp, last⟩

theorem Reaches.prepend {h n : Nat} {s t : List α} (balanced : Balanced shape h s) (reaches : Reaches shape n t) :
    Reaches shape n (s ++ t) := by
  cases reaches with
  | zero => exact .zero _
  | opening opens inner rest =>
    rw [← List.append_assoc]
    exact .opening opens (balanced.append inner) rest

theorem Reaches.both {n m : Nat} {s : List α} (first : Reaches shape n s) (second : Reaches shape m s) :
    Reaches shape (max n m) s := by
  rcases le_total n m with less | more
  · rwa [max_eq_right less]
  · rwa [max_eq_left more]

theorem Reaches.mono {n m : Nat} {s : List α} (reaches : Reaches shape n s) (less : m ≤ n) : Reaches shape m s := by
  induction reaches generalizing m with
  | zero s =>
    rw [Nat.le_zero.mp less]
    exact .zero s
  | opening opens balanced _ ih =>
    cases m with
    | zero => exact .zero _
    | succ m => exact .opening opens balanced (ih (Nat.le_of_succ_le_succ less))

theorem Balanced.reaches {h : Nat} {s : List α} (balanced : Balanced shape h s) (t : List α) :
    Reaches shape h (s ++ t) := by
  induction balanced generalizing t with
  | nil => exact .zero _
  | @cons k o c h m s u opens closes inner _ ih ih' =>
    have own : Balanced shape (max (h + 1) 0) (o :: (s ++ [c])) := .cons opens closes inner .nil
    have deep : Reaches shape (h + 1) ([] ++ o :: (s ++ c :: u ++ t)) := .opening opens .nil (by
      rw [List.append_assoc]
      exact ih _)
    have later : Reaches shape m (o :: (s ++ [c]) ++ (u ++ t)) := (ih' t).prepend own
    have same : o :: (s ++ [c]) ++ (u ++ t) = [] ++ o :: (s ++ c :: u ++ t) := by simp
    exact deep.both (same ▸ later)

theorem Reaches.le_length {n : Nat} {s : List α} (reaches : Reaches shape n s) : n ≤ s.length := by
  induction reaches with
  | zero => exact Nat.zero_le _
  | opening _ _ _ ih =>
    rw [List.length_append, List.length_cons]
    omega

theorem le_deepest (depth : Nat) (s : List α) : depth ≤ deepest shape depth s := by
  induction s generalizing depth with
  | nil => exact le_rfl
  | cons a s ih =>
    rw [deepest]
    split
    · exact (Nat.le_succ depth).trans (ih _)
    · exact le_max_left _ _
    · exact ih depth

theorem deepest_opening {o : α} {k : κ} (opens : shape o = .opening k) (depth : Nat) (s : List α) :
    deepest shape depth (o :: s) = deepest shape (depth + 1) s := by rw [deepest, opens]

theorem deepest_closing {c : α} {k : κ} (closes : shape c = .closing k) (depth : Nat) (s : List α) :
    deepest shape depth (c :: s) = max depth (deepest shape (depth - 1) s) := by rw [deepest, closes]

theorem deepest_plain {a : α} (plain : shape a = .plain) (depth : Nat) (s : List α) :
    deepest shape depth (a :: s) = deepest shape depth s := by rw [deepest, plain]

/-- The walk gets as deep in brackets that close each other as they nest, and comes out where it was. -/
theorem Balanced.deepest {h : Nat} {s : List α} (balanced : Balanced shape h s) (depth : Nat) (t : List α) :
    deepest shape depth (s ++ t) = max (depth + h) (deepest shape depth t) := by
  induction balanced generalizing depth t with
  | nil => rw [List.nil_append, Nat.add_zero, max_eq_right (le_deepest depth t)]
  | cons opens closes _ _ ih ih' =>
    rw [List.cons_append, deepest_opening opens, List.append_assoc, List.cons_append, ih, deepest_closing closes, ih',
      Nat.add_sub_cancel]
    omega

theorem Reaches.le_deepest {n : Nat} {s : List α} (reaches : Reaches shape n s) (depth : Nat) :
    depth + n ≤ deepest shape depth s := by
  induction reaches generalizing depth with
  | zero => exact Brackets.le_deepest depth _
  | opening opens balanced _ ih =>
    rw [balanced.deepest, deepest_opening opens]
    have inner := ih (depth + 1)
    omega

variable [DecidableEq κ]

theorem paired_of {a b : α} {k : κ} (opens : shape a = .opening k) (closes : shape b = .closing k) :
    paired shape a b = true := by
  rw [paired, opens, closes]
  exact decide_eq_true rfl

theorem paired_opening {a b : α} {k : κ} (opens : shape b = .opening k) : paired shape a b = false := by
  rw [paired, opens]
  cases shape a <;> rfl

theorem paired_closing {a b : α} {k : κ} (closes : shape a = .closing k) : paired shape a b = false := by
  rw [paired, closes]

theorem dropPairs_paired {a b : α} (pair : paired shape a b = true) (s : List α) :
    dropPairs shape (a :: b :: s) = dropPairs shape s := by rw [dropPairs, if_pos pair]

theorem dropPairs_apart {a b : α} (apart : paired shape a b = false) (s : List α) :
    dropPairs shape (a :: b :: s) = a :: dropPairs shape (b :: s) := by
  rw [dropPairs, apart, if_neg Bool.false_ne_true]

/-- No pair lies across the end of a closing bracket. -/
theorem dropPairs_closing {c : α} {k : κ} (closes : shape c = .closing k) (s t : List α) :
    dropPairs shape (s ++ c :: t) = dropPairs shape (s ++ [c]) ++ dropPairs shape t := by
  have after : ∀ t, dropPairs shape (c :: t) = c :: dropPairs shape t := by
    intro t
    cases t with
    | nil => rfl
    | cons b t => exact dropPairs_apart (paired_closing closes) t
  induction s using dropPairs.induct shape with
  | case1 => exact after t
  | case2 a =>
    rw [List.singleton_append, List.singleton_append]
    cases pair : paired shape a c with
    | true =>
      rw [dropPairs_paired pair, dropPairs_paired pair]
      rfl
    | false =>
      rw [dropPairs_apart pair, dropPairs_apart pair, after]
      rfl
  | case3 a b s pair ih =>
    rw [List.cons_append, List.cons_append, List.cons_append, List.cons_append, dropPairs_paired pair,
      dropPairs_paired pair, ih]
  | case4 a b s apart ih =>
    rw [Bool.not_eq_true] at apart
    rw [List.cons_append, List.cons_append, List.cons_append, List.cons_append, dropPairs_apart apart,
      dropPairs_apart apart, ← List.cons_append, ih]
    rfl

theorem Balanced.dropPairs_append {h : Nat} {s : List α} (balanced : Balanced shape h s) (t : List α) :
    dropPairs shape (s ++ t) = dropPairs shape s ++ dropPairs shape t := by
  rcases balanced.ends with ⟨rfl, -⟩ | ⟨-, -, u, c, k, rfl, closes⟩
  · rfl
  · rw [List.append_assoc, List.singleton_append]
    exact dropPairs_closing closes u t

/-- A pass takes one level off brackets that close each other. -/
theorem Balanced.dropPairs {h : Nat} {s : List α} (balanced : Balanced shape h s) :
    Balanced shape (h - 1) (dropPairs shape s) := by
  induction balanced with
  | nil => exact .nil
  | @cons k o c h m s t opens closes inner _ ih ih' =>
    rcases inner.ends with ⟨rfl, rfl⟩ | ⟨deep, ⟨o', u, k', rfl, opens'⟩, -⟩
    · rw [List.nil_append, dropPairs_paired (paired_of opens closes)]
      have height : max (0 + 1) m - 1 = m - 1 := by omega
      rwa [height]
    · have height : max (h + 1) m - 1 = max (h - 1 + 1) (m - 1) := by omega
      rw [height, List.cons_append, dropPairs_apart (paired_opening opens'), ← List.cons_append,
        inner.dropPairs_append, ← List.nil_append (c :: t), dropPairs_closing closes [] t]
      exact .cons opens closes ih ih'

/-- A pass takes at most one level off any brackets: only the innermost of those open can lose its pair. -/
theorem Reaches.dropPairs {n : Nat} {s : List α} (reaches : Reaches shape (n + 1) s) :
    Reaches shape n (dropPairs shape s) := by
  induction n generalizing s with
  | zero => exact .zero _
  | succ n ih =>
    cases reaches with
    | @opening k o h _ s t opens balanced inner =>
      have kept : Brackets.dropPairs shape (o :: t) = o :: Brackets.dropPairs shape t := by
        cases inner with
        | @opening k' o' h' _ s' t' opens' balanced' inner' =>
          rcases balanced'.ends with ⟨rfl, -⟩ | ⟨-, ⟨b, u, k'', rfl, first⟩, -⟩
          · exact dropPairs_apart (paired_opening opens') _
          · exact dropPairs_apart (paired_opening first) _
      rw [balanced.dropPairs_append, kept]
      exact .opening opens balanced.dropPairs (ih inner)

end Brackets

end Xript
