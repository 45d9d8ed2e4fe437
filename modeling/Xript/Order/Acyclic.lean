import Mathlib.Data.Set.Card
import Mathlib.Logic.Relation

namespace Xript

open Relation

variable {α : Type} {r : α → α → Prop}

/-- Nothing that leads only to what is accessible leads back to itself. -/
theorem no_cycle_of_acc {a : α} (accessible : Acc (fun child parent => r parent child) a) : ¬ TransGen r a a := by
  induction accessible with
  | intro a _ ih =>
    intro cycle
    obtain ⟨b, first, rest⟩ := TransGen.head'_iff.mp cycle
    exact ih b first (TransGen.tail' rest first)

/-- Where nothing that `a` leads to leads back to itself and there is only so much, `a` is accessible. -/
theorem acc_of_no_cycle [Finite α] {a : α} (acyclic : ∀ b, ReflTransGen r a b → ¬ TransGen r b b) :
    Acc (fun child parent => r parent child) a := by
  generalize size : {b | TransGen r a b}.ncard = n
  induction n using Nat.strong_induction_on generalizing a with
  | _ n ih =>
    refine Acc.intro a fun b step => ?_
    have inside : {c | TransGen r b c} ⊂ {c | TransGen r a c} := by
      refine ⟨fun c further => TransGen.head step further, fun all => ?_⟩
      exact acyclic b (ReflTransGen.single step) (all (TransGen.single step))
    exact ih _ (size ▸ Set.ncard_lt_ncard inside (Set.toFinite _)) (fun c further => acyclic c (ReflTransGen.head step further)) rfl

end Xript
