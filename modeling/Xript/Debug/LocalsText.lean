import Xript.Debug.Locals
import Xript.Order.Acyclic

namespace Xript

open Relation

section

variable {α β ε : Type}

theorem bind_ok_iff {x : Except ε α} {f : α → Except ε β} {b : β} : x.bind f = .ok b ↔ ∃ a, x = .ok a ∧ f a = .ok b := by
  cases x with
  | error e => simp [Except.bind]
  | ok a => simp [Except.bind]

theorem map_ok_iff {x : Except ε α} {f : α → β} {b : β} : x.map f = .ok b ↔ ∃ a, x = .ok a ∧ f a = b := by
  cases x with
  | error e => simp [Except.map]
  | ok a => simp [Except.map]

theorem map_error_iff {x : Except ε α} {f : α → β} {e : ε} : x.map f = .error e ↔ x = .error e := by
  cases x with
  | error e => simp [Except.map]
  | ok a => simp [Except.map]

theorem mapM_ok {f : α → Except ε β} {items : List α} {results : List β} (ok : items.mapM f = .ok results) {item : α}
    (member : item ∈ items) : ∃ result, f item = .ok result := by
  induction items generalizing results with
  | nil => cases member
  | cons first items ih =>
    rw [List.mapM_cons] at ok
    obtain ⟨result, one, rest⟩ := bind_ok_iff.mp ok
    obtain ⟨others, further, -⟩ := bind_ok_iff.mp rest
    rcases List.mem_cons.mp member with rfl | member
    · exact ⟨result, one⟩
    · exact ih further member

theorem mapM_error {f : α → Except ε β} {items : List α} {e : ε} (failed : items.mapM f = .error e) :
    ∃ item ∈ items, f item = .error e := by
  induction items with
  | nil => cases failed
  | cons first items ih =>
    rw [List.mapM_cons] at failed
    cases one : f first with
    | error e' =>
      rw [one] at failed
      cases failed
      exact ⟨first, List.mem_cons_self, one⟩
    | ok result =>
      rw [one] at failed
      cases rest : items.mapM f with
      | error e' =>
        obtain ⟨item, member, found⟩ := ih (by
          change ((items.mapM f).bind fun others => .ok (result :: others)) = .error e at failed
          rw [rest] at failed ⊢
          cases failed
          rfl)
        exact ⟨item, List.mem_cons_of_mem first member, found⟩
      | ok results =>
        change ((items.mapM f).bind fun others => .ok (result :: others)) = .error e at failed
        rw [rest] at failed
        cases failed

/-- Steps that each settle within some need settle together. -/
theorem settle_all {Settled : Nat → α → Prop} {items : List α}
    (each : ∀ item ∈ items, ∃ need, ∀ fuel, need ≤ fuel → Settled fuel item) :
    ∃ need, ∀ fuel, need ≤ fuel → ∀ item ∈ items, Settled fuel item := by
  induction items with
  | nil => exact ⟨0, fun _ _ _ member => absurd member List.not_mem_nil⟩
  | cons first items ih =>
    obtain ⟨need, settled⟩ := each first List.mem_cons_self
    obtain ⟨needs, settles⟩ := ih fun item member => each item (List.mem_cons_of_mem first member)
    refine ⟨max need needs, fun fuel enough => List.forall_mem_cons.mpr ⟨settled fuel (by omega), settles fuel (by omega)⟩⟩

end

namespace Locals

variable {size : Nat} {heap : Fin size → LocalCell size}

/-- The container `parent` has `child` for a member. -/
def Holds (heap : Fin size → LocalCell size) (parent child : Fin size) : Prop :=
  ∃ name, (name, Local.object child) ∈ entries (heap parent)

/-- A value in which a BigInt stands somewhere. -/
inductive HasBigint (heap : Fin size → LocalCell size) : Local size → Prop where
  | here (n : Int) : HasBigint heap (.prim (.bigint n))
  | inside {ref : Fin size} {name : JSString} {value : Local size} (member : (name, value) ∈ entries (heap ref)) :
    HasBigint heap value → HasBigint heap (.object ref)

/-- A value that `String` throws on: an object with an own `toString`, or an array with such an element. -/
inductive Unprintable (heap : Fin size → LocalCell size) : Local size → Prop where
  | named {ref : Fin size} {members : Record (Local size)} (here : heap ref = .object members)
    (own : (members.get (js "toString")).isSome = true) : Unprintable heap (.object ref)
  | item {ref : Fin size} {items : List (Local size)} {value : Local size} (here : heap ref = .array items)
    (member : value ∈ items) : Unprintable heap value → Unprintable heap (.object ref)

theorem mem_entries_array {ref : Fin size} {items : List (Local size)} (here : heap ref = .array items) {value : Local size}
    (member : value ∈ items) : ∃ name, (name, value) ∈ entries (heap ref) := by
  obtain ⟨i, bound, rfl⟩ := List.mem_iff_getElem.mp member
  refine ⟨decimal i, ?_⟩
  rw [here]
  exact List.mem_map.mpr ⟨(items[i], i), List.mk_mem_zipIdx_iff_getElem?.mpr (List.getElem?_eq_getElem bound), rfl⟩

theorem mem_of_entries_array {ref : Fin size} {items : List (Local size)} (here : heap ref = .array items) {name : JSString}
    {value : Local size} (member : (name, value) ∈ entries (heap ref)) : value ∈ items := by
  rw [here] at member
  obtain ⟨⟨item, i⟩, inside, same⟩ := List.mem_map.mp member
  cases same
  exact List.mem_of_getElem? (List.mk_mem_zipIdx_iff_getElem?.mp inside)

section Stringify

theorem stringify_object {fuel : Nat} {inside : List (Fin size)} {ref : Fin size} {text : Option JSString}
    (ok : stringify heap fuel inside (.object ref) = .ok text) : ref ∉ inside ∧ ∃ less, fuel = less + 1 ∧
      ∀ name value, (name, value) ∈ entries (heap ref) → ∃ text, stringify heap less (ref :: inside) value = .ok text := by
  unfold stringify at ok
  split at ok
  · cases ok
  · rename_i outside
    refine ⟨outside, ?_⟩
    cases fuel with
    | zero => cases ok
    | succ less =>
      refine ⟨less, rfl, fun name value member => ?_⟩
      dsimp only at ok
      split at ok
      · rename_i items here
        obtain ⟨texts, all, -⟩ := map_ok_iff.mp ok
        exact mapM_ok all (mem_of_entries_array here member)
      · rename_i members here
        obtain ⟨texts, all, -⟩ := map_ok_iff.mp ok
        rw [here] at member
        exact mapM_ok all member

theorem stringify_error {fuel : Nat} {inside : List (Fin size)} {ref : Fin size} {stop : ShowStop}
    (failed : stringify heap fuel inside (.object ref) = .error stop) : (ref ∈ inside ∧ stop = .typeError) ∨
      (fuel = 0 ∧ stop = .deep) ∨ ∃ less name value, fuel = less + 1 ∧ (name, value) ∈ entries (heap ref) ∧
        stringify heap less (ref :: inside) value = .error stop := by
  unfold stringify at failed
  split at failed
  · rename_i cyclic
    cases failed
    exact .inl ⟨cyclic, rfl⟩
  · cases fuel with
    | zero =>
      cases failed
      exact .inr (.inl ⟨rfl, rfl⟩)
    | succ less =>
      refine .inr (.inr ?_)
      dsimp only at failed
      split at failed
      · rename_i items here
        obtain ⟨value, member, found⟩ := mapM_error (map_error_iff.mp failed)
        obtain ⟨name, member⟩ := mem_entries_array here member
        exact ⟨less, name, value, rfl, member, found⟩
      · rename_i members here
        obtain ⟨⟨name, value⟩, member, found⟩ := mapM_error (map_error_iff.mp failed)
        exact ⟨less, name, value, rfl, by rw [here]; exact member, found⟩

/-- `JSON.stringify` throws on whatever a BigInt stands in. -/
theorem stringify_bigint {value : Local size} (bigint : HasBigint heap value) {fuel : Nat} {inside : List (Fin size)}
    {text : Option JSString} : stringify heap fuel inside value ≠ .ok text := by
  induction bigint generalizing fuel inside text with
  | here n =>
    unfold stringify
    exact fun ok => by cases ok
  | inside member _ ih =>
    intro ok
    obtain ⟨-, less, -, all⟩ := stringify_object ok
    obtain ⟨_, found⟩ := all _ _ member
    exact ih found

theorem stringify_prim_deep {fuel : Nat} {inside : List (Fin size)} {p : Primitive} :
    stringify heap fuel inside (.prim p) ≠ .error .deep := by
  unfold stringify
  cases p <;> exact fun failed => by cases failed

/-- Where values nest only so deep, `JSON.stringify` comes to an end. -/
theorem stringify_settles {ref : Fin size} (accessible : Acc (fun child parent => Holds heap parent child) ref) :
    ∃ need, ∀ fuel, need ≤ fuel → ∀ inside, stringify heap fuel inside (.object ref) ≠ .error .deep := by
  induction accessible with
  | intro ref _ ih =>
    have each : ∀ entry ∈ entries (heap ref), ∃ need, ∀ fuel, need ≤ fuel →
        ∀ inside, stringify heap fuel inside entry.2 ≠ .error .deep := by
      rintro ⟨name, value⟩ member
      cases value with
      | prim p => exact ⟨0, fun fuel _ inside => stringify_prim_deep⟩
      | object child => exact ih child ⟨name, member⟩
    obtain ⟨need, settled⟩ := settle_all each
    refine ⟨need + 1, fun fuel enough inside failed => ?_⟩
    rcases stringify_error failed with ⟨-, stop⟩ | ⟨short, -⟩ | ⟨less, name, value, rfl, member, found⟩
    · cases stop
    · omega
    · exact settled less (by omega) (name, value) member _ found

/-- `JSON.stringify` throws only on a BigInt or a cycle. -/
theorem stringify_typeError {value : Local size} (plain : ¬ HasBigint heap value) {fuel : Nat} {inside : List (Fin size)}
    (above : ∀ ref, value = .object ref → Acc (fun child parent => Holds heap parent child) ref ∧
      ∀ outer ∈ inside, TransGen (Holds heap) outer ref) : stringify heap fuel inside value ≠ .error .typeError := by
  induction fuel generalizing value inside with
  | zero =>
    intro failed
    cases value with
    | prim p =>
      unfold stringify at failed
      cases p <;> cases failed
      exact plain (.here _)
    | object ref =>
      obtain ⟨accessible, outer⟩ := above ref rfl
      rcases stringify_error failed with ⟨cyclic, -⟩ | ⟨-, stop⟩ | ⟨less, _, _, shape, -⟩
      · exact no_cycle_of_acc accessible (outer ref cyclic)
      · cases stop
      · omega
  | succ fuel ih =>
    intro failed
    cases value with
    | prim p =>
      unfold stringify at failed
      cases p <;> cases failed
      exact plain (.here _)
    | object ref =>
      obtain ⟨accessible, outer⟩ := above ref rfl
      rcases stringify_error failed with ⟨cyclic, -⟩ | ⟨shape, -⟩ | ⟨less, name, value, shape, member, found⟩
      · exact no_cycle_of_acc accessible (outer ref cyclic)
      · omega
      · obtain rfl : fuel = less := by omega
        refine ih (fun bigint => plain (.inside member bigint)) ?_ found
        rintro child rfl
        have step : Holds heap ref child := ⟨name, member⟩
        refine ⟨accessible.inv step, fun above member => ?_⟩
        rcases List.mem_cons.mp member with rfl | member
        · exact .single step
        · exact (outer above member).tail step

end Stringify

section StringOf

theorem stringOf_typeError {value : Local size} {fuel : Nat} {joining : List (Fin size)}
    (failed : stringOf heap fuel joining value = .error .typeError) : Unprintable heap value := by
  induction fuel generalizing value joining with
  | zero =>
    cases value with
    | prim p => cases failed
    | object ref => cases failed
  | succ fuel ih =>
    cases value with
    | prim p => cases failed
    | object ref =>
      unfold stringOf at failed
      split at failed
      · rename_i members here
        split at failed
        · rename_i own
          exact .named here own
        · cases failed
      · rename_i items here
        split at failed
        · cases failed
        · obtain ⟨item, member, found⟩ := mapM_error (map_error_iff.mp failed)
          split at found
          · cases found
          · exact .item here member (ih found)

theorem stringOf_unprintable {value : Local size} (unprintable : Unprintable heap value) {fuel : Nat}
    {joining : List (Fin size)} {text : JSString}
    (above : ∀ ref, value = .object ref → Acc (fun child parent => Holds heap parent child) ref ∧
      ∀ outer ∈ joining, TransGen (Holds heap) outer ref) : stringOf heap fuel joining value ≠ .ok text := by
  induction unprintable generalizing fuel joining text with
  | @named ref members here own =>
    intro ok
    cases fuel with
    | zero => cases ok
    | succ fuel =>
      unfold stringOf at ok
      rw [here] at ok
      dsimp only at ok
      rw [if_pos own] at ok
      cases ok
  | @item ref items value here member unprintable ih =>
    intro ok
    obtain ⟨accessible, outer⟩ := above ref rfl
    cases fuel with
    | zero => cases ok
    | succ fuel =>
      unfold stringOf at ok
      rw [here] at ok
      dsimp only at ok
      rw [if_neg fun cyclic => no_cycle_of_acc accessible (outer ref cyclic)] at ok
      obtain ⟨texts, all, -⟩ := map_ok_iff.mp ok
      obtain ⟨text, found⟩ := mapM_ok all member
      split at found
      · rename_i absent
        rcases absent with rfl | rfl <;> cases unprintable
      · refine ih ?_ found
        rintro child rfl
        obtain ⟨name, inside⟩ := mem_entries_array here member
        have step : Holds heap ref child := ⟨name, inside⟩
        refine ⟨accessible.inv step, fun above member => ?_⟩
        rcases List.mem_cons.mp member with rfl | member
        · exact .single step
        · exact (outer above member).tail step

theorem stringOf_settles {ref : Fin size} (accessible : Acc (fun child parent => Holds heap parent child) ref) :
    ∃ need, ∀ fuel, need ≤ fuel → ∀ joining, stringOf heap fuel joining (.object ref) ≠ .error .deep := by
  induction accessible with
  | intro ref _ ih =>
    have each : ∀ entry ∈ entries (heap ref), ∃ need, ∀ fuel, need ≤ fuel →
        ∀ joining, stringOf heap fuel joining entry.2 ≠ .error .deep := by
      rintro ⟨name, value⟩ member
      cases value with
      | prim p => exact ⟨0, fun fuel _ joining => by unfold stringOf; exact fun failed => by cases failed⟩
      | object child => exact ih child ⟨name, member⟩
    obtain ⟨need, settled⟩ := settle_all each
    refine ⟨need + 1, fun fuel enough joining failed => ?_⟩
    obtain ⟨less, rfl⟩ : ∃ less, fuel = less + 1 := ⟨fuel - 1, by omega⟩
    unfold stringOf at failed
    split at failed
    · split at failed <;> cases failed
    · rename_i items here
      split at failed
      · cases failed
      · obtain ⟨item, member, found⟩ := mapM_error (map_error_iff.mp failed)
        split at found
        · cases found
        · obtain ⟨name, inside⟩ := mem_entries_array here member
          exact settled less (by omega) (name, item) inside _ found

end StringOf

/-- A primitive always has a display text. -/
theorem displayString_prim (fuel : Nat) (p : Primitive) : ∃ text, displayString heap fuel (.prim p) = .ok text := by
  cases p with
  | bigint n =>
    unfold displayString stringify stringOf
    exact ⟨_, rfl⟩
  | undefined => exact ⟨_, rfl⟩
  | null => exact ⟨_, rfl⟩
  | bool b =>
    unfold displayString stringify
    exact ⟨_, rfl⟩
  | number x =>
    unfold displayString stringify
    exact ⟨_, rfl⟩
  | str s => exact ⟨_, rfl⟩

/-- Where a container has a display text, its BigInts do not come with something `String` throws on. -/
theorem displayString_ok {ref : Fin size} (accessible : Acc (fun child parent => Holds heap parent child) ref) {fuel : Nat}
    {text : JSString} (ok : displayString heap fuel (.object ref) = .ok text) :
    ¬ (HasBigint heap (.object ref) ∧ Unprintable heap (.object ref)) := by
  rintro ⟨bigint, unprintable⟩
  unfold displayString at ok
  dsimp only at ok
  split at ok
  · rename_i found
    exact stringify_bigint bigint found
  · refine stringOf_unprintable unprintable ?_ ok
    rintro _ ⟨⟩
    exact ⟨accessible, fun _ member => absurd member List.not_mem_nil⟩
  · cases ok

theorem displayString_settles {ref : Fin size} (accessible : Acc (fun child parent => Holds heap parent child) ref)
    (printable : ¬ (HasBigint heap (.object ref) ∧ Unprintable heap (.object ref))) :
    ∃ need, ∀ fuel, need ≤ fuel → ∃ text, displayString heap fuel (.object ref) = .ok text := by
  obtain ⟨need, stringified⟩ := stringify_settles accessible
  obtain ⟨need', spelled⟩ := stringOf_settles accessible
  refine ⟨max need need', fun fuel enough => ?_⟩
  unfold displayString
  dsimp only
  cases written : stringify heap fuel [] (.object ref) with
  | ok text => exact ⟨_, rfl⟩
  | error stop =>
    cases stop with
    | deep => exact absurd written (stringified fuel (by omega) [])
    | typeError =>
      have bigint : HasBigint heap (.object ref) := by
        by_contra plain
        refine stringify_typeError plain ?_ written
        rintro _ ⟨⟩
        exact ⟨accessible, fun _ member => absurd member List.not_mem_nil⟩
      cases read : stringOf heap fuel [] (.object ref) with
      | ok text => exact ⟨text, rfl⟩
      | error stop =>
        cases stop with
        | deep => exact absurd read (spelled fuel (by omega) [])
        | typeError => exact absurd ⟨bigint, stringOf_typeError read⟩ printable

end Locals

end Xript
