import Xript.Repeat.Diff

namespace Xript

variable {sequence : List Nat}

/-- The element of `sequence` at an index the search holds. -/
abbrev elementAt (sequence : List Nat) (i : Nat) : Nat := sequence.getD i 0

/-- Strictly increasing, place by place. -/
def Ascending (values : List Nat) : Prop :=
  ∀ (j k v w : Nat), j < k → values[j]? = some v → values[k]? = some w → v < w

/-- The binary search finds where the value is placed, from any range that holds the place. -/
theorem leftmostTail_between {tails : List Nat} {value : Nat} (ascending : Ascending (tails.map (elementAt sequence)))
    {fuel lo hi : Nat} (enough : hi - lo ≤ fuel) (order : lo ≤ hi) (within : hi ≤ tails.length)
    (below : ∀ k t, tails[k]? = some t → k < lo → elementAt sequence t < value)
    (notBelow : ∀ k t, tails[k]? = some t → hi ≤ k → value ≤ elementAt sequence t) :
    Placed (tails.map (elementAt sequence)) value (leftmostTail sequence tails value fuel lo hi) := by
  induction fuel generalizing lo hi with
  | zero =>
    have met : hi = lo := by omega
    subst met
    refine ⟨by simpa [leftmostTail] using within, ?_, ?_⟩
    · intro k w atK before
      obtain ⟨t, atT, rfl⟩ := Option.map_eq_some_iff.mp (List.getElem?_map .. ▸ atK)
      exact below k t atT before
    · intro k w atK after
      obtain ⟨t, atT, rfl⟩ := Option.map_eq_some_iff.mp (List.getElem?_map .. ▸ atK)
      exact notBelow k t atT after
  | succ fuel ih =>
    rw [leftmostTail]
    split
    · rename_i nonempty
      have inside : (lo + hi) / 2 < tails.length := by omega
      have middle : tails.getD ((lo + hi) / 2) 0 = tails[(lo + hi) / 2] := by
        rw [List.getD_eq_getElem?_getD, List.getElem?_eq_getElem inside, Option.getD_some]
      have atMiddle : tails[(lo + hi) / 2]? = some tails[(lo + hi) / 2] := List.getElem?_eq_getElem inside
      have valueAt : ∀ {k t : Nat}, tails[k]? = some t →
          (tails.map (elementAt sequence))[k]? = some (elementAt sequence t) := by
        intro k t atT
        rw [List.getElem?_map, atT]
        rfl
      simp only [middle]
      split
      · rename_i less
        refine ih (by omega) (by omega) within (fun k t atT before => ?_) notBelow
        rcases Nat.lt_or_ge k ((lo + hi) / 2) with earlier | here
        · exact (ascending k _ _ _ earlier (valueAt atT) (valueAt atMiddle)).trans less
        · have same : k = (lo + hi) / 2 := by omega
          subst same
          obtain rfl := Option.some.inj (atMiddle.symm.trans atT)
          exact less
      · rename_i notLess
        refine ih (by omega) (by omega) (by omega) below (fun k t atT after => ?_)
        rcases Nat.lt_or_ge ((lo + hi) / 2) k with later | here
        · have := ascending _ k _ _ later (valueAt atMiddle) (valueAt atT)
          simp only [elementAt] at this ⊢
          omega
        · have same : k = (lo + hi) / 2 := by omega
          subst same
          obtain rfl := Option.some.inj (atMiddle.symm.trans atT)
          exact not_lt.mp notLess
    · rename_i closed
      have met : hi = lo := by omega
      subst met
      refine ⟨by simpa using within, ?_, ?_⟩
      · intro k w atK before
        obtain ⟨t, atT, rfl⟩ := Option.map_eq_some_iff.mp (List.getElem?_map .. ▸ atK)
        exact below k t atT before
      · intro k w atK after
        obtain ⟨t, atT, rfl⟩ := Option.map_eq_some_iff.mp (List.getElem?_map .. ▸ atK)
        exact notBelow k t atT after

theorem leftmostTail_placed {tails : List Nat} (value : Nat)
    (ascending : Ascending (tails.map (elementAt sequence))) :
    Placed (tails.map (elementAt sequence)) value
      (leftmostTail sequence tails value tails.length 0 tails.length) := by
  refine leftmostTail_between ascending (by omega) (by omega) le_rfl (fun k t _ before => by omega) ?_
  intro k t atT after
  rw [List.getElem?_eq_none after] at atT
  cases atT

/-- An index with `k` predecessors before it, each at a smaller index and of a smaller element. -/
def HasPredecessors (sequence : List Nat) (predecessors : List (Option Nat)) : Nat → Nat → Prop
  | 0, _ => True
  | k + 1, i => ∃ p, predecessors[i]? = some (some p) ∧ p < i ∧ elementAt sequence p < elementAt sequence i ∧
      HasPredecessors sequence predecessors k p

/-- Predecessors of earlier indices are not written again. -/
theorem HasPredecessors.set {predecessors : List (Option Nat)} {k i j : Nat} {p : Option Nat}
    (has : HasPredecessors sequence predecessors k i) (before : i < j) :
    HasPredecessors sequence (predecessors.set j p) k i := by
  induction k generalizing i with
  | zero => trivial
  | succ k ih =>
    obtain ⟨q, atI, smaller, less, rest⟩ := has
    refine ⟨q, ?_, smaller, less, ih rest (by omega)⟩
    rw [List.getElem?_set_ne (by omega)]
    exact atI

/-- What the loop keeps after `n` indices. -/
structure TailsAt (sequence : List Nat) (n : Nat) (state : TailState) : Prop where
  width : state.predecessors.length = sequence.length
  before : ∀ (k t : Nat), state.tails[k]? = some t → t < n
  ascending : Ascending (state.tails.map (elementAt sequence))
  covers : Covers (sequence.take n) (state.tails.map (elementAt sequence))
  linked : ∀ (k t : Nat), state.tails[k]? = some t → HasPredecessors sequence state.predecessors k t

theorem tailsAt_zero (sequence : List Nat) :
    TailsAt sequence 0 ⟨[], List.replicate sequence.length none⟩ where
  width := List.length_replicate
  before := by simp
  ascending := by
    intro j k v w _ atJ
    simp at atJ
  covers := covers_nil
  linked := by simp

/-- One turn of the loop keeps it. -/
theorem TailsAt.step {n : Nat} {state : TailState} (holds : TailsAt sequence n state)
    (inside : n < sequence.length) : TailsAt sequence (n + 1) (placeIndex sequence state n) := by
  have placed := leftmostTail_placed (sequence.getD n 0) holds.ascending
  set lo := leftmostTail sequence state.tails (sequence.getD n 0) state.tails.length 0 state.tails.length
    with loDef
  have within : lo ≤ state.tails.length := by simpa using placed.within
  have tails : (placeIndex sequence state n).tails = replaceAt state.tails lo n := rfl
  have links : (placeIndex sequence state n).predecessors =
    state.predecessors.set n (if 0 < lo then state.tails[lo - 1]? else none) := rfl
  have lookup := replaceAt_getElem? n within
  constructor
  · rw [links, List.length_set]
    exact holds.width
  · intro k t atT
    rw [tails, lookup] at atT
    split at atT
    · obtain rfl := Option.some.inj atT
      exact Nat.lt_succ_self _
    · exact (holds.before k t atT).trans (Nat.lt_succ_self n)
  · rw [tails, map_replaceAt]
    exact placed.increasing holds.ascending
  · rw [tails, map_replaceAt, List.take_add_one, List.getElem?_eq_getElem inside]
    have element : elementAt sequence n = sequence[n] := by
      rw [elementAt, List.getD_eq_getElem?_getD, List.getElem?_eq_getElem inside, Option.getD_some]
    rw [← element]
    exact holds.covers.place placed
  · intro k t atT
    rw [tails, lookup] at atT
    rw [links]
    split at atT
    · rename_i here
      obtain rfl := Option.some.inj atT
      cases k with
      | zero => trivial
      | succ k =>
        have present : k < state.tails.length := by omega
        have atK : state.tails[k]? = some state.tails[k] := List.getElem?_eq_getElem present
        have earlier := holds.before k _ atK
        refine ⟨state.tails[k], ?_, earlier, ?_, (holds.linked k _ atK).set earlier⟩
        · rw [List.getElem?_set_self (by rw [holds.width]; exact inside), if_pos (by omega), ← here,
            Nat.add_sub_cancel, atK]
        · refine placed.below k _ ?_ (by omega)
          rw [List.getElem?_map, atK]
          rfl
    · exact (holds.linked k t atT).set (holds.before k t atT)

theorem tailsAt_run {n : Nat} (bounded : n ≤ sequence.length) :
    TailsAt sequence n ((List.range n).foldl (placeIndex sequence) ⟨[], List.replicate sequence.length none⟩) := by
  induction n with
  | zero => exact tailsAt_zero sequence
  | succ n ih =>
    rw [List.range_succ, List.foldl_append]
    exact (ih (by omega)).step (by omega)

/-- Earlier in the sequence, and a smaller element. -/
def Follows (sequence : List Nat) (i j : Nat) : Prop := i < j ∧ elementAt sequence i < elementAt sequence j

/-- Walking back from an index with `k` predecessors spells an increasing chain of them before it. -/
theorem walkBack_chain {predecessors : List (Option Nat)} {k i : Nat}
    (has : HasPredecessors sequence predecessors k i) (result : List Nat) :
    ∃ chain, walkBack predecessors (k + 1) (some i) result = chain ++ i :: result ∧ chain.length = k ∧
      (chain ++ [i]).Pairwise (Follows sequence) := by
  induction k generalizing i result with
  | zero => exact ⟨[], rfl, rfl, List.pairwise_singleton ..⟩
  | succ k ih =>
    obtain ⟨p, atI, smaller, less, rest⟩ := has
    obtain ⟨chain, walked, length, pairwise⟩ := ih rest (i :: result)
    refine ⟨chain ++ [p], ?_, by simp [length], ?_⟩
    · rw [walkBack, List.getD_eq_getElem?_getD, atI, Option.getD_some, walked, List.append_assoc]
      rfl
    · rw [List.pairwise_append]
      refine ⟨pairwise, List.pairwise_singleton .., ?_⟩
      intro x member y last
      obtain rfl := List.mem_singleton.mp last
      rcases List.mem_append.mp member with earlier | here
      · have follows : Follows sequence x p :=
          (List.pairwise_append.mp pairwise).2.2 x earlier p (List.mem_singleton_self p)
        exact ⟨follows.1.trans smaller, follows.2.trans less⟩
      · obtain rfl := List.mem_singleton.mp here
        exact ⟨smaller, less⟩

/-- The result is an increasing subsequence, and none is longer. -/
theorem longestIncreasingSubsequence_spec (sequence : List Nat) :
    (longestIncreasingSubsequence sequence).Pairwise (Follows sequence) ∧
      (∀ i ∈ longestIncreasingSubsequence sequence, i < sequence.length) ∧
      ∀ part : List Nat, part.Sublist sequence → part.Pairwise (· < ·) →
        part.length ≤ (longestIncreasingSubsequence sequence).length := by
  have holds := @tailsAt_run sequence _ le_rfl
  set state := (List.range sequence.length).foldl (placeIndex sequence)
    ⟨[], List.replicate sequence.length none⟩ with stateDef
  have unfolded : longestIncreasingSubsequence sequence =
    walkBack state.predecessors state.tails.length state.tails.getLast? [] := rfl
  have covered : ∀ part : List Nat, part.Sublist sequence → part.Pairwise (· < ·) →
      part.length ≤ state.tails.length := by
    intro part sub increasing
    have covers := holds.covers
    rw [List.take_length] at covers
    simpa using covers.length_le sub increasing
  rcases Nat.eq_zero_or_pos state.tails.length with empty | positive
  · have none : longestIncreasingSubsequence sequence = [] := by
      rw [unfolded, empty]
      rfl
    rw [none]
    refine ⟨List.Pairwise.nil, by simp, fun part sub increasing => ?_⟩
    exact (covered part sub increasing).trans_eq empty
  · obtain ⟨k, length⟩ : ∃ k, state.tails.length = k + 1 := ⟨state.tails.length - 1, by omega⟩
    obtain ⟨t, atLast⟩ : ∃ t, state.tails[k]? = some t := ⟨_, List.getElem?_eq_getElem (by omega)⟩
    have last : state.tails.getLast? = some t := by
      rw [List.getLast?_eq_getElem?, length, Nat.add_sub_cancel, atLast]
    obtain ⟨chain, walked, chainLength, pairwise⟩ := walkBack_chain (holds.linked k _ atLast) []
    have found : longestIncreasingSubsequence sequence = chain ++ [t] := by
      rw [unfolded, length, last, walked]
    rw [found]
    refine ⟨pairwise, ?_, ?_⟩
    · intro i member
      have bounded := holds.before k _ atLast
      rcases List.mem_append.mp member with earlier | here
      · exact ((List.pairwise_append.mp pairwise).2.2 i earlier _ (List.mem_singleton_self _)).1.trans bounded
      · exact List.mem_singleton.mp here ▸ bounded
    · intro part sub increasing
      have := covered part sub increasing
      simp only [List.length_append, List.length_singleton, chainLength]
      omega

end Xript
