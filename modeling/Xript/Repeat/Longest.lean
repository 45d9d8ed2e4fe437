import Mathlib.Data.List.Forall2
import Xript.Number.Compare
import Xript.Repeat.Subsequence

namespace Xript

section Ports

variable {α β : Type} (less : α → α → Bool) (code : Option Nat → β) (decode : β → Option Nat) (sequence : List α)

/-- The search for the leftmost tail not less than a value: none where a read leaves its list. The fuel is the width of
the range. -/
def searchTails (tails : List Nat) (value : α) : Nat → Nat → Nat → Option Nat
  | 0, lo, hi => if lo < hi then none else some lo
  | fuel + 1, lo, hi =>
    if lo < hi then do
      let mid := (lo + hi) / 2
      let element ← sequence[(← tails[mid]?)]?
      if less element value then searchTails tails value fuel (mid + 1) hi else searchTails tails value fuel lo mid
    else some lo

/-- The loop state of a port, which spells a predecessor and the lack of one its own way. -/
structure LinkedTails (β : Type) where
  tails : List Nat
  predecessors : List β

/-- The body of the loop at index `i`. -/
def linkIndex (state : LinkedTails β) (i : Nat) : Option (LinkedTails β) := do
  let lo ← searchTails less sequence state.tails (← sequence[i]?) state.tails.length 0 state.tails.length
  let predecessor ← if 0 < lo then (state.tails[lo - 1]?).map some else some none
  return ⟨replaceAt state.tails lo i, state.predecessors.set i (code predecessor)⟩

/-- Fills `count` places of the result from the last: none where the cursor is no index. -/
def walkLinks (predecessors : List β) : Nat → β → List Nat → Option (List Nat)
  | 0, _, result => some result
  | count + 1, cursor, result => do
    let place ← decode cursor
    walkLinks predecessors count (← predecessors[place]?) (place :: result)

/-- The patience method as both ports spell it out. -/
def longestIndices : Option (List Nat) := do
  let state ← (List.range sequence.length).foldlM (linkIndex less code sequence)
    ⟨[], List.replicate sequence.length (code none)⟩
  walkLinks decode state.predecessors state.tails.length (code state.tails.getLast?) []

end Ports

/-- `longestIncreasingSubsequence` over numbers, a lacking predecessor being `-1`. -/
def F64.longestIncreasingSubsequence (sequence : List F64) : Option (List Nat) :=
  longestIndices F64.lt (fun predecessor => predecessor.elim (-1) Int.ofNat)
    (fun cursor => if 0 ≤ cursor then some cursor.toNat else none) sequence

/-- The Rust port: `Option<usize>` for a predecessor, and a panic where the model has none. -/
def Rust.longestIncreasingSubsequence (sequence : List Nat) : Option (List Nat) :=
  longestIndices (fun a b => decide (a < b)) id id sequence

/-- Increasing indices of increasing elements, as many as any increasing subsequence has. -/
structure LongestIncreasing {α : Type} (less : α → α → Bool) (sequence : List α) (found : List Nat) : Prop where
  inside : ∀ i ∈ found, i < sequence.length
  increasing : found.Pairwise fun i j =>
    i < j ∧ ∃ x y, sequence[i]? = some x ∧ sequence[j]? = some y ∧ less x y = true
  longest : ∀ part : List α, part.Sublist sequence → part.Pairwise (fun x y => less x y = true) →
    part.length ≤ found.length

section Ranks

variable {α β : Type} {less : α → α → Bool} {code : Option Nat → β} {decode : β → Option Nat} {sequence : List α}
  {rank : α → Nat}

/-- Comparing elements is comparing their ranks. -/
def Ranked (less : α → α → Bool) (sequence : List α) (rank : α → Nat) : Prop :=
  ∀ x ∈ sequence, ∀ y ∈ sequence, less x y = decide (rank x < rank y)

theorem getD_rank {t : Nat} {x : α} (found : sequence[t]? = some x) : elementAt (sequence.map rank) t = rank x := by
  rw [elementAt, List.getD_eq_getElem?_getD, List.getElem?_map, found]
  rfl

theorem searchTails_eq (ranked : Ranked less sequence rank) {tails : List Nat}
    (indices : ∀ t ∈ tails, t < sequence.length) {value : α} (member : value ∈ sequence) {fuel lo hi : Nat}
    (enough : hi - lo ≤ fuel) (within : hi ≤ tails.length) :
    searchTails less sequence tails value fuel lo hi =
      some (leftmostTail (sequence.map rank) tails (rank value) fuel lo hi) := by
  induction fuel generalizing lo hi with
  | zero => rw [searchTails, if_neg (by omega), leftmostTail]
  | succ fuel ih =>
    rw [searchTails, leftmostTail]
    split
    next nonempty =>
      have inside : (lo + hi) / 2 < tails.length := by omega
      have atMiddle : tails[(lo + hi) / 2]? = some tails[(lo + hi) / 2] := List.getElem?_eq_getElem inside
      have index := indices _ (List.getElem_mem inside)
      have element : sequence[tails[(lo + hi) / 2]]? = some sequence[tails[(lo + hi) / 2]] :=
        List.getElem?_eq_getElem index
      have middle : tails.getD ((lo + hi) / 2) 0 = tails[(lo + hi) / 2] := by
        rw [List.getD_eq_getElem?_getD, atMiddle, Option.getD_some]
      simp only [atMiddle, Option.bind_eq_bind, Option.bind_some, element]
      rw [middle, show (sequence.map rank).getD tails[(lo + hi) / 2] 0 = rank sequence[tails[(lo + hi) / 2]] from
        getD_rank element, ranked _ (List.getElem_mem index) _ member]
      simp only [decide_eq_true_eq]
      split
      · exact ih (by omega) within
      · exact ih (by omega) (by omega)
    next => rfl

def coded (code : Option Nat → β) (state : TailState) : LinkedTails β := ⟨state.tails, state.predecessors.map code⟩

theorem linkIndex_eq (ranked : Ranked less sequence rank) {n : Nat} {state : TailState}
    (holds : TailsAt (sequence.map rank) n state) (inside : n < sequence.length) :
    linkIndex less code sequence (coded code state) n = some (coded code (placeIndex (sequence.map rank) state n)) := by
  have value : sequence[n]? = some sequence[n] := List.getElem?_eq_getElem inside
  have indices : ∀ t ∈ state.tails, t < sequence.length := by
    intro t member
    obtain ⟨k, atK⟩ := List.getElem?_of_mem member
    exact (holds.before k t atK).trans inside
  have searched := searchTails_eq ranked indices (List.getElem_mem inside) (le_refl (state.tails.length - 0)) le_rfl
  have placed := leftmostTail_placed ((sequence.map rank).getD n 0) holds.ascending
  have own : (sequence.map rank).getD n 0 = rank sequence[n] := getD_rank value
  rw [own] at placed
  rw [linkIndex, placeIndex, coded, own]
  simp only [value, Option.bind_eq_bind, Option.bind_some, Nat.sub_zero] at searched ⊢
  rw [searched]
  have within : leftmostTail (sequence.map rank) state.tails (rank sequence[n]) state.tails.length 0
    state.tails.length ≤ state.tails.length := by simpa using placed.within
  generalize leftmostTail (sequence.map rank) state.tails (rank sequence[n]) state.tails.length 0
    state.tails.length = lo at within ⊢
  simp only [Option.bind_some]
  split
  next positive =>
    have before : state.tails[lo - 1]? = some state.tails[lo - 1] := List.getElem?_eq_getElem (by omega)
    rw [before]
    simp only [coded, List.map_set, Option.map_some, Option.bind_some]
    rfl
  next =>
    simp only [coded, List.map_set]
    rfl

theorem linkIndices_eq (ranked : Ranked less sequence rank) {n : Nat} (bounded : n ≤ sequence.length) :
    (List.range n).foldlM (linkIndex less code sequence) ⟨[], List.replicate sequence.length (code none)⟩ =
      some (coded code ((List.range n).foldl (placeIndex (sequence.map rank))
        ⟨[], List.replicate sequence.length none⟩)) := by
  induction n with
  | zero =>
    rw [List.range_zero, List.foldlM_nil, List.foldl_nil, coded, List.map_replicate]
    rfl
  | succ n ih =>
    have holds := @tailsAt_run (sequence.map rank) n (by rw [List.length_map]; omega)
    rw [List.length_map] at holds
    rw [List.range_succ, List.foldlM_append, ih (by omega), List.foldl_append, Option.bind_eq_bind, Option.bind_some,
      List.foldlM_cons, linkIndex_eq ranked holds (by omega)]
    rfl

theorem walkLinks_eq (read : ∀ p, decode (code p) = p) {ranks : List Nat} {predecessors : List (Option Nat)} {k i : Nat}
    (has : HasPredecessors ranks predecessors k i) (inside : i < predecessors.length) (result : List Nat) :
    walkLinks decode (predecessors.map code) (k + 1) (code (some i)) result =
      some (walkBack predecessors (k + 1) (some i) result) := by
  induction k generalizing i result with
  | zero =>
    rw [walkLinks, read, walkBack]
    simp [List.getElem?_eq_getElem inside, walkLinks, walkBack]
  | succ k ih =>
    obtain ⟨p, atI, smaller, -, rest⟩ := has
    rw [walkLinks, read, walkBack]
    simp only [Option.bind_eq_bind, Option.bind_some, List.getElem?_map, atI, Option.map_some,
      List.getD_eq_getElem?_getD, Option.getD_some]
    exact ih rest (smaller.trans inside) _

/-- A port never leaves its lists, and finds what the ranks of the elements give. -/
theorem longestIndices_eq (read : ∀ p, decode (code p) = p) (ranked : Ranked less sequence rank) :
    longestIndices less code decode sequence = some (longestIncreasingSubsequence (sequence.map rank)) := by
  have holds := @tailsAt_run (sequence.map rank) sequence.length (by rw [List.length_map])
  rw [List.length_map] at holds
  rw [longestIndices, linkIndices_eq ranked le_rfl, longestIncreasingSubsequence, List.length_map]
  generalize (List.range sequence.length).foldl (placeIndex (sequence.map rank))
    ⟨[], List.replicate sequence.length none⟩ = state at holds ⊢
  simp only [coded, Option.bind_eq_bind, Option.bind_some]
  cases length : state.tails.length with
  | zero => rfl
  | succ k =>
    obtain ⟨t, atLast⟩ : ∃ t, state.tails[k]? = some t := ⟨_, List.getElem?_eq_getElem (by omega)⟩
    have last : state.tails.getLast? = some t := by
      rw [List.getLast?_eq_getElem?, length, Nat.add_sub_cancel, atLast]
    have inside : t < state.predecessors.length := by
      rw [holds.width, List.length_map]
      exact holds.before k t atLast
    rw [last]
    exact walkLinks_eq read (holds.linked k t atLast) inside []

theorem longestIncreasing_ranked (ranked : Ranked less sequence rank) :
    LongestIncreasing less sequence (longestIncreasingSubsequence (sequence.map rank)) := by
  obtain ⟨chain, bounds, longest⟩ := longestIncreasingSubsequence_spec (sequence.map rank)
  rw [List.length_map] at bounds
  refine ⟨bounds, ?_, fun part sub increasing => ?_⟩
  · refine chain.imp_of_mem fun {i j} memberI memberJ follows => ⟨follows.1, ?_⟩
    have insideI := bounds i memberI
    have insideJ := bounds j memberJ
    have atI : sequence[i]? = some sequence[i] := List.getElem?_eq_getElem insideI
    have atJ : sequence[j]? = some sequence[j] := List.getElem?_eq_getElem insideJ
    refine ⟨_, _, atI, atJ, ?_⟩
    have below := follows.2
    rw [getD_rank atI, getD_rank atJ] at below
    rw [ranked _ (List.getElem_mem _) _ (List.getElem_mem _)]
    exact decide_eq_true below
  · have ranks : (part.map rank).Pairwise (· < ·) := by
      refine List.pairwise_map.mpr (increasing.imp_of_mem fun {x y} memberX memberY less => ?_)
      rw [ranked x (sub.subset memberX) y (sub.subset memberY)] at less
      exact of_decide_eq_true less
    simpa using longest _ (sub.map rank) ranks

end Ranks

/-- The number of elements of a sequence that are less than a number. -/
def rankIn (sequence : List F64) (x : F64) : Nat := sequence.countP fun y => y.lt x

theorem countP_lt {α : Type} {p q : α → Bool} {l : List α} (weaker : ∀ z ∈ l, p z = true → q z = true) {x : α}
    (member : x ∈ l) (more : q x = true) (less : p x = false) : l.countP p < l.countP q := by
  obtain ⟨before, after, rfl⟩ := List.append_of_mem member
  have front := List.countP_mono_left fun z inside => weaker z (List.mem_append_left _ inside)
  have back := List.countP_mono_left fun z inside => weaker z (List.mem_append_right _ (List.mem_cons_of_mem _ inside))
  rw [List.countP_append, List.countP_append, List.countP_cons_of_neg (by rw [less]; exact Bool.false_ne_true),
    List.countP_cons_of_pos more]
  omega

theorem rankIn_ranked {sequence : List F64} (numbers : ∀ x ∈ sequence, x.isNaN = false) :
    Ranked F64.lt sequence (rankIn sequence) := by
  intro x memberX y memberY
  have place := F64.lt_place (numbers x memberX) (numbers y memberY)
  by_cases below : F64.lt x y = true
  · rw [below, eq_comm, decide_eq_true_eq]
    -- `x` itself is less than `y`, beside all that is less than `x`.
    have more : ∀ z ∈ sequence, F64.lt z x = true → F64.lt z y = true := by
      intro z memberZ less
      rw [F64.lt_place (numbers z memberZ) (numbers _ memberX)] at less
      rw [F64.lt_place (numbers z memberZ) (numbers _ memberY)]
      exact less.trans (place.1 below)
    have own : F64.lt x x = false := by
      rw [Bool.eq_false_iff, Ne, F64.lt_place (numbers x memberX) (numbers x memberX)]
      exact lt_irrefl _
    exact countP_lt more memberX below own
  · rw [Bool.not_eq_true] at below
    rw [below, eq_comm, decide_eq_false_iff_not, not_lt]
    refine List.countP_mono_left fun z memberZ less => ?_
    rw [F64.lt_place (numbers z memberZ) (numbers _ memberY)] at less
    rw [F64.lt_place (numbers z memberZ) (numbers _ memberX)]
    exact less.trans_le (not_lt.mp fun above => by rw [place.2 above] at below; cases below)

theorem numberLinks_read (predecessor : Option Nat) :
    (fun cursor : Int => if 0 ≤ cursor then some cursor.toNat else none)
      (predecessor.elim (-1) Int.ofNat) = predecessor := by
  cases predecessor with
  | none => rfl
  | some p => exact if_pos (Int.natCast_nonneg p)

/-- A double that is a natural number. -/
def F64.Is (x : F64) (n : Nat) : Prop := ∃ b, x = .finite b ∧ b.value = n

def F64.asNat : F64 → Nat
  | .finite b => b.value.num.toNat
  | .infinite _ | .nan => 0

theorem F64.Is.asNat {x : F64} {n : Nat} (is : x.Is n) : x.asNat = n := by
  obtain ⟨b, rfl, value⟩ := is
  rw [F64.asNat, value, Rat.num_natCast, Int.toNat_natCast]

theorem F64.Is.lt {x y : F64} {m n : Nat} (first : x.Is m) (second : y.Is n) : x.lt y = decide (m < n) := by
  obtain ⟨a, rfl, left⟩ := first
  obtain ⟨b, rfl, right⟩ := second
  rw [F64.lt, left, right]
  simp

theorem asNat_ranked {numbers : List F64} {sequence : List Nat} (same : List.Forall₂ F64.Is numbers sequence) :
    Ranked F64.lt numbers F64.asNat ∧ numbers.map F64.asNat = sequence := by
  have natural : ∀ x ∈ numbers, x.Is x.asNat := by
    induction same with
    | nil => simp
    | cons is _ ih =>
      refine List.forall_mem_cons.mpr ⟨?_, ih⟩
      rwa [is.asNat]
  refine ⟨fun x memberX y memberY => (natural x memberX).lt (natural y memberY), ?_⟩
  induction same with
  | nil => rfl
  | cons is rest ih => rw [List.map_cons, is.asNat, ih fun x member => natural x (List.mem_cons_of_mem _ member)]

/-- The patience method finds a longest increasing subsequence of every sequence of numbers but NaN, and the Rust port
the same one of every sequence that both can hold. -/
theorem longestIncreasingSubsequence_ports :
    (∀ sequence : List F64, (∀ x ∈ sequence, x.isNaN = false) →
      ∃ found, F64.longestIncreasingSubsequence sequence = some found ∧ LongestIncreasing F64.lt sequence found) ∧
      ∀ sequence : List Nat, ∃ found, Rust.longestIncreasingSubsequence sequence = some found ∧
        LongestIncreasing (fun a b => decide (a < b)) sequence found ∧
        ∀ numbers, List.Forall₂ F64.Is numbers sequence → F64.longestIncreasingSubsequence numbers = some found := by
  constructor
  · intro sequence numbers
    have ranked := rankIn_ranked numbers
    exact ⟨_, longestIndices_eq numberLinks_read ranked, longestIncreasing_ranked ranked⟩
  · intro sequence
    have ranked : Ranked (fun a b => decide (a < b)) sequence id := fun _ _ _ _ => rfl
    refine ⟨_, longestIndices_eq (fun _ => rfl) ranked, longestIncreasing_ranked ranked, fun numbers same => ?_⟩
    obtain ⟨alike, equal⟩ := asNat_ranked same
    rw [List.map_id, ← equal]
    exact longestIndices_eq numberLinks_read alike

theorem longestIncreasingSubsequence_ports_ties :
    (∃ found, F64.longestIncreasingSubsequence [F64.ofNat 2, F64.ofNat 1, F64.ofNat 2] = some found ∧
      LongestIncreasing F64.lt [F64.ofNat 2, F64.ofNat 1, F64.ofNat 2] found) ∧
      Rust.longestIncreasingSubsequence [2, 1, 2] = F64.longestIncreasingSubsequence
        [F64.ofNat 2, F64.ofNat 1, F64.ofNat 2] := by
  refine ⟨longestIncreasingSubsequence_ports.1 _ (by decide +kernel), ?_⟩
  obtain ⟨found, run, -, same⟩ := longestIncreasingSubsequence_ports.2 [2, 1, 2]
  have two : F64.ofNat 2 = .finite ⟨false, 2 ^ 52, -51, by decide, by decide, by decide, by decide⟩ := by decide +kernel
  have one : F64.ofNat 1 = .finite ⟨false, 2 ^ 52, -52, by decide, by decide, by decide, by decide⟩ := by decide +kernel
  rw [run, same]
  rw [two, one]
  exact .cons ⟨_, rfl, by decide +kernel⟩ (.cons ⟨_, rfl, by decide +kernel⟩ (.cons ⟨_, rfl, by decide +kernel⟩ .nil))

/-- Nothing is less or greater than NaN, and it takes the place of the tail before it. -/
theorem longestIncreasingSubsequence_nan :
    F64.longestIncreasingSubsequence [F64.ofNat 1, .nan, F64.ofNat 2] = some [2] ∧
      [F64.ofNat 1, F64.ofNat 2].Sublist [F64.ofNat 1, .nan, F64.ofNat 2] ∧
      [F64.ofNat 1, F64.ofNat 2].Pairwise fun x y => x.lt y = true := by
  decide +kernel

end Xript
