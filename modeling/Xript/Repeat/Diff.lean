import Xript.Order.Patience
import Xript.Repeat.Keys

namespace Xript

/-- The binary search of `longestIncreasingSubsequence`: the leftmost tail of `tails` between `lo` and
`hi` whose element of `sequence` is not less than `value`. The fuel is the width of the range. -/
def leftmostTail (sequence tails : List Nat) (value : Nat) : Nat → Nat → Nat → Nat
  | 0, lo, _ => lo
  | fuel + 1, lo, hi =>
    if lo < hi then
      let mid := (lo + hi) / 2
      if sequence.getD (tails.getD mid 0) 0 < value then leftmostTail sequence tails value fuel (mid + 1) hi
      else leftmostTail sequence tails value fuel lo mid
    else lo

/-- The loop state: the index that ends the best subsequence of each length, and each index's
predecessor. `none` is the source's `-1`. -/
structure TailState where
  tails : List Nat
  predecessors : List (Option Nat)
  deriving DecidableEq

/-- The body of the loop at index `i`. -/
def placeIndex (sequence : List Nat) (state : TailState) (i : Nat) : TailState :=
  let lo := leftmostTail sequence state.tails (sequence.getD i 0) state.tails.length 0 state.tails.length
  { tails := replaceAt state.tails lo i
    predecessors := state.predecessors.set i (if 0 < lo then state.tails[lo - 1]? else none) }

/-- Walks predecessors back from `cursor`, filling `count` places of the result from the last. -/
def walkBack (predecessors : List (Option Nat)) : Nat → Option Nat → List Nat → List Nat
  | 0, _, result => result
  | count + 1, some cursor, result =>
    walkBack predecessors count (predecessors.getD cursor none) (cursor :: result)
  | _ + 1, none, result => result

/-- The indices of `sequence` that form its longest strictly increasing subsequence, by the patience
method. -/
def longestIncreasingSubsequence (sequence : List Nat) : List Nat :=
  let state := (List.range sequence.length).foldl (placeIndex sequence)
    ⟨[], List.replicate sequence.length none⟩
  walkBack state.predecessors state.tails.length state.tails.getLast? []

/-- How one copy of the previous render becomes one of the next. The indices are `from` and `to` in the
source. -/
inductive RepeatPatchOp where
  | remove (key : RepeatKey) (fromIndex : Nat)
  | insert (key : RepeatKey) (toIndex : Nat)
  | reuse (key : RepeatKey) (fromIndex toIndex : Nat)
  | move (key : RepeatKey) (fromIndex toIndex : Nat)
  deriving DecidableEq

/-- What one render of a repeat leaves for the next: its mode and its keys. -/
structure RepeatRender where
  mode : RepeatMode
  keys : List RepeatKey
  deriving DecidableEq

def removeAll (keys : List RepeatKey) : List RepeatPatchOp :=
  keys.zipIdx.map fun entry => .remove entry.1 entry.2

def insertAll (keys : List RepeatKey) : List RepeatPatchOp :=
  keys.zipIdx.map fun entry => .insert entry.1 entry.2

/-- The map from tokens to positions, a later position replacing an earlier one of the same token. -/
def tokenIndex (keys : List RepeatKey) (token : JSString) : Option Nat :=
  keys.zipIdx.foldl (fun found entry => if keyToken entry.1 = token then some entry.2 else found) none

/-- How a host turns the previous render of a repeat into the next one. -/
def diffRepeat (previous : Option RepeatRender) (next : RepeatRender) : List RepeatPatchOp :=
  match previous with
  | none => insertAll next.keys
  | some previous =>
    if next.mode = .replace ∨ previous.mode ≠ next.mode then removeAll previous.keys ++ insertAll next.keys
    else
      let previousIndex := fun key => tokenIndex previous.keys (keyToken key)
      let nextTokens := next.keys.map keyToken
      let removes := (previous.keys.zipIdx.filter fun entry => !nextTokens.contains (keyToken entry.1)).map
        fun entry => RepeatPatchOp.remove entry.1 entry.2
      let kept := next.keys.zipIdx.filterMap fun entry =>
        (previousIndex entry.1).map fun fromIndex => (entry.2, fromIndex)
      let stable := (longestIncreasingSubsequence (kept.map Prod.snd)).filterMap fun i =>
        (kept.map Prod.fst)[i]?
      removes ++ next.keys.zipIdx.map fun entry =>
        match previousIndex entry.1 with
        | none => .insert entry.1 entry.2
        | some fromIndex =>
          if stable.contains entry.2 then .reuse entry.1 fromIndex entry.2
          else .move entry.1 fromIndex entry.2

end Xript
