import Xript.Machine.Runs
import Xript.Machine.Tally
import Xript.Pool.Merged

namespace Xript

/-- What both drivers of a fan-out work from: the workers to fire on, whether the pool has them, what each answers, how
the answers are merged, and the result without workers. -/
structure FanPlan (A R : Type) where
  targets : List WorkerId
  known : WorkerId → Bool
  answer : WorkerId → A
  merge : List (Option A) → R
  nothing : R

/-- Where the callback of one dispatched call is. -/
inductive Callback (R : Type) where
  | unsent
  | waiting
  /-- It has stored the worker's answer. -/
  | stored
  /-- It has found itself to be the last. -/
  | last
  | merged (result : R)
  | done

namespace Callback

variable {R : Type}

/-- It has not counted its answer. -/
def pending : Callback R → Bool
  | unsent | waiting | stored => true
  | _ => false

def answered : Callback R → Bool
  | stored | last | done => true
  | _ => false

def isLast : Callback R → Bool
  | last => true
  | _ => false

def isMerged : Callback R → Bool
  | merged _ => true
  | _ => false

def work : Callback R → Nat
  | unsent => 5
  | waiting => 4
  | stored => 3
  | last => 2
  | merged _ => 1
  | done => 0

end Callback

/-- `fan_out_concurrent`: the loop that dispatches, and the callbacks on the workers' threads. -/
structure Concurrent (A R : Type) where
  sent : Nat
  segments : List (Option A)
  remaining : Nat
  callbacks : List (Callback R)
  completer : Bool
  completed : List R

inductive ConcurrentEvent where
  | dispatch
  | reply (slot : Nat)
  | count (slot : Nat)
  | take (slot : Nat)
  | complete (slot : Nat)

namespace Concurrent

variable {A R : Type} (plan : FanPlan A R)

/-- Without workers to fire on, the answer is there at once. -/
def start : Concurrent A R :=
  let n := plan.targets.length
  ⟨0, List.replicate n none, n, List.replicate n .unsent, !plan.targets.isEmpty,
    if plan.targets.isEmpty then [plan.nothing] else []⟩

def step (s : Concurrent A R) : ConcurrentEvent → Option (Concurrent A R)
  | .dispatch =>
    match plan.targets[s.sent]? with
    | some id =>
      let callback := if plan.known id then .waiting else .done
      some { s with sent := s.sent + 1, callbacks := s.callbacks.set s.sent callback }
    | none => none
  | .reply slot =>
    match s.callbacks[slot]?, plan.targets[slot]? with
    | some .waiting, some id =>
      some { s with segments := s.segments.set slot (some (plan.answer id)), callbacks := s.callbacks.set slot .stored }
    | _, _ => none
  | .count slot =>
    match s.callbacks[slot]? with
    | some .stored =>
      let callback := if s.remaining = 1 then .last else .done
      some { s with remaining := s.remaining - 1, callbacks := s.callbacks.set slot callback }
    | _ => none
  | .take slot =>
    match s.callbacks[slot]? with
    | some .last => some { s with segments := [], callbacks := s.callbacks.set slot (.merged (plan.merge s.segments)) }
    | _ => none
  | .complete slot =>
    match s.callbacks[slot]? with
    | some (.merged result) =>
      let completed := if s.completer then s.completed ++ [result] else s.completed
      some { s with callbacks := s.callbacks.set slot .done, completer := false, completed }
    | _ => none

end Concurrent

/-- `fan_out_step`: the next worker is fired on from the callback of the one before it. -/
structure Sequential (A R : Type) where
  position : Nat
  waiting : Bool
  collected : List (Option A)
  ended : Bool
  completed : List R

inductive SequentialEvent where
  | dispatch
  | reply
  | complete

namespace Sequential

variable {A R : Type} (plan : FanPlan A R)

def start : Sequential A R :=
  ⟨0, false, [], plan.targets.isEmpty, if plan.targets.isEmpty then [plan.nothing] else []⟩

def step (s : Sequential A R) : SequentialEvent → Option (Sequential A R)
  | .dispatch =>
    match plan.targets[s.position]? with
    | some id =>
      if s.waiting then none
      else if plan.known id then some { s with waiting := true } else some { s with position := s.position + 1 }
    | none => none
  | .reply =>
    match plan.targets[s.position]? with
    | some id =>
      if s.waiting then
        some { s with waiting := false, position := s.position + 1, collected := s.collected ++ [some (plan.answer id)] }
      else none
    | none => none
  | .complete =>
    if plan.targets.length ≤ s.position ∧ s.ended = false then
      some { s with ended := true, completed := s.completed ++ [plan.merge s.collected] }
    else none

end Sequential

end Xript
