import Mathlib.Data.List.Nodup
import Mathlib.Logic.Function.Basic

namespace Xript

/-- The lane every runtime starts in. -/
def rootLane : Nat := 0

/-- One entered mod, or host-run region where there is no mod. A frame that a live lane has borrowed is hidden. -/
structure CallerFrame (M : Type) where
  id : Nat
  modId : Option M
  seed : Bool
  lent : Nat

/-- The state behind a `CallerContext`. -/
structure CallerState (M : Type) where
  lanes : Nat → Option (List (CallerFrame M))
  live : Nat → Bool
  active : Nat
  nextLane : Nat
  nextFrame : Nat

/-- What `enter` returns: where its frame is. -/
structure CallerGuard where
  lane : Nat
  frame : Nat
  deriving DecidableEq

/-- What `fork` returns: the lane of one yielding call, with the frame it borrowed and the lane that frame is in. -/
structure CallerLane where
  id : Nat
  borrowed : Option (Nat × Nat)
  deriving DecidableEq

/-- The first element that passes is changed. -/
def modifyFirst {α : Type} (passes : α → Bool) (change : α → α) : List α → List α
  | [] => []
  | a :: s => if passes a then change a :: s else a :: modifyFirst passes change s

theorem modifyFirst_eq_nil {α : Type} {passes : α → Bool} {change : α → α} {s : List α} :
    modifyFirst passes change s = [] ↔ s = [] := by
  cases s with
  | nil => exact Iff.rfl
  | cons a s =>
    rw [modifyFirst]
    split
    · exact iff_of_false (List.cons_ne_nil _ _) (List.cons_ne_nil _ _)
    · exact iff_of_false (List.cons_ne_nil _ _) (List.cons_ne_nil _ _)

theorem modifyFirst_of_none {α : Type} {passes : α → Bool} {change : α → α} {s : List α}
    (none : s.find? passes = none) : modifyFirst passes change s = s := by
  induction s with
  | nil => rfl
  | cons a s ih =>
    rw [List.find?_cons] at none
    rw [modifyFirst]
    cases here : passes a with
    | true =>
      rw [here] at none
      cases none
    | false =>
      rw [here] at none
      rw [ih none, if_neg (by decide)]

/-- Where a key tells the elements apart, changing the first that passes changes the one with its key. -/
theorem modifyFirst_of_key {α : Type} {key : α → Nat} {passes : α → Bool} {change : α → α} {s : List α}
    (distinct : (s.map key).Nodup) {a : α} (found : s.find? passes = some a) :
    modifyFirst passes change s = s.map fun b => if key b = key a then change b else b := by
  induction s with
  | nil => cases found
  | cons b s ih =>
    obtain ⟨fresh, rest⟩ := List.nodup_cons.mp distinct
    rw [modifyFirst, List.map_cons]
    rw [List.find?_cons] at found
    cases here : passes b with
    | true =>
      rw [here] at found
      obtain rfl := Option.some.inj found
      have others : ∀ c ∈ s, (if key c = key b then change c else c) = c := by
        intro c member
        rw [if_neg fun same : key c = key b => fresh (same ▸ List.mem_map_of_mem member)]
      rw [if_pos rfl, if_pos rfl, List.map_congr_left others, List.map_id']
    | false =>
      rw [here] at found
      have later := List.mem_of_find?_eq_some found
      have apart : key b ≠ key a := fun same => fresh (same ▸ List.mem_map_of_mem later)
      rw [if_neg (by decide), if_neg apart, ih rest found]

/-- The last element with a key is the one there is. -/
theorem reverse_eraseP_of_key {α : Type} {key : α → Nat} {k : Nat} {s : List α} (distinct : (s.map key).Nodup) :
    (s.reverse.eraseP fun a => decide (key a = k)).reverse = s.filter fun a => decide (key a ≠ k) := by
  have erased : ∀ {t : List α}, (t.map key).Nodup →
      t.eraseP (fun a => decide (key a = k)) = t.filter fun a => decide (key a ≠ k) := by
    intro t distinct
    induction t with
    | nil => rfl
    | cons a t ih =>
      obtain ⟨fresh, rest⟩ := List.nodup_cons.mp distinct
      by_cases here : key a = k
      · have others : ∀ b ∈ t, decide (key b ≠ k) = true := by
          intro b member
          exact decide_eq_true fun same => fresh (here.trans same.symm ▸ List.mem_map_of_mem member)
        rw [List.eraseP_cons_of_pos (by simp [here]), List.filter_cons_of_neg (by simp [here]),
          List.filter_eq_self.mpr others]
      · rw [List.eraseP_cons_of_neg (by simp [here]), List.filter_cons_of_pos (by simp [here]), ih rest]
  rw [erased (by rw [List.map_reverse]; exact List.nodup_reverse.mpr distinct), List.filter_reverse, List.reverse_reverse]

namespace CallerState

variable {M : Type}

def new : CallerState M where
  lanes := Function.update (fun _ => none) rootLane (some [])
  live := fun lane => lane = rootLane
  active := rootLane
  nextLane := rootLane + 1
  nextFrame := 0

/-- `State::push`: the state after it, the lane and the frame. -/
def push (s : CallerState M) (modId : Option M) (seed : Bool) : CallerState M × Nat × Nat :=
  let id := s.nextFrame + 1
  ({ s with
      nextFrame := id
      lanes := Function.update s.lanes s.active (some ((s.lanes s.active).getD [] ++ [⟨id, modId, seed, 0⟩])) },
    s.active, id)

def tidy (s : CallerState M) (lane : Nat) : CallerState M :=
  match s.live lane, s.lanes lane with
  | false, some [] => { s with lanes := Function.update s.lanes lane none }
  | _, _ => s

/-- The innermost frame of a lane that no live lane has borrowed. -/
def top (frames : List (CallerFrame M)) : Option (CallerFrame M) := frames.reverse.find? fun frame => frame.lent = 0

/-- What `current` answers while a lane is active. -/
def reads (s : CallerState M) (lane : Nat) : Option M := ((s.lanes lane).bind top).bind CallerFrame.modId

def current (s : CallerState M) : Option M := s.reads s.active

def enter (s : CallerState M) (modId : Option M) : CallerState M × CallerGuard :=
  let pushed := s.push modId true
  (pushed.1, ⟨pushed.2.1, pushed.2.2⟩)

def pop (s : CallerState M) : CallerState M :=
  match s.lanes s.active with
  | some frames => tidy { s with lanes := Function.update s.lanes s.active (some frames.dropLast) } s.active
  | none => s.tidy s.active

def lend (frame : CallerFrame M) : CallerFrame M := { frame with lent := frame.lent + 1 }

def fork (s : CallerState M) : CallerState M × CallerLane :=
  let innermost := (s.lanes s.active).bind top
  let lent := innermost.filter CallerFrame.seed
  let lanes :=
    match s.lanes s.active, lent with
    | some frames, some _ =>
      let hidden := (modifyFirst (fun frame => decide (frame.lent = 0)) lend frames.reverse).reverse
      Function.update s.lanes s.active (some hidden)
    | _, _ => s.lanes
  let id := s.nextLane
  let frame := s.nextFrame + 1
  ({ s with
      nextLane := id + 1
      nextFrame := frame
      lanes := Function.update lanes id (some [⟨frame, innermost.bind CallerFrame.modId, false, 0⟩])
      live := Function.update s.live id true },
    ⟨id, lent.map fun frame => (s.active, frame.id)⟩)

/-- `activate`: the state after it, and the lane that was in force. -/
def activate (s : CallerState M) (lane : Nat) : CallerState M × Nat := ({ s with active := lane }, s.active)

/-- The drop of a guard. -/
def dropGuard (s : CallerState M) (guard : CallerGuard) : CallerState M :=
  match s.lanes guard.lane with
  | some frames =>
    let kept := (frames.reverse.eraseP fun frame => frame.id = guard.frame).reverse
    tidy { s with lanes := Function.update s.lanes guard.lane (some kept) } guard.lane
  | none => s.tidy guard.lane

def giveBack (frame : CallerFrame M) : CallerFrame M := { frame with lent := frame.lent - 1 }

/-- The drop of a yielding call's lane. -/
def dropLane (s : CallerState M) (lane : CallerLane) : CallerState M :=
  let closed := { s with live := Function.update s.live lane.id false, lanes := Function.update s.lanes lane.id none }
  match lane.borrowed with
  | some (parent, frame) =>
    match closed.lanes parent with
    | some frames =>
      let returned := modifyFirst (fun candidate => decide (candidate.id = frame)) giveBack frames
      { closed with lanes := Function.update closed.lanes parent (some returned) }
    | none => closed
  | none => closed

/-- The drop of an activation, which restores the lane that was in force before it. -/
def deactivate (s : CallerState M) (previous : Nat) : CallerState M :=
  tidy { s with active := previous } s.active

/-- The frames of a lane, none where it is gone. -/
def framesOf (s : CallerState M) (lane : Nat) : List (CallerFrame M) := (s.lanes lane).getD []

theorem reads_eq (s : CallerState M) (lane : Nat) : s.reads lane = (top (s.framesOf lane)).bind CallerFrame.modId := by
  unfold reads framesOf
  cases s.lanes lane with
  | none => rfl
  | some frames => rfl

@[simp] theorem tidy_live (s : CallerState M) (lane : Nat) : (s.tidy lane).live = s.live := by
  unfold tidy
  split <;> rfl

@[simp] theorem tidy_active (s : CallerState M) (lane : Nat) : (s.tidy lane).active = s.active := by
  unfold tidy
  split <;> rfl

@[simp] theorem tidy_nextLane (s : CallerState M) (lane : Nat) : (s.tidy lane).nextLane = s.nextLane := by
  unfold tidy
  split <;> rfl

@[simp] theorem tidy_nextFrame (s : CallerState M) (lane : Nat) : (s.tidy lane).nextFrame = s.nextFrame := by
  unfold tidy
  split <;> rfl

/-- Tidying removes a lane without frames that no call owns, and nothing else. -/
theorem tidy_cases (s : CallerState M) (lane : Nat) :
    (s.live lane = false ∧ s.lanes lane = some [] ∧ s.tidy lane = { s with lanes := Function.update s.lanes lane none }) ∨
      ((s.lanes lane = some [] → s.live lane = true) ∧ s.tidy lane = s) := by
  unfold tidy
  split
  · rename_i dead empty
    exact Or.inl ⟨dead, empty, rfl⟩
  · rename_i other
    refine Or.inr ⟨fun empty => ?_, rfl⟩
    cases alive : s.live lane with
    | true => rfl
    | false => exact absurd empty (other alive)

@[simp] theorem tidy_framesOf (s : CallerState M) (lane x : Nat) : (s.tidy lane).framesOf x = s.framesOf x := by
  rcases s.tidy_cases lane with ⟨-, empty, gone⟩ | ⟨-, same⟩
  · rw [gone]
    show (Function.update s.lanes lane none x).getD [] = (s.lanes x).getD []
    by_cases here : x = lane
    · rw [here, Function.update_self, empty]
      rfl
    · rw [Function.update_of_ne here]
  · rw [same]

theorem framesOf_update (s : CallerState M) (lane x : Nat) (frames : List (CallerFrame M)) :
    ({ s with lanes := Function.update s.lanes lane (some frames) } : CallerState M).framesOf x =
      if x = lane then frames else s.framesOf x := by
  unfold framesOf
  show (Function.update s.lanes lane (some frames) x).getD [] = _
  by_cases here : x = lane
  · rw [if_pos here, here, Function.update_self]
    rfl
  · rw [if_neg here, Function.update_of_ne here]

theorem push_framesOf (s : CallerState M) (modId : Option M) (seed : Bool) (x : Nat) :
    (s.push modId seed).1.framesOf x =
      if x = s.active then s.framesOf x ++ [⟨s.nextFrame + 1, modId, seed, 0⟩] else s.framesOf x := by
  refine (framesOf_update _ _ _ _).trans ?_
  by_cases here : x = s.active
  · rw [if_pos here, if_pos here, here]
    rfl
  · rw [if_neg here, if_neg here]

theorem pop_framesOf (s : CallerState M) (x : Nat) :
    s.pop.framesOf x = if x = s.active then (s.framesOf x).dropLast else s.framesOf x := by
  unfold pop
  split
  · rename_i frames here
    rw [tidy_framesOf, framesOf_update]
    by_cases active : x = s.active
    · rw [if_pos active, if_pos active, framesOf, active, here]
      rfl
    · rw [if_neg active, if_neg active]
  · rename_i gone
    rw [tidy_framesOf]
    split
    · rename_i active
      rw [framesOf, active, gone]
      rfl
    · rfl

theorem dropGuard_framesOf (s : CallerState M) (guard : CallerGuard) (x : Nat) :
    (s.dropGuard guard).framesOf x =
      if x = guard.lane then ((s.framesOf x).reverse.eraseP fun frame => frame.id = guard.frame).reverse
      else s.framesOf x := by
  unfold dropGuard
  split
  · rename_i frames here
    rw [tidy_framesOf, framesOf_update]
    by_cases lane : x = guard.lane
    · rw [if_pos lane, if_pos lane, framesOf, lane, here]
      rfl
    · rw [if_neg lane, if_neg lane]
  · rename_i gone
    rw [tidy_framesOf]
    split
    · rename_i lane
      rw [framesOf, lane, gone]
      rfl
    · rfl

/-- The frame a fork borrows: the innermost one in force, where `enter` pushed it. -/
def lends (s : CallerState M) : Option (CallerFrame M) := (top (s.framesOf s.active)).filter CallerFrame.seed

theorem fork_lane (s : CallerState M) : s.fork.2 = ⟨s.nextLane, s.lends.map fun frame => (s.active, frame.id)⟩ := by
  have same : (s.lanes s.active).bind top = top (s.framesOf s.active) := by
    unfold framesOf
    cases s.lanes s.active with
    | none => rfl
    | some frames => rfl
  unfold fork lends
  simp only [same]

theorem fork_framesOf (s : CallerState M) (x : Nat) :
    s.fork.1.framesOf x =
      if x = s.nextLane then [⟨s.nextFrame + 1, s.current, false, 0⟩]
      else if x = s.active ∧ s.lends.isSome then
        (modifyFirst (fun frame => decide (frame.lent = 0)) lend (s.framesOf x).reverse).reverse
      else s.framesOf x := by
  have same : (s.lanes s.active).bind top = top (s.framesOf s.active) := by
    unfold framesOf
    cases s.lanes s.active with
    | none => rfl
    | some frames => rfl
  by_cases new : x = s.nextLane
  · rw [if_pos new, new]
    unfold framesOf fork
    simp only [Function.update_self, Option.getD_some]
    rfl
  · rw [if_neg new]
    unfold framesOf fork
    simp only [Function.update_of_ne new, same]
    show ((match s.lanes s.active, s.lends with
      | some frames, some _ =>
        Function.update s.lanes s.active
          (some (modifyFirst (fun frame : CallerFrame M => decide (frame.lent = 0)) lend frames.reverse).reverse)
      | _, _ => s.lanes) x).getD [] = _
    cases lent : s.lends with
    | none =>
      rw [if_neg fun both => nomatch both.2]
      cases s.lanes s.active <;> rfl
    | some frame =>
      cases lanes : s.lanes s.active with
      | none =>
        have empty : s.framesOf s.active = [] := by rw [framesOf, lanes]; rfl
        rw [lends, empty] at lent
        cases lent
      | some frames =>
        by_cases active : x = s.active
        · rw [if_pos ⟨active, rfl⟩, active]
          simp only [Function.update_self, Option.getD_some, lanes]
        · rw [if_neg fun both => active both.1]
          simp only [Function.update_of_ne active]

theorem dropLane_framesOf (s : CallerState M) {lane : CallerLane}
    (apart : ∀ parent frame, lane.borrowed = some (parent, frame) → parent ≠ lane.id) (x : Nat) :
    (s.dropLane lane).framesOf x =
      if x = lane.id then []
      else match lane.borrowed with
        | some (parent, frame) =>
          if x = parent then modifyFirst (fun candidate => decide (candidate.id = frame)) giveBack (s.framesOf x)
          else s.framesOf x
        | none => s.framesOf x := by
  have closed : ∀ y, (({ s with
      live := Function.update s.live lane.id false, lanes := Function.update s.lanes lane.id none } :
        CallerState M)).framesOf y = if y = lane.id then [] else s.framesOf y := by
    intro y
    show (Function.update s.lanes lane.id none y).getD [] = _
    by_cases here : y = lane.id
    · rw [if_pos here, here, Function.update_self]
      rfl
    · rw [if_neg here, Function.update_of_ne here]
      rfl
  unfold dropLane
  cases borrowed : lane.borrowed with
  | none => exact closed x
  | some pair =>
    obtain ⟨parent, frame⟩ := pair
    have other := apart parent frame borrowed
    simp only
    cases lanes : Function.update s.lanes lane.id none parent with
    | none =>
      have gone : s.framesOf parent = [] := by
        rw [Function.update_of_ne other] at lanes
        rw [framesOf, lanes]
        rfl
      rw [closed x]
      by_cases here : x = lane.id
      · rw [if_pos here, if_pos here]
      · rw [if_neg here, if_neg here]
        split
        · rename_i atParent
          rw [atParent, gone]
          rfl
        · rfl
    | some frames =>
      have inside : s.framesOf parent = frames := by
        rw [Function.update_of_ne other] at lanes
        rw [framesOf, lanes]
        rfl
      have updated := framesOf_update ({ s with
        live := Function.update s.live lane.id false, lanes := Function.update s.lanes lane.id none } : CallerState M)
          parent x (modifyFirst (fun candidate => decide (candidate.id = frame)) giveBack frames)
      refine updated.trans ?_
      by_cases atParent : x = parent
      · rw [if_pos atParent, if_neg fun here => other (atParent ▸ here), if_pos atParent, atParent, inside]
      · rw [if_neg atParent, if_neg atParent]
        exact closed x

theorem update_some {lanes : Nat → Option (List (CallerFrame M))} {lane : Nat} {frames : List (CallerFrame M)}
    {found : Option (List (CallerFrame M))} (here : Function.update lanes lane (some frames) lane = found) :
    found = some frames := here.symm.trans (Function.update_self ..)

/-- A lane that a call owns is there, and one that none owns is not there without frames. -/
structure Neat (s : CallerState M) : Prop where
  present : ∀ lane, s.live lane = true → s.lanes lane ≠ none
  tidied : ∀ lane, s.lanes lane = some [] → s.live lane = true

theorem Neat.tidy {s : CallerState M} {lane : Nat} (present : ∀ x, s.live x = true → s.lanes x ≠ none)
    (tidied : ∀ x, x ≠ lane → s.lanes x = some [] → s.live x = true) : (s.tidy lane).Neat := by
  rcases s.tidy_cases lane with ⟨dead, -, gone⟩ | ⟨alive, same⟩
  · rw [gone]
    constructor
    · intro x live
      have apart : x ≠ lane := fun same => by
        rw [same, dead] at live
        cases live
      exact (Function.update_of_ne apart ..).trans_ne (present x live)
    · intro x empty
      by_cases here : x = lane
      · rw [here] at empty
        cases (Function.update_self ..).symm.trans empty
      · exact tidied x here ((Function.update_of_ne here ..).symm.trans empty)
  · rw [same]
    refine ⟨present, fun x empty => ?_⟩
    by_cases here : x = lane
    · rw [here] at empty ⊢
      exact alive empty
    · exact tidied x here empty

/-- Filling a lane that is there keeps the others as they are. -/
theorem Neat.filled {s : CallerState M} (neat : s.Neat) (lane : Nat) (frames : List (CallerFrame M)) :
    (∀ x, s.live x = true → Function.update s.lanes lane (some frames) x ≠ none) ∧
      ∀ x, x ≠ lane → Function.update s.lanes lane (some frames) x = some [] → s.live x = true := by
  constructor
  · intro x live
    by_cases here : x = lane
    · rw [here, Function.update_self]
      exact Option.some_ne_none _
    · rw [Function.update_of_ne here]
      exact neat.present x live
  · intro x apart empty
    rw [Function.update_of_ne apart] at empty
    exact neat.tidied x empty

theorem Neat.push {s : CallerState M} (neat : s.Neat) (modId : Option M) (seed : Bool) : (s.push modId seed).1.Neat := by
  obtain ⟨present, others⟩ := neat.filled s.active ((s.lanes s.active).getD [] ++ [⟨s.nextFrame + 1, modId, seed, 0⟩])
  refine ⟨present, fun x empty => ?_⟩
  by_cases here : x = s.active
  · rw [here] at empty
    exact absurd (Option.some.inj (update_some empty)).symm (by simp)
  · exact others x here empty

theorem Neat.pop {s : CallerState M} (neat : s.Neat) : s.pop.Neat := by
  unfold CallerState.pop
  split
  · rename_i frames here
    obtain ⟨present, others⟩ := neat.filled s.active frames.dropLast
    exact .tidy present others
  · exact .tidy neat.present fun x _ => neat.tidied x

theorem Neat.dropGuard {s : CallerState M} (neat : s.Neat) (guard : CallerGuard) : (s.dropGuard guard).Neat := by
  unfold CallerState.dropGuard
  split
  · rename_i frames here
    obtain ⟨present, others⟩ := neat.filled guard.lane (frames.reverse.eraseP fun frame => frame.id = guard.frame).reverse
    exact .tidy present others
  · exact .tidy neat.present fun x _ => neat.tidied x

theorem Neat.refill {s : CallerState M} (neat : s.Neat) {lane : Nat} {frames refilled : List (CallerFrame M)}
    (here : s.lanes lane = some frames) (same : refilled = [] ↔ frames = []) :
    ({ s with lanes := Function.update s.lanes lane (some refilled) } : CallerState M).Neat := by
  obtain ⟨present, others⟩ := neat.filled lane refilled
  refine ⟨present, fun x empty => ?_⟩
  by_cases at' : x = lane
  · rw [at'] at empty
    have nil := Option.some.inj (update_some empty)
    rw [at']
    exact neat.tidied lane (by rw [here, same.mp nil.symm])
  · exact others x at' empty

theorem Neat.fork {s : CallerState M} (neat : s.Neat) : s.fork.1.Neat := by
  have opens : ∀ {t : CallerState M} (frame : CallerFrame M), t.Neat →
      ({ t with
        lanes := Function.update t.lanes s.nextLane (some [frame])
        live := Function.update t.live s.nextLane true } : CallerState M).Neat := by
    intro t frame neat
    constructor
    · intro x live
      show Function.update t.lanes s.nextLane (some [frame]) x ≠ none
      by_cases here : x = s.nextLane
      · rw [here, Function.update_self]
        exact Option.some_ne_none _
      · rw [Function.update_of_ne here]
        exact neat.present x ((Function.update_of_ne here ..).symm.trans live)
    · intro x empty
      by_cases here : x = s.nextLane
      · rw [here] at empty
        cases Option.some.inj (update_some empty)
      · exact (Function.update_of_ne here ..).trans (neat.tidied x ((Function.update_of_ne here ..).symm.trans empty))
  unfold CallerState.fork
  simp only
  split
  · rename_i frames _ here _
    have hidden : (modifyFirst (fun frame : CallerFrame M => decide (frame.lent = 0)) lend frames.reverse).reverse = [] ↔
        frames = [] := by
      rw [List.reverse_eq_nil_iff, modifyFirst_eq_nil, List.reverse_eq_nil_iff]
    obtain ⟨present, tidied⟩ := opens ⟨s.nextFrame + 1, _, false, 0⟩ (neat.refill here hidden)
    exact ⟨present, tidied⟩
  · obtain ⟨present, tidied⟩ := opens ⟨s.nextFrame + 1, _, false, 0⟩ neat
    exact ⟨present, tidied⟩

theorem Neat.dropLane {s : CallerState M} (neat : s.Neat) (lane : CallerLane) : (s.dropLane lane).Neat := by
  have closed : ({ s with
      live := Function.update s.live lane.id false, lanes := Function.update s.lanes lane.id none } :
        CallerState M).Neat := by
    constructor
    · intro x live
      have apart : x ≠ lane.id := fun here => by
        rw [here] at live
        cases (Function.update_self ..).symm.trans live
      have was := (Function.update_of_ne apart ..).symm.trans live
      exact (Function.update_of_ne apart ..).trans_ne (neat.present x was)
    · intro x empty
      have apart : x ≠ lane.id := fun here => by
        rw [here] at empty
        cases (Function.update_self ..).symm.trans empty
      exact (Function.update_of_ne apart ..).trans (neat.tidied x ((Function.update_of_ne apart ..).symm.trans empty))
  unfold CallerState.dropLane
  simp only
  split
  · split
    · rename_i frames here
      exact closed.refill here modifyFirst_eq_nil
    · exact closed
  · exact closed

theorem Neat.deactivate {s : CallerState M} (neat : s.Neat) (previous : Nat) : (s.deactivate previous).Neat :=
  .tidy neat.present fun x _ => neat.tidied x

end CallerState

end Xript
