import Xript.Callers.Attribution

namespace Xript.Attribution

variable {M : Type} {s next : Attribution M}

theorem Kept.start : (start : Attribution M).Kept where
  frames lane := by
    show (Function.update (fun _ => none) rootLane (some []) lane).getD [] = []
    by_cases here : lane = rootLane
    · rw [here, Function.update_self]
      rfl
    · rw [Function.update_of_ne here]
      rfl
  neat := by
    constructor
    · intro lane live
      obtain rfl : lane = rootLane := of_decide_eq_true live
      show Function.update (fun _ => none) rootLane (some ([] : List (CallerFrame M))) rootLane ≠ none
      rw [Function.update_self]
      exact Option.some_ne_none _
    · intro lane empty
      refine decide_eq_true (by_contra fun apart => ?_)
      replace empty : Function.update (fun _ => none) rootLane (some []) lane = some [] := empty
      rw [Function.update_of_ne apart] at empty
      cases empty
  live lane := by
    show decide (lane = rootLane) = true ↔ lane = rootLane ∨ lane ∈ []
    simp
  distinctLanes := List.nodup_singleton _
  lanesBelow lane inside := by
    rw [List.mem_singleton.mp inside]
    exact Nat.lt_succ_self _
  distinct := List.nodup_nil
  below _ none := nomatch none
  leftBelow _ none := nomatch none
  activations lane inside := by
    rw [List.mem_singleton.mp inside]
    exact Nat.lt_succ_self _
  bottom := rfl
  guarded _ none := nomatch none
  guards _ none := nomatch none
  bases _ none := nomatch none
  lenders _ none := nomatch none
  borrowedOnce := List.nodup_nil

theorem dropLast_of_key {α : Type} {key : α → Nat} {l : List α} (distinct : (l.map key).Nodup) {a : α}
    (last : l.getLast? = some a) : l.dropLast = l.filter fun b => decide (key b ≠ key a) := by
  obtain ⟨front, rfl⟩ : ∃ front, l = front ++ [a] := ⟨l.dropLast, (List.dropLast_append_getLast? a last).symm⟩
  rw [List.map_append, List.nodup_append] at distinct
  have apart : ∀ b ∈ front, decide (key b ≠ key a) = true := by
    intro b member
    exact decide_eq_true (distinct.2.2 (key b) (List.mem_map_of_mem member) (key a) (List.mem_singleton_self _))
  rw [List.dropLast_concat, List.filter_append, List.filter_eq_self.mpr apart, List.filter_cons_of_neg (by simp)]
  exact (List.append_nil _).symm

/-- What each step a user may be refused has found and done. -/
theorem step_dropGuard {guard : CallerGuard} (taken : s.step (.dropGuard guard) = some next) :
    guard ∈ s.guards ∧ next = { s with
      context := s.context.dropGuard guard
      guards := s.guards.erase guard
      left := guard.frame :: s.left } := by
  rw [step] at taken
  split at taken
  · rename_i held
    exact ⟨held, (Option.some.inj taken).symm⟩
  · cases taken

theorem step_pop (taken : s.step .pop = some next) :
    ∃ o : Opening M, (s.openIn s.context.active).getLast? = some o ∧ o.opener = .push ∧
      next = { s with context := s.context.pop, left := o.frame :: s.left } := by
  rw [step] at taken
  split at taken
  · rename_i last
    exact ⟨_, last, rfl, (Option.some.inj taken).symm⟩
  · cases taken

theorem step_close {lane : CallerLane} (taken : s.step (.close lane) = some next) :
    lane ∈ s.lanes ∧ next = { s with
      context := s.context.dropLane lane
      lanes := s.lanes.erase lane
      left := (s.openIn lane.id).map Opening.frame ++ s.left } := by
  rw [step] at taken
  split at taken
  · rename_i held
    exact ⟨held, (Option.some.inj taken).symm⟩
  · cases taken

theorem step_activate {lane : Nat} (taken : s.step (.activate lane) = some next) :
    lane < s.context.nextLane ∧
      next = { s with context := (s.context.activate lane).1, entered := s.context.active :: s.entered } := by
  rw [step] at taken
  split at taken
  · rename_i known
    exact ⟨known, (Option.some.inj taken).symm⟩
  · cases taken

theorem step_deactivate (taken : s.step .deactivate = some next) :
    ∃ previous entered, s.entered = previous :: entered ∧
      next = { s with context := s.context.deactivate previous, entered := entered } := by
  rw [step] at taken
  split at taken
  · rename_i previous entered stack
    exact ⟨previous, entered, stack, (Option.some.inj taken).symm⟩
  · cases taken

/-- A `pop` leaves the frame of its `push`. -/
theorem Kept.pop_eq (kept : s.Kept) {o : Opening M} (last : (s.openIn s.context.active).getLast? = some o) :
    o ∈ s.opened ∧ o.lane = s.context.active ∧ ∀ x, s.context.pop.framesOf x =
      if x = o.lane then (s.context.framesOf x).filter fun f => decide (f.id ≠ o.frame) else s.context.framesOf x := by
  obtain ⟨opened, lies, -⟩ := mem_openings.1 (List.mem_of_getLast? last)
  refine ⟨opened, lies, fun x => ?_⟩
  rw [CallerState.pop_framesOf, lies]
  split
  · rename_i here
    have frames : (s.context.framesOf x).getLast? = some (frameOf s.borrowed o) := by
      rw [here, kept.frames, List.getLast?_map, last]
      rfl
    exact dropLast_of_key (kept.ids x) frames
  · rfl

/-- Every step keeps what the context and the ledger have in common. -/
theorem Kept.step (kept : s.Kept) {event : CallerEvent M} (taken : s.step event = some next) : next.Kept := by
  cases event with
  | enter modId =>
    obtain rfl := Option.some.inj taken
    refine @Kept.opening M s kept modId .guard _ (by decide) (fun guard member => ?_) (List.subset_cons_self _ _)
      fun _ => List.mem_cons_self ..
    rcases List.mem_cons.mp member with newest | old
    · exact Or.inr ⟨rfl, newest⟩
    · exact Or.inl old
  | push modId =>
    obtain rfl := Option.some.inj taken
    exact @Kept.opening M s kept modId .push _ (by decide) (fun guard member => Or.inl member) (List.Subset.refl _)
      fun guard => nomatch guard
  | dropGuard guard =>
    obtain ⟨held, rfl⟩ := step_dropGuard taken
    obtain ⟨o, opened, framed, lies, -⟩ := kept.guarded guard held
    have same : (s.context.dropGuard guard).live = s.context.live ∧
        (s.context.dropGuard guard).active = s.context.active ∧
        (s.context.dropGuard guard).nextLane = s.context.nextLane ∧
        (s.context.dropGuard guard).nextFrame = s.context.nextFrame := by
      unfold CallerState.dropGuard
      split <;> simp
    have leaves := @Kept.leaving M s kept (s.context.dropGuard guard) (s.guards.erase guard) o opened
      (fun x => ?_) (kept.neat.dropGuard guard) same.1 same.2.1 same.2.2.1 same.2.2.2 (List.erase_subset ..)
      fun other member apart => (List.mem_erase_of_ne fun equal => apart ?_).mpr member
    · rw [framed] at leaves
      exact leaves
    · rw [CallerState.dropGuard_framesOf, lies, framed]
      split
      · exact reverse_eraseP_of_key (kept.ids x)
      · rfl
    · rw [equal, framed]
  | pop =>
    obtain ⟨o, last, -, rfl⟩ := step_pop taken
    obtain ⟨opened, lies, frames⟩ := kept.pop_eq last
    have same : s.context.pop.live = s.context.live ∧ s.context.pop.active = s.context.active ∧
        s.context.pop.nextLane = s.context.nextLane ∧ s.context.pop.nextFrame = s.context.nextFrame := by
      unfold CallerState.pop
      split <;> simp
    exact @Kept.leaving M s kept s.context.pop s.guards o opened frames kept.neat.pop same.1 same.2.1 same.2.2.1
      same.2.2.2 (List.Subset.refl _) fun _ member _ => member
  | fork =>
    obtain rfl := Option.some.inj taken
    exact kept.forking
  | close lane =>
    obtain ⟨held, rfl⟩ := step_close taken
    exact kept.closing held
  | activate lane =>
    obtain ⟨known, rfl⟩ := step_activate taken
    exact kept.activating known
  | deactivate =>
    obtain ⟨previous, entered, stack, rfl⟩ := step_deactivate taken
    exact kept.deactivating stack

theorem kept_of_run {trace : List (Attribution M × CallerEvent M)} (run : Runs step .start trace s) : s.Kept :=
  run.invariant .start fun _ _ _ kept taken => kept.step taken

/-- The lanes a step may change without being taken in them: a guard leaves the lane it entered, and a lane that closes
is emptied and gives the frame it borrowed back to the lane that frame is in. -/
def Touches (lane : Nat) : CallerEvent M → Prop
  | .dropGuard guard => guard.lane = lane
  | .close closed => closed.id = lane ∨ ∃ frame, closed.borrowed = some (lane, frame)
  | _ => False

/-- A frame is opened in the lane in force. -/
def Opens : CallerEvent M → Prop
  | .enter _ | .push _ => True
  | _ => False

theorem Kept.without (kept : s.Kept) {o : Opening M} (opened : o ∈ s.opened) {lane : Nat} (elsewhere : o.lane ≠ lane) :
    (openings s.opened s.left lane).filter (fun p => decide (p.frame ≠ o.frame)) = openings s.opened s.left lane := by
  refine List.filter_eq_self.mpr fun p member => decide_eq_true fun same => elsewhere ?_
  obtain ⟨among, lies, -⟩ := mem_openings.1 member
  rw [← kept.opening_eq among opened same, lies]

/-- What a step leaves of the frames open in a lane of the context. -/
theorem Kept.openIn_step (kept : s.Kept) {event : CallerEvent M} (taken : s.step event = some next) {lane : Nat}
    (known : lane < s.context.nextLane) :
    (next.openIn lane = s.openIn lane) ∨
      (lane = s.context.active ∧ Opens event ∧ ∃ o, next.openIn lane = s.openIn lane ++ [o]) ∨
      (∃ o ∈ s.opened, o.opener ≠ .base ∧ (lane = s.context.active ∨ Touches lane event) ∧
        next.openIn lane = (s.openIn lane).filter fun p => decide (p.frame ≠ o.frame)) ∨
      ∃ closed, event = .close closed ∧ closed.id = lane ∧ next.openIn lane = [] := by
  obtain ⟨-, stays, -⟩ := kept.new_frame
  have opens : ∀ o : Opening M, o.frame = s.context.nextFrame + 1 → o.lane = s.context.active →
      openings (s.opened ++ [o]) s.left lane = s.openIn lane ∨
        lane = s.context.active ∧ openings (s.opened ++ [o]) s.left lane = s.openIn lane ++ [o] := by
    intro o framed lies
    rw [openings_append (framed ▸ stays), lies]
    split
    · rename_i here
      exact Or.inr ⟨here.symm, rfl⟩
    · exact Or.inl (List.append_nil _)
  cases event with
  | enter modId =>
    obtain rfl := Option.some.inj taken
    exact (opens ⟨_, _, modId, .guard⟩ rfl rfl).imp_right fun here => Or.inl ⟨here.1, trivial, _, here.2⟩
  | push modId =>
    obtain rfl := Option.some.inj taken
    exact (opens ⟨_, _, modId, .push⟩ rfl rfl).imp_right fun here => Or.inl ⟨here.1, trivial, _, here.2⟩
  | dropGuard guard =>
    obtain ⟨held, rfl⟩ := step_dropGuard taken
    obtain ⟨o, opened, framed, lies, entered⟩ := kept.guarded guard held
    have left := openings_cons s.opened s.left guard.frame lane
    rw [← framed] at left
    by_cases here : guard.lane = lane
    · refine Or.inr (Or.inr (Or.inl ⟨o, opened, by rw [entered]; decide, Or.inr here, ?_⟩))
      rw [framed] at left ⊢
      exact left
    · refine Or.inl ?_
      rw [kept.without opened fun same => here (lies.symm.trans same), framed] at left
      exact left
  | pop =>
    obtain ⟨o, last, pushed, rfl⟩ := step_pop taken
    obtain ⟨opened, lies, -⟩ := kept.pop_eq last
    have left := openings_cons s.opened s.left o.frame lane
    by_cases here : lane = s.context.active
    · exact Or.inr (Or.inr (Or.inl ⟨o, opened, by rw [pushed]; decide, Or.inl here, left⟩))
    · refine Or.inl (left.trans ?_)
      exact kept.without opened fun same => here (same.symm.trans lies)
  | fork =>
    obtain rfl := Option.some.inj taken
    have other : s.context.fork.2.id ≠ lane := fun here : s.context.nextLane = lane => Nat.ne_of_lt known here.symm
    refine Or.inl ((openings_append stays lane).trans ?_)
    rw [if_neg other, List.append_nil]
    rfl
  | close closed =>
    obtain ⟨held, rfl⟩ := step_close taken
    have left := openings_closed kept.distinct s.left closed.id lane
    by_cases here : lane = closed.id
    · rw [if_pos here] at left
      exact Or.inr (Or.inr (Or.inr ⟨closed, rfl, here.symm, left⟩))
    · rw [if_neg here] at left
      exact Or.inl left
  | activate other =>
    obtain ⟨-, rfl⟩ := step_activate taken
    exact Or.inl rfl
  | deactivate =>
    obtain ⟨_, _, -, rfl⟩ := step_deactivate taken
    exact Or.inl rfl

theorem attributed_congr {lane : Nat} (same : next.openIn lane = s.openIn lane)
    (agree : ∀ o ∈ s.openIn lane, o.frame ∈ next.borrowed ↔ o.frame ∈ s.borrowed) :
    next.attributed lane = s.attributed lane := by
  have passes : ∀ o ∈ s.openIn lane, (!next.borrowed.contains o.frame) = !s.borrowed.contains o.frame := by
    intro o member
    refine congrArg _ (Bool.eq_iff_iff.mpr ?_)
    rw [List.contains_iff_mem, List.contains_iff_mem]
    exact agree o member
  unfold attributed
  rw [same, List.filter_congr passes]

/-- What a step makes of the frames a lane may have lent. -/
theorem Kept.borrowed_step (kept : s.Kept) {event : CallerEvent M} (taken : s.step event = some next) {o : Opening M}
    (opened : o ∈ s.opened) (apart : o.lane ≠ s.context.active) (untouched : ¬ Touches o.lane event) :
    o.frame ∈ next.borrowed ↔ o.frame ∈ s.borrowed := by
  cases event with
  | enter modId | push modId =>
    obtain rfl := Option.some.inj taken
    exact Iff.rfl
  | dropGuard guard =>
    obtain ⟨-, rfl⟩ := step_dropGuard taken
    exact Iff.rfl
  | pop =>
    obtain ⟨_, -, -, rfl⟩ := step_pop taken
    exact Iff.rfl
  | fork =>
    obtain rfl := Option.some.inj taken
    show o.frame ∈ borrowedBy (s.context.fork.2 :: s.lanes) ↔ _
    rw [CallerState.fork_lane]
    cases lent : s.context.lends with
    | none => exact Iff.rfl
    | some frame =>
      obtain ⟨-, p, inside, -, -, rfl⟩ := kept.lends lent
      obtain ⟨among, lies, -⟩ := mem_openings.1 inside
      refine List.mem_cons.trans (or_iff_right fun same => apart ?_)
      rw [← lies, kept.opening_eq opened among same]
  | close closed =>
    obtain ⟨held, rfl⟩ := step_close taken
    show o.frame ∈ borrowedBy (s.lanes.erase closed) ↔ _
    rw [kept.mem_borrowed_erase held]
    refine and_iff_left fun lent => untouched (Or.inr ?_)
    obtain ⟨⟨parent, frame⟩, here, same⟩ := Option.map_eq_some_iff.mp lent
    obtain ⟨-, p, among, framed, lies, -⟩ := kept.lenders closed held parent frame here
    refine ⟨frame, ?_⟩
    rw [here, ← lies, kept.opening_eq among opened (framed.trans same)]
  | activate other =>
    obtain ⟨-, rfl⟩ := step_activate taken
    exact Iff.rfl
  | deactivate =>
    obtain ⟨_, _, -, rfl⟩ := step_deactivate taken
    exact Iff.rfl

/-- What another lane reads stays, where the step does not touch that lane. -/
theorem Kept.reads_apart (kept : s.Kept) {event : CallerEvent M} (taken : s.step event = some next) {lane : Nat}
    (known : lane < s.context.nextLane) (apart : lane ≠ s.context.active) (untouched : ¬ Touches lane event) :
    next.context.reads lane = s.context.reads lane := by
  rw [kept.reads, (kept.step taken).reads]
  rcases kept.openIn_step taken known with same | ⟨here, -⟩ | ⟨o, -, -, here, -⟩ | ⟨closed, rfl, here, -⟩
  · refine attributed_congr same fun o member => ?_
    obtain ⟨opened, rfl, -⟩ := mem_openings.1 member
    exact kept.borrowed_step taken opened apart untouched
  · exact absurd here apart
  · exact absurd here (not_or.mpr ⟨apart, untouched⟩)
  · exact absurd (Or.inl here) untouched

end Xript.Attribution
