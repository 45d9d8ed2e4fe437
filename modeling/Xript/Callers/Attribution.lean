import Xript.Callers.Context
import Xript.Machine.Runs

namespace Xript

/-- How a frame came to be: by `enter`, by `push`, or as the base of a forked lane. -/
inductive Opener where
  | guard
  | push
  | base
  deriving DecidableEq

structure Opening (M : Type) where
  frame : Nat
  lane : Nat
  modId : Option M
  opener : Opener

/-- A caller context in use: the guards, lanes and activations its users hold, every frame opened so far, latest last,
and the frames that were left. -/
structure Attribution (M : Type) where
  context : CallerState M
  guards : List CallerGuard
  lanes : List CallerLane
  entered : List Nat
  opened : List (Opening M)
  left : List Nat

inductive CallerEvent (M : Type) where
  | enter (modId : Option M)
  | dropGuard (guard : CallerGuard)
  | push (modId : Option M)
  | pop
  | fork
  | close (lane : CallerLane)
  | activate (lane : Nat)
  | deactivate

namespace Attribution

variable {M : Type}

def start : Attribution M := ⟨.new, [], [], [], [], []⟩

/-- The frames opened in a lane and not left, latest last. -/
def openings (opened : List (Opening M)) (left : List Nat) (lane : Nat) : List (Opening M) :=
  opened.filter fun o => decide (o.lane = lane) && !left.contains o.frame

def openIn (s : Attribution M) (lane : Nat) : List (Opening M) := openings s.opened s.left lane

/-- The frames that lanes have borrowed. -/
def borrowedBy (lanes : List CallerLane) : List Nat := lanes.filterMap fun lane => lane.borrowed.map Prod.snd

def borrowed (s : Attribution M) : List Nat := borrowedBy s.lanes

/-- The mod a lane runs for: that of the latest frame opened in it, still open and not lent to a live lane. -/
def attributed (s : Attribution M) (lane : Nat) : Option M :=
  ((s.openIn lane).filter fun o => !s.borrowed.contains o.frame).getLast?.bind Opening.modId

/-- A step of a user: a guard and a lane are dropped by who holds them, a `pop` is made where the innermost frame of the
lane in force is of a `push`, and activations nest. -/
def step (s : Attribution M) : CallerEvent M → Option (Attribution M)
  | .enter modId =>
    let entered := s.context.enter modId
    some { s with
      context := entered.1
      guards := entered.2 :: s.guards
      opened := s.opened ++ [⟨entered.2.frame, entered.2.lane, modId, .guard⟩] }
  | .dropGuard guard =>
    if guard ∈ s.guards then
      some { s with
        context := s.context.dropGuard guard
        guards := s.guards.erase guard
        left := guard.frame :: s.left }
    else none
  | .push modId =>
    let pushed := s.context.push modId false
    some { s with
      context := pushed.1
      opened := s.opened ++ [⟨pushed.2.2, pushed.2.1, modId, .push⟩] }
  | .pop =>
    match (s.openIn s.context.active).getLast? with
    | some ⟨frame, _, _, .push⟩ => some { s with context := s.context.pop, left := frame :: s.left }
    | _ => none
  | .fork =>
    let forked := s.context.fork
    some { s with
      context := forked.1
      lanes := forked.2 :: s.lanes
      opened := s.opened ++ [⟨forked.1.nextFrame, forked.2.id, s.context.current, .base⟩] }
  | .close lane =>
    if lane ∈ s.lanes then
      some { s with
        context := s.context.dropLane lane
        lanes := s.lanes.erase lane
        left := (s.openIn lane.id).map Opening.frame ++ s.left }
    else none
  | .activate lane =>
    if lane < s.context.nextLane then
      let activated := s.context.activate lane
      some { s with context := activated.1, entered := activated.2 :: s.entered }
    else none
  | .deactivate =>
    match s.entered with
    | previous :: entered => some { s with context := s.context.deactivate previous, entered := entered }
    | [] => none

/-- The frame of an opening, lent where it is among the frames borrowed. -/
def frameOf (lent : List Nat) (o : Opening M) : CallerFrame M :=
  ⟨o.frame, o.modId, decide (o.opener = .guard), if lent.contains o.frame then 1 else 0⟩

/-- The context holds, lane by lane, the frames the ledger has open. -/
structure Kept (s : Attribution M) : Prop where
  frames : ∀ lane, s.context.framesOf lane = (s.openIn lane).map (frameOf s.borrowed)
  neat : s.context.Neat
  live : ∀ lane, s.context.live lane = true ↔ lane = rootLane ∨ lane ∈ s.lanes.map CallerLane.id
  distinctLanes : (rootLane :: s.lanes.map CallerLane.id).Nodup
  lanesBelow : ∀ lane ∈ rootLane :: s.lanes.map CallerLane.id, lane < s.context.nextLane
  distinct : (s.opened.map Opening.frame).Nodup
  below : ∀ o ∈ s.opened, o.frame ≤ s.context.nextFrame ∧ o.lane < s.context.nextLane
  leftBelow : ∀ frame ∈ s.left, frame ≤ s.context.nextFrame
  activations : ∀ lane ∈ s.context.active :: s.entered, lane < s.context.nextLane
  bottom : (s.context.active :: s.entered).getLast? = some rootLane
  guarded : ∀ guard ∈ s.guards, ∃ o ∈ s.opened, o.frame = guard.frame ∧ o.lane = guard.lane ∧ o.opener = .guard
  guards : ∀ o ∈ s.opened, o.opener = .guard → o.frame ∉ s.left → ∃ guard ∈ s.guards, guard.frame = o.frame
  bases : ∀ o ∈ s.opened, o.opener = .base → o.frame ∉ s.left → o.lane ∈ s.lanes.map CallerLane.id
  lenders : ∀ lane ∈ s.lanes, ∀ parent frame, lane.borrowed = some (parent, frame) →
    parent ≠ lane.id ∧ ∃ o ∈ s.opened, o.frame = frame ∧ o.lane = parent ∧ o.opener = .guard
  borrowedOnce : s.borrowed.Nodup

theorem mem_openings {opened : List (Opening M)} {left : List Nat} {lane : Nat} {o : Opening M} :
    o ∈ openings opened left lane ↔ o ∈ opened ∧ o.lane = lane ∧ o.frame ∉ left := by
  simp [openings]

theorem openings_append {opened : List (Opening M)} {left : List Nat} {o : Opening M} (fresh : o.frame ∉ left)
    (lane : Nat) : openings (opened ++ [o]) left lane = openings opened left lane ++ if o.lane = lane then [o] else [] := by
  unfold openings
  rw [List.filter_append]
  congr 1
  by_cases here : o.lane = lane
  · simp [here, fresh]
  · simp [here]

theorem openings_cons (opened : List (Opening M)) (left : List Nat) (frame lane : Nat) :
    openings opened (frame :: left) lane = (openings opened left lane).filter fun o => decide (o.frame ≠ frame) := by
  unfold openings
  rw [List.filter_filter]
  refine List.filter_congr fun o _ => ?_
  by_cases here : o.frame = frame
  · simp [here]
  · simp [here]

theorem openings_closed {opened : List (Opening M)} (distinct : (opened.map Opening.frame).Nodup) (left : List Nat)
    (closed lane : Nat) :
    openings opened ((openings opened left closed).map Opening.frame ++ left) lane =
      if lane = closed then [] else openings opened left lane := by
  split
  · rename_i here
    refine List.filter_eq_nil_iff.mpr fun o member passes => ?_
    simp only [Bool.and_eq_true, decide_eq_true_eq, Bool.not_eq_true', List.contains_eq_mem, decide_eq_false_iff_not,
      List.mem_append, not_or] at passes
    exact passes.2.1 (List.mem_map_of_mem (mem_openings.2 ⟨member, passes.1.trans here, passes.2.2⟩))
  · rename_i other
    refine List.filter_congr fun o member => ?_
    by_cases here : o.lane = lane
    · have apart : o.frame ∉ (openings opened left closed).map Opening.frame := by
        intro inside
        obtain ⟨p, among, same⟩ := List.mem_map.mp inside
        obtain ⟨whole, lies, -⟩ := mem_openings.1 among
        have equal : p = o := List.inj_on_of_nodup_map distinct whole member same
        exact other (here.symm.trans (equal ▸ lies))
      simp only [here, List.contains_eq_mem, List.mem_append, apart, false_or]
    · simp [here]

variable {s : Attribution M}

theorem mem_borrowed {frame : Nat} :
    frame ∈ s.borrowed ↔ ∃ lane ∈ s.lanes, ∃ parent, lane.borrowed = some (parent, frame) := by
  simp only [borrowed, borrowedBy, List.mem_filterMap, Option.map_eq_some_iff, Prod.exists, exists_eq_right]

theorem frameOf_cons {lent : List Nat} {frame : Nat} (unlent : frame ∉ lent) (o : Opening M) :
    frameOf (frame :: lent) o = if o.frame = frame then CallerState.lend (frameOf lent o) else frameOf lent o := by
  split
  · rename_i same
    have was : lent.contains o.frame = false := by simpa [same] using unlent
    have now : (frame :: lent).contains o.frame = true := by simp [same]
    unfold CallerState.lend frameOf
    rw [was, now]
    rfl
  · rename_i apart
    have equal : (frame :: lent).contains o.frame = lent.contains o.frame := by simp [apart]
    unfold frameOf
    rw [equal]

section

variable (kept : s.Kept)

include kept

theorem Kept.opening_eq {o p : Opening M} (first : o ∈ s.opened) (second : p ∈ s.opened) (same : o.frame = p.frame) :
    o = p := List.inj_on_of_nodup_map kept.distinct first second same

theorem Kept.ids (lane : Nat) : ((s.context.framesOf lane).map CallerFrame.id).Nodup := by
  rw [kept.frames, List.map_map]
  exact (List.filter_sublist.map Opening.frame).nodup kept.distinct

theorem Kept.borrowed_opened {frame : Nat} (lent : frame ∈ s.borrowed) :
    ∃ o ∈ s.opened, o.frame = frame ∧ o.opener = .guard := by
  obtain ⟨lane, held, parent, here⟩ := mem_borrowed.1 lent
  obtain ⟨-, o, member, same, -, guard⟩ := kept.lenders lane held parent frame here
  exact ⟨o, member, same, guard⟩

theorem Kept.new_frame : s.context.nextFrame + 1 ∉ s.opened.map Opening.frame ∧ s.context.nextFrame + 1 ∉ s.left ∧
    s.context.nextFrame + 1 ∉ s.borrowed := by
  have fresh : s.context.nextFrame + 1 ∉ s.opened.map Opening.frame := by
    intro inside
    obtain ⟨o, member, same⟩ := List.mem_map.mp inside
    have := (kept.below o member).1
    omega
  refine ⟨fresh, fun inside => ?_, fun lent => ?_⟩
  · have := kept.leftBelow _ inside
    omega
  · obtain ⟨o, member, same, -⟩ := kept.borrowed_opened lent
    exact fresh (same ▸ List.mem_map_of_mem member)

/-- The innermost frame that is not hidden, in the ledger and in the context. -/
theorem Kept.top (lane : Nat) : CallerState.top (s.context.framesOf lane) =
    ((s.openIn lane).filter fun o => !s.borrowed.contains o.frame).getLast?.map (frameOf s.borrowed) := by
  have same : ((fun frame : CallerFrame M => decide (frame.lent = 0)) ∘ frameOf s.borrowed) =
      fun o => !s.borrowed.contains o.frame := by
    funext o
    cases lent : s.borrowed.contains o.frame with
    | true => simp only [Function.comp_apply, frameOf, lent, if_true]; rfl
    | false => simp only [Function.comp_apply, frameOf, lent]; rfl
  rw [CallerState.top, kept.frames, ← List.map_reverse, List.find?_map, same, List.getLast?_filter]

/-- What a lane reads is what the ledger attributes to it. -/
theorem Kept.reads (lane : Nat) : s.context.reads lane = s.attributed lane := by
  rw [CallerState.reads_eq, kept.top, attributed]
  cases ((s.openIn lane).filter fun o => !s.borrowed.contains o.frame).getLast? with
  | none => rfl
  | some o => rfl

/-- A frame is entered, by a guard or by `push`. -/
theorem Kept.opening {modId : Option M} {opener : Opener} {guards : List CallerGuard} (entered : opener ≠ .base)
    (known : ∀ guard ∈ guards, guard ∈ s.guards ∨
      opener = .guard ∧ guard = ⟨s.context.active, s.context.nextFrame + 1⟩)
    (held : s.guards ⊆ guards) (given : opener = .guard → ⟨s.context.active, s.context.nextFrame + 1⟩ ∈ guards) :
    Kept { s with
      context := (s.context.push modId (decide (opener = .guard))).1
      guards := guards
      opened := s.opened ++ [⟨s.context.nextFrame + 1, s.context.active, modId, opener⟩] } := by
  obtain ⟨fresh, stays, unlent⟩ := kept.new_frame
  have active := kept.activations _ (List.mem_cons_self ..)
  refine { kept with
    frames := fun lane => ?_
    neat := kept.neat.push ..
    distinct := ?_
    below := ?_
    leftBelow := fun frame inside => Nat.le_succ_of_le (kept.leftBelow frame inside)
    guarded := fun guard member => ?_
    guards := ?_
    bases := ?_
    lenders := fun lane member parent frame here => ?_ }
  · show _ = List.map (frameOf s.borrowed) (openings (s.opened ++ [_]) s.left lane)
    rw [CallerState.push_framesOf, openings_append stays, kept.frames]
    have newest : frameOf s.borrowed ⟨s.context.nextFrame + 1, s.context.active, modId, opener⟩ =
        ⟨s.context.nextFrame + 1, modId, decide (opener = .guard), 0⟩ := by
      rw [frameOf, if_neg (by simpa using unlent)]
    by_cases here : lane = s.context.active
    · rw [if_pos here, if_pos here.symm, List.map_append, List.map_singleton]
      exact congrArg (fun frame => _ ++ [frame]) newest.symm
    · rw [if_neg here, if_neg fun same => here same.symm, List.append_nil]
      rfl
  · rw [List.map_append]
    exact List.nodup_append.mpr ⟨kept.distinct, List.nodup_singleton _, fun a inside b single => by
      rw [List.mem_singleton.mp single]
      intro same
      rw [same] at inside
      exact fresh inside⟩
  · intro o member
    rcases List.mem_append.mp member with old | newest
    · exact ⟨Nat.le_succ_of_le (kept.below o old).1, (kept.below o old).2⟩
    · rw [List.mem_singleton.mp newest]
      exact ⟨Nat.le_refl _, active⟩
  · rcases known guard member with old | ⟨guard', rfl⟩
    · obtain ⟨o, among, facts⟩ := kept.guarded guard old
      exact ⟨o, List.mem_append_left _ among, facts⟩
    · exact ⟨_, List.mem_append_right _ (List.mem_singleton_self _), rfl, rfl, guard'⟩
  · intro o member guard' inside
    rcases List.mem_append.mp member with old | newest
    · obtain ⟨guard, among, same⟩ := kept.guards o old guard' inside
      exact ⟨guard, held among, same⟩
    · obtain rfl := List.mem_singleton.mp newest
      exact ⟨_, given guard', rfl⟩
  · intro o member base inside
    rcases List.mem_append.mp member with old | newest
    · exact kept.bases o old base inside
    · obtain rfl := List.mem_singleton.mp newest
      exact absurd base entered
  · obtain ⟨apart, o, among, facts⟩ := kept.lenders lane member parent frame here
    exact ⟨apart, o, List.mem_append_left _ among, facts⟩

/-- A frame is left, wherever it sits in its lane. -/
theorem Kept.leaving {context : CallerState M} {guards : List CallerGuard} {o : Opening M} (opened : o ∈ s.opened)
    (frames : ∀ x, context.framesOf x = if x = o.lane then (s.context.framesOf x).filter fun f => decide (f.id ≠ o.frame)
      else s.context.framesOf x)
    (neat : context.Neat) (live : context.live = s.context.live) (active : context.active = s.context.active)
    (nextLane : context.nextLane = s.context.nextLane) (nextFrame : context.nextFrame = s.context.nextFrame)
    (known : guards ⊆ s.guards) (held : ∀ guard ∈ s.guards, guard.frame ≠ o.frame → guard ∈ guards) :
    Kept { s with context := context, guards := guards, left := o.frame :: s.left } := by
  refine { kept with
    frames := fun lane => ?_
    neat := neat
    live := fun lane => by
      show context.live lane = true ↔ _
      rw [live]
      exact kept.live lane
    lanesBelow := fun lane member => nextLane ▸ kept.lanesBelow lane member
    below := fun p member => ?_
    leftBelow := ?_
    activations := ?_
    bottom := ?_
    guarded := fun guard member => kept.guarded guard (known member)
    guards := fun p member guard' inside => ?_
    bases := fun p member base inside => kept.bases p member base fun old => inside (List.mem_cons_of_mem _ old) }
  · show context.framesOf lane = List.map (frameOf s.borrowed) (openings s.opened (o.frame :: s.left) lane)
    rw [frames, openings_cons, kept.frames]
    split
    · rw [List.filter_map]
      rfl
    · rename_i other
      have all : ∀ p ∈ openings s.opened s.left lane, decide (p.frame ≠ o.frame) = true := by
        intro p member
        obtain ⟨among, lies, -⟩ := mem_openings.1 member
        refine decide_eq_true fun same => other ?_
        rw [← lies, kept.opening_eq among opened same]
      rw [List.filter_eq_self.mpr all]
      rfl
  · show p.frame ≤ context.nextFrame ∧ p.lane < context.nextLane
    rw [nextFrame, nextLane]
    exact kept.below p member
  · show ∀ frame ∈ o.frame :: s.left, frame ≤ context.nextFrame
    rw [nextFrame]
    exact List.forall_mem_cons.mpr ⟨(kept.below o opened).1, kept.leftBelow⟩
  · show ∀ lane ∈ context.active :: s.entered, lane < context.nextLane
    rw [active, nextLane]
    exact kept.activations
  · show (context.active :: s.entered).getLast? = _
    rw [active]
    exact kept.bottom
  · obtain ⟨guard, among, same⟩ := kept.guards p member guard' fun old => inside (List.mem_cons_of_mem _ old)
    refine ⟨guard, held guard among fun equal => inside ?_, same⟩
    rw [← same, equal]
    exact List.mem_cons_self ..

/-- Forgetting one of the lanes forgets what it borrowed. -/
theorem Kept.mem_borrowed_erase {lane : CallerLane} (held : lane ∈ s.lanes) {frame : Nat} :
    frame ∈ borrowedBy (s.lanes.erase lane) ↔ frame ∈ s.borrowed ∧ lane.borrowed.map Prod.snd ≠ some frame := by
  have perm : s.borrowed.Perm (borrowedBy (lane :: s.lanes.erase lane)) := (List.perm_cons_erase held).filterMap _
  have once := perm.nodup kept.borrowedOnce
  rw [perm.mem_iff]
  have split : borrowedBy (lane :: s.lanes.erase lane) =
      (lane.borrowed.map Prod.snd).toList ++ borrowedBy (s.lanes.erase lane) := by
    unfold borrowedBy
    rw [List.filterMap_cons]
    cases lane.borrowed.map Prod.snd <;> rfl
  rw [split] at once ⊢
  cases own : lane.borrowed.map Prod.snd with
  | none => exact ⟨fun inside => ⟨inside, by simp⟩, fun both => both.1⟩
  | some f =>
    rw [own] at once
    obtain ⟨apart, -⟩ := List.nodup_cons.mp once
    constructor
    · intro inside
      refine ⟨List.mem_cons_of_mem _ inside, fun same => apart ?_⟩
      rw [Option.some.inj same]
      exact inside
    · rintro ⟨inside, other⟩
      rcases List.mem_cons.mp inside with rfl | inside
      · exact absurd rfl other
      · exact inside

theorem Kept.lane_nodup {lane : CallerLane} (held : lane ∈ s.lanes) :
    lane.id ≠ rootLane ∧ lane.id ∉ (s.lanes.erase lane).map CallerLane.id := by
  obtain ⟨root, distinct⟩ := List.nodup_cons.mp kept.distinctLanes
  have perm := (List.perm_cons_erase held).map CallerLane.id
  have once := List.nodup_cons.mp (perm.nodup distinct)
  exact ⟨fun same => root (same ▸ List.mem_map_of_mem held), once.1⟩

theorem Kept.still_lent {lane : CallerLane} (held : lane ∈ s.lanes) {o : Opening M}
    (free : ∀ parent, lane.borrowed ≠ some (parent, o.frame)) :
    frameOf (borrowedBy (s.lanes.erase lane)) o = frameOf s.borrowed o := by
  have equal : (borrowedBy (s.lanes.erase lane)).contains o.frame = s.borrowed.contains o.frame := by
    rw [Bool.eq_iff_iff, List.contains_iff_mem, List.contains_iff_mem, kept.mem_borrowed_erase held]
    refine and_iff_left fun lent => ?_
    obtain ⟨⟨parent, frame⟩, here, same⟩ := Option.map_eq_some_iff.mp lent
    exact free parent (here.trans (congrArg (fun f => some (parent, f)) same))
  unfold frameOf
  rw [equal]

theorem Kept.unlent {lane : CallerLane} (held : lane ∈ s.lanes) {o : Opening M} {parent : Nat}
    (borrowed : lane.borrowed = some (parent, o.frame)) :
    frameOf (borrowedBy (s.lanes.erase lane)) o = CallerState.giveBack (frameOf s.borrowed o) := by
  have was : s.borrowed.contains o.frame = true :=
    List.contains_iff_mem.mpr (mem_borrowed.2 ⟨lane, held, parent, borrowed⟩)
  have gone : (borrowedBy (s.lanes.erase lane)).contains o.frame = false := by
    rw [← Bool.not_eq_true, List.contains_iff_mem, kept.mem_borrowed_erase held]
    rintro ⟨-, other⟩
    exact other (by rw [borrowed]; rfl)
  unfold CallerState.giveBack frameOf
  rw [was, gone]
  rfl

/-- Closing a lane gives the frame it borrowed back, where that frame still is. -/
theorem Kept.given_back {lane : CallerLane} (held : lane ∈ s.lanes) (x : Nat) :
    (match lane.borrowed with
      | some (parent, frame) =>
        if x = parent then
          modifyFirst (fun candidate => decide (candidate.id = frame)) CallerState.giveBack (s.context.framesOf x)
        else s.context.framesOf x
      | none => s.context.framesOf x) =
      (openings s.opened s.left x).map (frameOf (borrowedBy (s.lanes.erase lane))) := by
  cases borrowed : lane.borrowed with
  | none =>
    refine (kept.frames x).trans (List.map_congr_left fun o _ => (kept.still_lent held fun parent here => ?_).symm)
    rw [borrowed] at here
    cases here
  | some pair =>
    obtain ⟨parent, frame⟩ := pair
    obtain ⟨-, o, opened, framed, lies, -⟩ := kept.lenders lane held parent frame borrowed
    have other : ∀ p : Opening M, p.frame ≠ frame → ∀ q, lane.borrowed ≠ some (q, p.frame) := by
      intro p apart q here
      rw [borrowed] at here
      exact apart (Prod.mk.inj (Option.some.inj here)).2.symm
    show (if x = parent then _ else _) = _
    split
    · have each : modifyFirst (fun candidate => decide (candidate.id = frame)) CallerState.giveBack
          (s.context.framesOf x) =
          (s.context.framesOf x).map fun f => if f.id = frame then CallerState.giveBack f else f := by
        cases found : (s.context.framesOf x).find? fun candidate => decide (candidate.id = frame) with
        | none =>
          have missing := List.find?_eq_none.mp found
          refine (modifyFirst_of_none found).trans ?_
          refine ((List.map_congr_left fun f member => if_neg ?_).trans (List.map_id' _)).symm
          simpa using missing f member
        | some f =>
          have is : f.id = frame := by simpa using List.find?_some found
          rw [modifyFirst_of_key (kept.ids x) found, is]
      rw [each, kept.frames, List.map_map]
      refine List.map_congr_left fun p _ => ?_
      show (if p.frame = frame then CallerState.giveBack (frameOf s.borrowed p) else frameOf s.borrowed p) = _
      split
      · rename_i same
        exact (kept.unlent held (same ▸ borrowed)).symm
      · rename_i apart
        exact (kept.still_lent held (other p apart)).symm
    · rename_i elsewhere
      refine (kept.frames x).trans (List.map_congr_left fun p member => (kept.still_lent held (other p ?_)).symm)
      intro same
      obtain ⟨among, at', -⟩ := mem_openings.1 member
      exact elsewhere (by rw [← at', kept.opening_eq among opened (same.trans framed.symm), lies])

/-- A lane is closed, and the frame it borrowed is given back. -/
theorem Kept.closing {lane : CallerLane} (held : lane ∈ s.lanes) :
    Kept { s with
      context := s.context.dropLane lane
      lanes := s.lanes.erase lane
      left := (s.openIn lane.id).map Opening.frame ++ s.left } := by
  obtain ⟨notRoot, once⟩ := kept.lane_nodup held
  have lender := kept.lenders lane held
  have same : (s.context.dropLane lane).active = s.context.active ∧
      (s.context.dropLane lane).nextLane = s.context.nextLane ∧
      (s.context.dropLane lane).nextFrame = s.context.nextFrame ∧
      (s.context.dropLane lane).live = Function.update s.context.live lane.id false := by
    unfold CallerState.dropLane
    simp only
    split
    · split <;> exact ⟨rfl, rfl, rfl, rfl⟩
    · exact ⟨rfl, rfl, rfl, rfl⟩
  obtain ⟨active, nextLane, nextFrame, live⟩ := same
  have others : ∀ x, x ∈ (s.lanes.erase lane).map CallerLane.id ↔ x ≠ lane.id ∧ x ∈ s.lanes.map CallerLane.id := by
    intro x
    have perm := ((List.perm_cons_erase held).map CallerLane.id).mem_iff (a := x)
    rw [List.map_cons, List.mem_cons] at perm
    constructor
    · intro inside
      exact ⟨fun equal => once (equal ▸ inside), perm.mpr (Or.inr inside)⟩
    · rintro ⟨apart, inside⟩
      exact (perm.mp inside).resolve_left apart
  refine { kept with
    frames := fun x => ?_
    neat := kept.neat.dropLane lane
    live := fun x => ?_
    distinctLanes := ?_
    lanesBelow := ?_
    below := fun o member => ?_
    leftBelow := ?_
    activations := ?_
    bottom := ?_
    guards := fun o member guard inside => kept.guards o member guard fun old => inside (List.mem_append_right _ old)
    bases := fun o member base inside => ?_
    lenders := fun other member => kept.lenders other (List.mem_of_mem_erase member)
    borrowedOnce := ?_ }
  · show (s.context.dropLane lane).framesOf x = List.map (frameOf (borrowedBy (s.lanes.erase lane)))
      (openings s.opened ((s.openIn lane.id).map Opening.frame ++ s.left) x)
    rw [CallerState.dropLane_framesOf _ fun parent frame here => (lender parent frame here).1, openIn,
      openings_closed kept.distinct]
    split
    · rfl
    · exact kept.given_back held x
  · show (s.context.dropLane lane).live x = true ↔ _
    rw [live]
    show _ ↔ x = rootLane ∨ x ∈ (s.lanes.erase lane).map CallerLane.id
    rw [others]
    by_cases here : x = lane.id
    · rw [here, Function.update_self]
      exact iff_of_false (by decide) fun either => either.elim notRoot fun both => both.1 rfl
    · rw [Function.update_of_ne here, kept.live]
      exact or_congr_right (and_iff_right here).symm
  · refine List.nodup_cons.mpr ⟨fun inside => ?_, ?_⟩
    · exact (List.nodup_cons.mp kept.distinctLanes).1 ((others _).mp inside).2
    · exact ((List.erase_sublist ..).map CallerLane.id).nodup (List.nodup_cons.mp kept.distinctLanes).2
  · show ∀ x ∈ rootLane :: (s.lanes.erase lane).map CallerLane.id, x < (s.context.dropLane lane).nextLane
    rw [nextLane]
    refine List.forall_mem_cons.mpr ⟨kept.lanesBelow _ (List.mem_cons_self ..), fun x inside => ?_⟩
    exact kept.lanesBelow x (List.mem_cons_of_mem _ ((others x).mp inside).2)
  · show o.frame ≤ (s.context.dropLane lane).nextFrame ∧ o.lane < (s.context.dropLane lane).nextLane
    rw [nextFrame, nextLane]
    exact kept.below o member
  · intro frame inside
    show frame ≤ (s.context.dropLane lane).nextFrame
    rw [nextFrame]
    rcases List.mem_append.mp inside with closed | old
    · obtain ⟨o, member, rfl⟩ := List.mem_map.mp closed
      exact (kept.below o (mem_openings.1 member).1).1
    · exact kept.leftBelow frame old
  · show ∀ x ∈ (s.context.dropLane lane).active :: s.entered, x < (s.context.dropLane lane).nextLane
    rw [active, nextLane]
    exact kept.activations
  · show ((s.context.dropLane lane).active :: s.entered).getLast? = _
    rw [active]
    exact kept.bottom
  · have stays : o.frame ∉ s.left := fun old => inside (List.mem_append_right _ old)
    refine (others _).mpr ⟨fun here => inside (List.mem_append_left _ (List.mem_map_of_mem ?_)), kept.bases o member base stays⟩
    exact mem_openings.2 ⟨member, here, stays⟩
  · exact ((List.erase_sublist ..).filterMap _).nodup kept.borrowedOnce

/-- The frame a fork borrows is the innermost in force, entered by a guard and not lent before. -/
theorem Kept.lends {frame : CallerFrame M} (lent : s.context.lends = some frame) :
    CallerState.top (s.context.framesOf s.context.active) = some frame ∧
      ∃ o ∈ s.openIn s.context.active, o.opener = .guard ∧ o.frame ∉ s.borrowed ∧ frame = frameOf s.borrowed o := by
  obtain ⟨top, seed⟩ := Option.filter_eq_some_iff.mp lent
  refine ⟨top, ?_⟩
  rw [kept.top] at top
  obtain ⟨o, last, rfl⟩ := Option.map_eq_some_iff.mp top
  obtain ⟨inside, unlent⟩ := List.mem_filter.mp (List.mem_of_getLast? last)
  exact ⟨o, inside, by simpa [frameOf] using seed, by simpa using unlent, rfl⟩

/-- Outside the new lane a fork only hides the frame it borrows. -/
theorem Kept.hidden {x : Nat} (old : x ≠ s.context.nextLane) :
    s.context.fork.1.framesOf x =
      (openings s.opened s.left x).map (frameOf (borrowedBy (s.context.fork.2 :: s.lanes))) := by
  rw [CallerState.fork_framesOf, if_neg old, CallerState.fork_lane]
  cases lent : s.context.lends with
  | none =>
    rw [if_neg fun both => nomatch both.2]
    exact kept.frames x
  | some frame =>
    obtain ⟨top, o, inside, -, unlent, rfl⟩ := kept.lends lent
    obtain ⟨among, lies, -⟩ := mem_openings.1 inside
    show _ = (openings s.opened s.left x).map (frameOf (o.frame :: s.borrowed))
    split
    · rename_i both
      have distinct := kept.ids x
      rw [both.1] at distinct ⊢
      have reversed : ((s.context.framesOf s.context.active).reverse.map CallerFrame.id).Nodup := by
        rw [List.map_reverse]
        exact List.nodup_reverse.mpr distinct
      rw [modifyFirst_of_key reversed top, ← List.map_reverse, List.reverse_reverse, kept.frames, List.map_map]
      exact List.map_congr_left fun p _ => (frameOf_cons unlent p).symm
    · rename_i elsewhere
      refine (kept.frames x).trans (List.map_congr_left fun p member => ?_)
      rw [frameOf_cons unlent, if_neg]
      intro same
      obtain ⟨there, at', -⟩ := mem_openings.1 member
      refine elsewhere ⟨?_, rfl⟩
      rw [← at', kept.opening_eq there among same, lies]

/-- A lane is forked: its base is for the mod in force, and the frame that was entered for the call is hidden. -/
theorem Kept.forking :
    Kept { s with
      context := s.context.fork.1
      lanes := s.context.fork.2 :: s.lanes
      opened := s.opened ++ [⟨s.context.fork.1.nextFrame, s.context.fork.2.id, s.context.current, .base⟩] } := by
  obtain ⟨fresh, stays, unlent⟩ := kept.new_frame
  have active := kept.activations _ (List.mem_cons_self ..)
  have forked := CallerState.fork_lane s.context
  have id : s.context.fork.2.id = s.context.nextLane := rfl
  have new : s.context.nextLane ∉ rootLane :: s.lanes.map CallerLane.id := fun inside =>
    absurd (kept.lanesBelow _ inside) (Nat.lt_irrefl _)
  have borrows : ∀ frame, s.context.lends = some frame → frame.id ∉ s.borrowed ∧
      ∃ o ∈ s.opened, o.frame = frame.id ∧ o.lane = s.context.active ∧ o.opener = .guard := by
    intro frame lent
    obtain ⟨-, o, inside, guard, outside, rfl⟩ := kept.lends lent
    obtain ⟨among, lies, -⟩ := mem_openings.1 inside
    exact ⟨outside, o, among, rfl, lies, guard⟩
  have unborrowed : s.context.nextFrame + 1 ∉ borrowedBy (s.context.fork.2 :: s.lanes) := by
    rw [forked]
    cases lent : s.context.lends with
    | none => exact unlent
    | some frame =>
      obtain ⟨-, o, among, same, -⟩ := borrows frame lent
      intro inside
      rcases List.mem_cons.mp inside with equal | inside
      · rw [equal] at fresh
        exact fresh (List.mem_map.mpr ⟨o, among, same⟩)
      · exact unlent inside
  refine { kept with
    frames := fun x => ?_
    neat := kept.neat.fork
    live := fun x => ?_
    distinctLanes := ?_
    lanesBelow := ?_
    distinct := ?_
    below := ?_
    leftBelow := fun frame inside => Nat.le_succ_of_le (kept.leftBelow frame inside)
    activations := fun lane inside => Nat.lt_succ_of_lt (kept.activations lane inside)
    guarded := fun guard member => ?_
    guards := ?_
    bases := ?_
    lenders := ?_
    borrowedOnce := ?_ }
  · show s.context.fork.1.framesOf x = List.map (frameOf (borrowedBy (s.context.fork.2 :: s.lanes)))
      (openings (s.opened ++ [_]) s.left x)
    rw [openings_append stays]
    by_cases here : x = s.context.nextLane
    · have none' : openings s.opened s.left x = [] := by
        refine List.eq_nil_iff_forall_not_mem.mpr fun o member => ?_
        obtain ⟨among, lies, -⟩ := mem_openings.1 member
        have := (kept.below o among).2
        omega
      rw [CallerState.fork_framesOf, if_pos here, none', id, if_pos here.symm, List.nil_append, List.map_singleton]
      have outside : (borrowedBy (s.context.fork.2 :: s.lanes)).contains (s.context.nextFrame + 1) = false := by
        simpa using unborrowed
      show _ = [(⟨s.context.nextFrame + 1, s.context.current, false,
        if (borrowedBy (s.context.fork.2 :: s.lanes)).contains (s.context.nextFrame + 1) = true then 1 else 0⟩ :
          CallerFrame M)]
      rw [outside]
      rfl
    · rw [id, if_neg fun same => here same.symm, List.append_nil]
      exact kept.hidden here
  · show Function.update s.context.live s.context.nextLane true x = true ↔
      x = rootLane ∨ x ∈ s.context.nextLane :: s.lanes.map CallerLane.id
    by_cases here : x = s.context.nextLane
    · rw [here, Function.update_self]
      exact iff_of_true rfl (Or.inr (List.mem_cons_self ..))
    · rw [Function.update_of_ne here, kept.live, List.mem_cons, or_iff_right here]
  · obtain ⟨root, distinct⟩ := List.nodup_cons.mp kept.distinctLanes
    refine List.nodup_cons.mpr ⟨fun inside => ?_, List.nodup_cons.mpr ⟨fun inside => ?_, distinct⟩⟩
    · rcases List.mem_cons.mp inside with same | inside
      · exact new (same ▸ List.mem_cons_self ..)
      · exact root inside
    · exact new (List.mem_cons_of_mem _ inside)
  · intro x inside
    show x < s.context.nextLane + 1
    rcases List.mem_cons.mp inside with rfl | inside
    · exact Nat.lt_succ_of_lt (kept.lanesBelow _ (List.mem_cons_self ..))
    · rcases List.mem_cons.mp inside with rfl | inside
      · exact Nat.lt_succ_self _
      · exact Nat.lt_succ_of_lt (kept.lanesBelow x (List.mem_cons_of_mem _ inside))
  · rw [List.map_append]
    exact List.nodup_append.mpr ⟨kept.distinct, List.nodup_singleton _, fun a inside b single => by
      rw [List.mem_singleton.mp single]
      intro same
      rw [same] at inside
      exact fresh inside⟩
  · intro o member
    rcases List.mem_append.mp member with old | newest
    · exact ⟨Nat.le_succ_of_le (kept.below o old).1, Nat.lt_succ_of_lt (kept.below o old).2⟩
    · rw [List.mem_singleton.mp newest]
      exact ⟨Nat.le_refl _, Nat.lt_succ_self _⟩
  · obtain ⟨o, among, facts⟩ := kept.guarded guard member
    exact ⟨o, List.mem_append_left _ among, facts⟩
  · intro o member guard inside
    rcases List.mem_append.mp member with old | newest
    · exact kept.guards o old guard inside
    · rw [List.mem_singleton.mp newest] at guard
      cases guard
  · intro o member base inside
    rcases List.mem_append.mp member with old | newest
    · exact List.mem_cons_of_mem _ (kept.bases o old base inside)
    · rw [List.mem_singleton.mp newest]
      exact List.mem_cons_self ..
  · intro lane member parent frame here
    rcases List.mem_cons.mp member with rfl | old
    · rw [forked] at here
      obtain ⟨f, lent, same⟩ := Option.map_eq_some_iff.mp here
      obtain ⟨rfl, rfl⟩ := Prod.mk.inj same
      obtain ⟨-, o, among, facts⟩ := borrows f lent
      exact ⟨Nat.ne_of_lt active, o, List.mem_append_left _ among, facts⟩
    · obtain ⟨apart, o, among, facts⟩ := kept.lenders lane old parent frame here
      exact ⟨apart, o, List.mem_append_left _ among, facts⟩
  · show (borrowedBy (s.context.fork.2 :: s.lanes)).Nodup
    rw [forked]
    cases lent : s.context.lends with
    | none => exact kept.borrowedOnce
    | some frame => exact List.nodup_cons.mpr ⟨(borrows frame lent).1, kept.borrowedOnce⟩

theorem Kept.activating {lane : Nat} (known : lane < s.context.nextLane) :
    Kept { s with context := (s.context.activate lane).1, entered := s.context.active :: s.entered } :=
  { kept with
    neat := ⟨kept.neat.present, kept.neat.tidied⟩
    activations := List.forall_mem_cons.mpr ⟨known, kept.activations⟩
    bottom := (List.getLast?_cons_cons ..).trans kept.bottom }

theorem Kept.deactivating {previous : Nat} {entered : List Nat} (stack : s.entered = previous :: entered) :
    Kept { s with context := s.context.deactivate previous, entered := entered } := by
  have activations := kept.activations
  have bottom := kept.bottom
  rw [stack] at activations bottom
  refine { kept with
    frames := fun x => ?_
    neat := kept.neat.deactivate previous
    live := fun x => ?_
    lanesBelow := fun x inside => ?_
    below := fun o member => ?_
    leftBelow := fun frame inside => ?_
    activations := ?_
    bottom := ?_ }
  · show (CallerState.tidy _ _).framesOf x = _
    rw [CallerState.tidy_framesOf]
    exact kept.frames x
  · show (CallerState.tidy _ _).live x = true ↔ _
    rw [CallerState.tidy_live]
    exact kept.live x
  · show x < (CallerState.tidy _ _).nextLane
    rw [CallerState.tidy_nextLane]
    exact kept.lanesBelow x inside
  · show o.frame ≤ (CallerState.tidy _ _).nextFrame ∧ o.lane < (CallerState.tidy _ _).nextLane
    rw [CallerState.tidy_nextLane, CallerState.tidy_nextFrame]
    exact kept.below o member
  · show frame ≤ (CallerState.tidy _ _).nextFrame
    rw [CallerState.tidy_nextFrame]
    exact kept.leftBelow frame inside
  · show ∀ x ∈ (CallerState.tidy _ _).active :: entered, x < (CallerState.tidy _ _).nextLane
    rw [CallerState.tidy_nextLane, CallerState.tidy_active]
    exact (List.forall_mem_cons.mp activations).2
  · show ((CallerState.tidy _ _).active :: entered).getLast? = _
    rw [CallerState.tidy_active]
    exact (List.getLast?_cons_cons ..).symm.trans bottom

end

end Attribution

end Xript
