import Mathlib.Data.List.Perm.Basic
import Xript.Machine.Runs
import Xript.Sandbox.Interrupts

namespace Xript

namespace Interrupts

variable {budget : SandboxBudget}

/-- The frames of the regions on the call stack and of the calls that wait off it. -/
def owed (s : Interrupts) : List InterruptFrame := (s.stack ++ s.suspended).filterMap Region.frame

/-- What every step keeps: the list of frames has those of the regions that are running or waiting and no others, and
the handler is installed as long as there are any. -/
structure Kept (s : Interrupts) : Prop where
  frames : s.frames.Perm s.owed
  installed : s.installed = true ↔ s.frames ≠ []

theorem Kept.start : start.Kept := ⟨.refl _, by simp [Interrupts.start]⟩

/-- A step that leaves the frames alone and keeps what is owed up to order. -/
theorem Kept.moves {s after : Interrupts} (kept : s.Kept) (frames : after.frames = s.frames)
    (installed : after.installed = s.installed) (owed : s.owed.Perm after.owed) : after.Kept where
  frames := frames ▸ kept.frames.trans owed
  installed := by rw [frames, installed]; exact kept.installed

/-- A frame that is popped, of a region that goes. -/
theorem Kept.pops {s after : Interrupts} {frame : InterruptFrame} (kept : s.Kept)
    (frames : after.frames = (s.popInterrupt (some frame)).frames)
    (installed : after.installed = (s.popInterrupt (some frame)).installed)
    (owed : s.owed.Perm (frame :: after.owed)) : after.Kept where
  frames := by
    rw [frames]
    show ((s.frames.reverse.erase frame).reverse).Perm after.owed
    have reversed : s.frames.reverse.Perm (frame :: after.owed) :=
      (List.reverse_perm s.frames).trans (kept.frames.trans owed)
    have erased := reversed.erase frame
    rw [List.erase_cons_head] at erased
    exact (List.reverse_perm _).trans erased
  installed := by
    have any : s.installed = true := by
      rw [kept.installed]
      intro empty
      have none := (kept.frames.trans owed).length_eq
      rw [empty] at none
      cases none
    rw [installed, frames]
    show (s.installed && (s.frames.reverse.erase frame).reverse.length != 0) = true ↔ _
    simp [any, popInterrupt]

theorem Kept.enter {s : Interrupts} (kept : s.Kept) (call : SandboxCall) : (s.enter budget call).Kept := by
  unfold Interrupts.enter
  split
  · rename_i budgetMs atBudget
    refine ⟨?_, ?_⟩
    · show (s.frames ++ [_]).Perm (_ :: s.owed)
      exact (List.perm_append_comm).trans (kept.frames.cons _)
    · have installed := kept.installed
      cases frames : s.frames <;> simp [pushInterruptFrame, frames] at installed ⊢
      exact installed
  · exact kept.moves rfl rfl (.refl _)

theorem owed_cons (s : Interrupts) (region : Region) (stack : List Region) :
    owed { s with stack := region :: stack } = region.frame.toList ++ owed { s with stack := stack } := by
  unfold owed
  cases atFrame : region.frame <;> simp [atFrame]

/-- A region that ends, its frame popped with it. -/
theorem Kept.leaves {s : Interrupts} (kept : s.Kept) (region : Region) {stack suspended : List Region}
    (owed : s.owed.Perm (region.frame.toList ++ Interrupts.owed { s with stack := stack, suspended := suspended })) :
    ({ s.popInterrupt region.frame with stack := stack, suspended := suspended } : Interrupts).Kept := by
  cases atFrame : region.frame with
  | none =>
    rw [atFrame] at owed
    exact kept.moves rfl rfl owed
  | some frame =>
    rw [atFrame] at owed
    exact kept.pops rfl rfl owed

theorem popInterrupt_moves (s : Interrupts) (frame : Option InterruptFrame) :
    (s.popInterrupt frame).stack = s.stack ∧ (s.popInterrupt frame).suspended = s.suspended := by
  cases frame <;> exact ⟨rfl, rfl⟩

/-- A waiting call taken off the list of those. -/
theorem owed_suspended {s : Interrupts} {region : Region} (empty : s.stack = []) (waits : region ∈ s.suspended) :
    s.owed.Perm (region.frame.toList ++ owed { s with suspended := s.suspended.erase region }) := by
  have split := (List.perm_cons_erase waits).filterMap Region.frame
  unfold owed
  rw [empty]
  cases atFrame : region.frame <;> simpa [atFrame] using split

/-- Every step of the host, of the event loop and of the engine keeps it. -/
theorem Kept.step {s after : Interrupts} {event : InterruptEvent} (kept : s.Kept)
    (taken : s.step budget event = some after) : after.Kept := by
  cases event with
  | tick now =>
    obtain rfl := Option.some.inj taken
    exact kept.moves rfl rfl (.refl _)
  | cancel =>
    obtain rfl := Option.some.inj taken
    exact kept.moves rfl rfl (.refl _)
  | enter call =>
    rw [Interrupts.step] at taken
    split at taken
    · cases taken
    · obtain rfl := Option.some.inj taken
      exact kept.enter call
  | leave =>
    rw [Interrupts.step] at taken
    split at taken
    · cases taken
    · cases taken
    · rename_i region stack notAsync atStack
      obtain rfl := Option.some.inj taken
      have owed : s.owed = region.frame.toList ++ Interrupts.owed { s with stack := stack } := by
        rw [← owed_cons, ← atStack]
      have suspended := (popInterrupt_moves s region.frame).2
      have left := kept.leaves region (.of_eq owed)
      rw [← suspended] at left
      exact left
  | suspend =>
    rw [Interrupts.step] at taken
    split at taken
    · rename_i region stack atStack
      split at taken
      · obtain rfl := Option.some.inj taken
        refine kept.moves rfl rfl ?_
        unfold owed
        rw [atStack]
        exact (List.perm_middle.symm).filterMap Region.frame
      · cases taken
    · cases taken
  | resume region =>
    rw [Interrupts.step] at taken
    split at taken
    · rename_i waits
      obtain rfl := Option.some.inj taken
      refine kept.moves rfl rfl ((owed_suspended waits.1 waits.2).trans (.of_eq ?_))
      rw [waits.1]
      exact (owed_cons { s with suspended := s.suspended.erase region } region []).symm
    · cases taken
  | settle region =>
    rw [Interrupts.step] at taken
    split at taken
    · rename_i waits
      obtain rfl := Option.some.inj taken
      have stack := (popInterrupt_moves s region.frame).1
      have settled := kept.leaves region (owed_suspended waits.1 waits.2)
      rw [← stack] at settled
      exact settled
    · cases taken
  | job resumes =>
    rw [Interrupts.step] at taken
    split at taken
    · rename_i frame before stopped stack atStack
      obtain rfl := Option.some.inj taken
      refine kept.moves rfl rfl (.of_eq ?_)
      rw [owed_cons]
      show s.owed = _
      unfold owed
      rw [atStack]
      cases frame <;> rfl
    · cases taken
  | check =>
    rw [Interrupts.step] at taken
    split at taken
    · rename_i region stack atStack
      split at taken
      · cases taken
      · obtain rfl := Option.some.inj taken
        refine kept.moves rfl rfl (.of_eq ?_)
        rw [owed_cons]
        unfold owed
        rw [atStack]
        cases atFrame : region.frame <;> simp [atFrame]
    · cases taken

/-- Whether a region runs: it is on the host's call stack, or a drain there runs its continuation. -/
def Running (s : Interrupts) (region : Region) : Prop :=
  region ∈ s.stack ∨ region ∈ s.suspended ∧
    ∃ frame, region.frame = some frame ∧ ∃ drain ∈ s.stack, drain.resumes = some frame.id

/-- Whether a region is past its deadline, or its token is tripped. -/
def Past (s : Interrupts) (region : Region) : Prop :=
  ∃ frame, region.frame = some frame ∧ frame.due s.now s.cancelled = true

/-- A region that runs is past its own budget. -/
def OwnPast (s : Interrupts) : Prop := ∃ region, s.Running region ∧ s.Past region

/-- A call that waits, and is not being continued, is past its budget. -/
def Overstays (s : Interrupts) : Prop := ∃ region ∈ s.suspended, ¬s.Running region ∧ s.Past region

theorem Kept.stops_iff {s : Interrupts} (kept : s.Kept) : s.stops = true ↔ s.OwnPast ∨ s.Overstays := by
  have isDue : s.stops = true ↔ ∃ frame ∈ s.frames, frame.due s.now s.cancelled = true := by
    rw [stops, Bool.and_eq_true, due, List.any_eq_true]
    exact ⟨And.right, fun ⟨frame, member, isDue⟩ =>
      ⟨kept.installed.mpr (List.ne_nil_of_mem member), frame, member, isDue⟩⟩
  have isOwed : (∃ frame ∈ s.frames, frame.due s.now s.cancelled = true) ↔
      ∃ region ∈ s.stack ++ s.suspended, s.Past region := by
    constructor
    · rintro ⟨frame, member, isDue⟩
      obtain ⟨region, among, atFrame⟩ := List.mem_filterMap.mp (kept.frames.mem_iff.mp member)
      exact ⟨region, among, frame, atFrame, isDue⟩
    · rintro ⟨region, among, frame, atFrame, isDue⟩
      exact ⟨frame, kept.frames.mem_iff.mpr (List.mem_filterMap.mpr ⟨region, among, atFrame⟩), isDue⟩
  rw [isDue, isOwed]
  constructor
  · rintro ⟨region, among, past⟩
    by_cases running : s.Running region
    · exact .inl ⟨region, running, past⟩
    · rcases List.mem_append.mp among with onStack | waits
      · exact absurd (.inl onStack) running
      · exact .inr ⟨region, waits, running, past⟩
  · rintro (⟨region, onStack | ⟨waits, -⟩, past⟩ | ⟨region, waits, -, past⟩)
    · exact ⟨region, List.mem_append_left _ onStack, past⟩
    · exact ⟨region, List.mem_append_right _ waits, past⟩
    · exact ⟨region, List.mem_append_right _ waits, past⟩

/-- The handler stops script code only by the budgets of the regions that run in exactly the runs where, each time the
engine consults it, a waiting call that nothing continues is past its budget only if a region that runs is as well. -/
theorem stopped_by_own_iff (budget : SandboxBudget) (trace : List (Interrupts × InterruptEvent)) (s : Interrupts)
    (run : Runs (Interrupts.step budget) start trace s) :
    (∀ taken ∈ trace, taken.2 = .check → taken.1.stops = true → taken.1.OwnPast) ↔
      ∀ taken ∈ trace, taken.2 = .check → taken.1.Overstays → taken.1.OwnPast := by
  have kept := run.invariant_before Kept.start fun _ _ _ kept taken => kept.step taken
  constructor
  · intro fair taken member check overstays
    exact fair taken member check ((kept taken member).stops_iff.mpr (.inr overstays))
  · intro own taken member check stops
    rcases (kept taken member).stops_iff.mp stops with past | overstays
    · exact past
    · exact own taken member check overstays

/-- A call stopped past its own deadline, while another waits within its own. -/
theorem stopped_by_own_iff_late :
    ∃ (trace : List (Interrupts × InterruptEvent)) (s : Interrupts),
      Runs (Interrupts.step ⟨some 100, none, false, false⟩) start trace s ∧ s.suspended.length = 1 ∧
        ((∀ taken ∈ trace, taken.2 = .check → taken.1.stops = true → taken.1.OwnPast) ↔
          ∀ taken ∈ trace, taken.2 = .check → taken.1.Overstays → taken.1.OwnPast) := by
  have run : Runs (Interrupts.step ⟨some 100, none, false, false⟩) start _ _ :=
    ((((Runs.start.next (.enter (.invokeExportAsync (some 1000))) rfl).next .suspend rfl).next (.enter .execute) rfl).next
      (.tick 200) rfl).next .check rfl
  exact ⟨_, _, run, rfl, stopped_by_own_iff _ _ _ run⟩

/-- An async call with 10 ms of its own waits past them; a call started then is stopped at its first check, all of its
own budget before it. -/
theorem waiting_call_stops_another :
    ¬∀ (budget : SandboxBudget) (trace : List (Interrupts × InterruptEvent)) (s : Interrupts),
      Runs (Interrupts.step budget) start trace s →
      ∀ taken ∈ trace, taken.2 = .check → taken.1.stops = true → taken.1.OwnPast := by
  intro fair
  have run : Runs (Interrupts.step ⟨some 5000, none, false, false⟩) start _ _ :=
    ((((Runs.start.next (.enter (.invokeExportAsync (some 10))) rfl).next .suspend rfl).next (.tick 20) rfl).next
      (.enter .execute) rfl).next .check rfl
  obtain ⟨region, running, frame, atFrame, isDue⟩ := fair _ _ _ run _ (List.mem_cons_self ..) rfl rfl
  have onStack : region ∈ [(⟨.execute, some ⟨1, 5020, false⟩, none, false⟩ : Region)] := by
    rcases running with onStack | ⟨_, _, _, drain, onStack, resumes⟩
    · exact onStack
    · obtain rfl := List.mem_singleton.mp onStack
      cases resumes
  obtain rfl := List.mem_singleton.mp onStack
  obtain rfl := Option.some.inj atFrame
  cases isDue

end Interrupts

end Xript
