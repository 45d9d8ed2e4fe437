import Xript.Machine.Runs
import Xript.Debug.Controller
import Xript.Debug.Session

namespace Xript

namespace DebugSession

/-- Whether the thread is between the announcement of a stop and the end of its wait. -/
def Stopped (s : DebugSession) : Prop :=
  match s.thread with
  | .announced _ | .asleep | .awake => True
  | .running | .stopping _ _ _ _ => False

/-- What every step keeps: a stop is flagged until a verb that resumes, which then has still to notify a thread that
sleeps. -/
structure Kept (s : DebugSession) : Prop where
  flagged : s.Stopped → (s.state.paused = true ↔ s.answered = false)
  notified : s.thread = .asleep → s.answered = true → 0 < s.notifying

theorem Kept.start (stopOnEntry : Bool) : (DebugSession.start stopOnEntry).Kept :=
  ⟨fun stopped => stopped.elim, fun asleep => nomatch asleep⟩

theorem bind_paused (source : String) (state : DebugState) (breakpoints : List SourceBreakpoint) :
    (DebugState.bind source state breakpoints).2.paused = state.paused := by
  induction breakpoints generalizing state with
  | nil => rfl
  | cons sb rest ih => exact ih _

/-- A state that is in no stop. -/
theorem Kept.going {s : DebugSession} (notStopped : ¬s.Stopped) : s.Kept where
  flagged stopped := absurd stopped notStopped
  notified asleep _ := absurd (by rw [Stopped, asleep]; trivial) notStopped

/-- A step that leaves the flag of a stop as it is. -/
theorem Kept.flags {s : DebugSession} (kept : s.Kept) {state : DebugState} (same : state.paused = s.state.paused) :
    ({ s with state := state } : DebugSession).Kept where
  flagged stopped := by
    show state.paused = true ↔ s.answered = false
    rw [same]
    exact kept.flagged stopped
  notified := kept.notified

theorem Kept.resumeWith (s : DebugSession) (mode : StepMode) : (s.resumeWith mode).Kept where
  flagged _ := ⟨fun paused => (nomatch paused), fun answered => (nomatch answered)⟩
  notified _ _ := Nat.succ_pos s.notifying

theorem Kept.verb {s : DebugSession} (kept : s.Kept) (verb : DebugVerb) : (s.verb verb).Kept := by
  cases verb with
  | setBreakpoints source breakpoints => exact kept.flags (bind_paused source _ breakpoints)
  | clearBreakpoints source => exact kept.flags rfl
  | pause => exact kept.flags rfl
  | «continue» => exact .resumeWith s .none
  | resume => exact .resumeWith s .none
  | stepIn => exact .resumeWith s .in
  | stepOver => exact .resumeWith s .over
  | stepOut => exact .resumeWith s .out

/-- The wait's own reading of the flag, under the lock. -/
theorem Kept.lock {s : DebugSession} (kept : s.Kept) (stopped : s.Stopped) (elapsed : Nat) : (s.lock elapsed).Kept := by
  unfold DebugSession.lock
  split
  · rename_i paused
    have unanswered := (kept.flagged stopped).mp paused
    refine ⟨fun _ => kept.flagged stopped, fun _ answered => ?_⟩
    cases unanswered.symm.trans answered
  · exact .going id

theorem Kept.awaken {s : DebugSession} (kept : s.Kept) (asleep : s.thread = .asleep) (notifying : Nat) :
    ({ s with thread := .awake, notifying := notifying } : DebugSession).Kept where
  flagged _ := kept.flagged (by rw [Stopped, asleep]; trivial)
  notified asleep := nomatch asleep

theorem Kept.notifyAll {s : DebugSession} (kept : s.Kept) : s.notifyAll.Kept := by
  unfold DebugSession.notifyAll
  split
  · rename_i asleep
    exact kept.awaken asleep _
  · rename_i notAsleep
    exact ⟨kept.flagged, fun asleep => absurd asleep notAsleep⟩

/-- Every step of the thread and of the host keeps it. -/
theorem Kept.step {s after : DebugSession} {event : SessionEvent} (kept : s.Kept)
    (taken : s.step event = some after) : after.Kept := by
  obtain ⟨state, thread, notifying, answered⟩ := s
  cases event with
  | checkpoint line column =>
    cases thread with
    | running =>
      simp only [DebugSession.step] at taken
      split at taken
      · obtain rfl := Option.some.inj taken
        exact .going id
      · obtain rfl := Option.some.inj taken
        exact kept
    | stopping | announced | asleep | awake => cases taken
  | enterPause =>
    cases thread with
    | stopping reason hits line column =>
      obtain rfl := Option.some.inj taken
      exact ⟨fun _ => ⟨fun _ => rfl, fun _ => rfl⟩, fun asleep => nomatch asleep⟩
    | running | announced | asleep | awake => cases taken
  | lock elapsed =>
    cases thread with
    | announced event =>
      obtain rfl := Option.some.inj taken
      exact kept.lock trivial elapsed
    | awake =>
      obtain rfl := Option.some.inj taken
      exact kept.lock trivial elapsed
    | running | stopping | asleep => cases taken
  | wake =>
    cases thread with
    | asleep =>
      obtain rfl := Option.some.inj taken
      exact kept.awaken rfl notifying
    | running | stopping | announced | awake => cases taken
  | pushFrame name source line column =>
    cases thread with
    | running =>
      obtain rfl := Option.some.inj taken
      exact kept.flags rfl
    | stopping | announced | asleep | awake => cases taken
  | popFrame =>
    cases thread with
    | running =>
      obtain rfl := Option.some.inj taken
      exact kept.flags rfl
    | stopping | announced | asleep | awake => cases taken
  | verb verb =>
    obtain rfl := Option.some.inj taken
    exact kept.verb verb
  | notifyAll =>
    simp only [DebugSession.step] at taken
    split at taken
    · obtain rfl := Option.some.inj taken
      exact kept.notifyAll
    · cases taken

/-- No resume is lost on this session: a thread that is blocked was not answered since its stop was announced, and the
next lock of one that was lets it go on. -/
structure Heard (s : DebugSession) : Prop where
  blocked : s.Blocked → s.answered = false
  goes : s.answered = true → ∀ elapsed after, s.step (.lock elapsed) = some after → after.thread = .running

theorem Kept.heard {s : DebugSession} (kept : s.Kept) : s.Heard where
  blocked := by
    rintro ⟨asleep, quiet⟩
    by_contra answered
    have notifying := kept.notified asleep (Bool.not_eq_false _ ▸ answered)
    omega
  goes answered elapsed after taken := by
    have going : s.Stopped → (s.lock elapsed).thread = .running := fun stopped => by
      have unflagged : ¬s.state.paused = true := fun paused => by
        cases ((kept.flagged stopped).mp paused).symm.trans answered
      rw [DebugSession.lock, if_neg unflagged]
    rw [DebugSession.step] at taken
    split at taken
    · rename_i event announced
      obtain rfl := Option.some.inj taken
      exact going (by rw [Stopped, announced]; trivial)
    · rename_i awake
      obtain rfl := Option.some.inj taken
      exact going (by rw [Stopped, awake]; trivial)
    · cases taken

theorem heard_of_run {stopOnEntry : Bool} {trace : List (DebugSession × SessionEvent)} {s : DebugSession}
    (run : Runs DebugSession.step (DebugSession.start stopOnEntry) trace s) : s.Heard :=
  (run.invariant (Kept.start stopOnEntry) fun _ _ _ (kept : Kept _) taken => kept.step taken).heard

end DebugSession

namespace DebugController

/-- No resume is lost on this controller: a script that is blocked, here or once its `onStopped` sink returns, was not
answered since its stop was announced, and one that was goes on. -/
structure Heard (c : DebugController) : Prop where
  blocked : c.Blocked → c.answered = false
  goes : c.answered = true → c.script = .awaiting → c.step .proceed = some { c with script := .running }
  returns : ∀ after, c.step .wait = some after → after.Blocked → after.answered = false

/-- A verb that resumes, issued before the stop it answers waits on the gate: from inside its `onStopped` sink. -/
def IssuedInSink (taken : DebugController × ControllerEvent) : Prop :=
  taken.1.script = .announced ∧ ∃ verb, taken.2 = .verb verb ∧ verb.Resumes

theorem heard_iff (c : DebugController) :
    c.Heard ↔ (c.answered = true → c.script ≠ .announced ∧ ¬c.Blocked) := by
  constructor
  · intro heard answered
    constructor
    · intro announced
      have taken : c.step .wait = some c.wait := if_pos announced
      cases (heard.returns c.wait taken ⟨rfl, rfl⟩).symm.trans answered
    · intro blocked
      cases (heard.blocked blocked).symm.trans answered
  · intro hears
    refine ⟨?_, ?_, ?_⟩
    · intro blocked
      exact Bool.eq_false_iff.mpr fun answered => (hears answered).2 blocked
    · intro answered awaiting
      have released : c.resolver = false := Bool.eq_false_iff.mpr fun held => (hears answered).2 ⟨awaiting, held⟩
      rw [DebugController.step, if_pos ⟨awaiting, released⟩]
    · intro after taken _
      rw [DebugController.step] at taken
      split at taken
      · rename_i announced
        obtain rfl := Option.some.inj taken
        exact Bool.eq_false_iff.mpr fun answered => (hears answered).1 announced
      · cases taken

theorem verb_of_resumes {verb : DebugVerb} (resumes : verb.Resumes) (c : DebugController) :
    ∃ core, c.verb verb = release { c with core := core } := by
  cases verb with
  | setBreakpoints | clearBreakpoints | pause => exact absurd rfl resumes
  | «continue» | resume | stepIn | stepOver | stepOut => exact ⟨_, rfl⟩

theorem verb_of_not_resumes {verb : DebugVerb} (goesOn : ¬verb.Resumes) (c : DebugController) :
    ∃ core, c.verb verb = { c with core := core } := by
  cases verb with
  | setBreakpoints | clearBreakpoints | pause => exact ⟨_, rfl⟩
  | «continue» | resume | stepIn | stepOver | stepOut => exact absurd (by simp [DebugVerb.Resumes, DebugVerb.mode]) goesOn

theorem Heard.core {c : DebugController} (heard : c.Heard) (core : DebugCore) :
    ({ c with core := core } : DebugController).Heard :=
  (heard_iff _).mpr ((heard_iff c).mp heard)

/-- A checkpoint of a running script either announces a stop that is not answered yet or lets it run on. -/
theorem checkpoint_cases {c after : DebugController} {line column : Int}
    (taken : c.step (.checkpoint line column) = some after) :
    c.script = .running ∧ (after.answered = false ∨ after.script = .running) := by
  rw [DebugController.step] at taken
  split at taken
  · rename_i running
    refine ⟨running, ?_⟩
    unfold DebugController.shouldStop at taken
    cases stops : c.core.shouldStop line with
    | mk reason core =>
      rw [stops] at taken
      cases reason with
      | some reason =>
        obtain rfl := Option.some.inj taken
        exact .inl rfl
      | none =>
        obtain rfl := Option.some.inj taken
        exact .inr running
  · cases taken

/-- From a state that hears, a step leads to one exactly if it is no verb that resumes from inside the sink. -/
theorem heard_step {c after : DebugController} {event : ControllerEvent} (heard : c.Heard)
    (taken : c.step event = some after) : after.Heard ↔ ¬IssuedInSink (c, event) := by
  have hears := (heard_iff c).mp heard
  have noVerb (other : ∀ verb, event ≠ .verb verb) (holds : after.Heard) :
      after.Heard ↔ ¬IssuedInSink (c, event) :=
    ⟨fun _ ⟨_, verb, same, _⟩ => other verb same, fun _ => holds⟩
  cases event with
  | checkpoint line column =>
    refine noVerb (fun _ same => nomatch same) ((heard_iff after).mpr fun answered => ?_)
    rcases (checkpoint_cases taken).2 with unanswered | running
    · cases unanswered.symm.trans answered
    · rw [Blocked, running]
      exact ⟨fun announced => (nomatch announced), fun blocked => (nomatch blocked.1)⟩
  | wait =>
    refine noVerb (fun _ same => nomatch same) ((heard_iff after).mpr fun answered => ?_)
    rw [DebugController.step] at taken
    split at taken
    · rename_i announced
      obtain rfl := Option.some.inj taken
      exact absurd announced (hears answered).1
    · cases taken
  | proceed =>
    refine noVerb (fun _ same => nomatch same) ((heard_iff after).mpr fun _ => ?_)
    rw [DebugController.step] at taken
    split at taken
    · obtain rfl := Option.some.inj taken
      exact ⟨fun announced => (nomatch announced), fun blocked => (nomatch blocked.1)⟩
    · cases taken
  | setBreakableLines source lines =>
    obtain rfl := Option.some.inj taken
    exact noVerb (fun _ same => nomatch same) (heard.core _)
  | verb verb =>
    obtain rfl := Option.some.inj taken
    by_cases resumes : verb.Resumes
    · obtain ⟨core, same⟩ := verb_of_resumes resumes c
      rw [same, heard_iff]
      constructor
      · rintro hears ⟨announced, -⟩
        exact (hears rfl).1 announced
      · intro outside _
        exact ⟨fun announced => outside ⟨announced, verb, rfl, resumes⟩, fun blocked => (nomatch blocked.2)⟩
    · obtain ⟨core, same⟩ := verb_of_not_resumes resumes c
      rw [same]
      constructor
      · rintro - ⟨-, other, equal, resumesOther⟩
        obtain rfl := ControllerEvent.verb.inj equal
        exact resumes resumesOther
      · exact fun _ => heard.core core

end DebugController

/-- No resume is ever lost on the Rust session, and on the JavaScript controller in exactly the runs whose every verb
that resumes comes outside the `onStopped` sink: the gate of a stop is made only once its sink has returned. -/
theorem resumes_heard_iff (stopOnEntry : Bool) :
    (∀ trace s, Runs DebugSession.step (DebugSession.start stopOnEntry) trace s → s.Heard) ∧
    ∀ trace c, Runs DebugController.step DebugController.start trace c →
      ((c.Heard ∧ ∀ taken ∈ trace, taken.1.Heard) ↔ ∀ taken ∈ trace, ¬DebugController.IssuedInSink taken) := by
  constructor
  · intro _ _ run
    exact DebugSession.heard_of_run run
  · intro trace c run
    have initially : DebugController.start.Heard :=
      (DebugController.heard_iff _).mpr fun answered => nomatch answered
    exact run.always_iff (I := fun _ => True) trivial initially (fun _ _ _ _ _ => trivial)
      fun _ _ _ _ heard taken => DebugController.heard_step heard taken

/-- A script that is paused, waits on the gate and is continued there. -/
theorem resumes_heard_iff_pause :
    ∃ (trace : List (DebugController × ControllerEvent)) (c : DebugController),
      c.answered = true ∧ c.script = .running ∧
        ((c.Heard ∧ ∀ taken ∈ trace, taken.1.Heard) ↔ ∀ taken ∈ trace, ¬DebugController.IssuedInSink taken) := by
  have run : Runs DebugController.step DebugController.start _ _ :=
    ((((Runs.start.next (.verb .pause) rfl).next (.checkpoint 1 1) rfl).next .wait rfl).next (.verb .continue) rfl).next
      .proceed rfl
  exact ⟨_, _, rfl, rfl, (resumes_heard_iff false).2 _ _ run⟩

/-- A script that is paused and continued from inside the `onStopped` sink waits on a gate this verb does not open. -/
theorem continue_in_sink_lost :
    ¬∀ (trace : List (DebugController × ControllerEvent)) (c : DebugController),
      Runs DebugController.step DebugController.start trace c → c.Blocked → c.answered = false := by
  intro heard
  have run : Runs DebugController.step DebugController.start _ _ :=
    (((Runs.start.next (.verb .pause) rfl).next (.checkpoint 1 1) rfl).next (.verb .continue) rfl).next .wait rfl
  cases heard _ _ run ⟨rfl, rfl⟩

end Xript
