namespace Xript

section

variable {S E : Type} (step : S → E → Option S)

/-- The runs of a machine: the steps taken, latest first, each with the state it was taken in. -/
inductive Runs (start : S) : List (S × E) → S → Prop
  | start : Runs start [] start
  | next {trace : List (S × E)} {before after : S} (run : Runs start trace before) (event : E)
      (taken : step before event = some after) : Runs start ((before, event) :: trace) after

variable {step} {start state : S} {trace : List (S × E)}

/-- What holds at the start and is kept by every step holds in every state of a run. -/
theorem Runs.invariant {I : S → Prop} (initially : I start)
    (keeps : ∀ before event after, I before → step before event = some after → I after)
    (run : Runs step start trace state) : I state := by
  induction run with
  | start => exact initially
  | next _ _ taken ih => exact keeps _ _ _ ih taken

/-- It then also held before every step of the run. -/
theorem Runs.invariant_before {I : S → Prop} (initially : I start)
    (keeps : ∀ before event after, I before → step before event = some after → I after)
    (run : Runs step start trace state) : ∀ taken ∈ trace, I taken.1 := by
  induction run with
  | start => exact fun _ none => nomatch none
  | next run _ _ ih => exact List.forall_mem_cons.mpr ⟨run.invariant initially keeps, ih⟩

/-- A run may begin with one more step. -/
theorem Runs.after {first : S} {event : E} (taken : step first event = some start) (run : Runs step start trace state) :
    ∃ whole, Runs step first whole state := by
  induction run with
  | start => exact ⟨_, .next .start event taken⟩
  | next _ event taken ih =>
    obtain ⟨whole, run⟩ := ih
    exact ⟨_, run.next event taken⟩

theorem Runs.append {later : List (S × E)} {last : S} (run : Runs step start trace state)
    (further : Runs step state later last) : Runs step start (later ++ trace) last := by
  induction further with
  | start => exact run
  | next _ event taken ih => exact ih.next event taken

/-- A run goes on from where each of its steps was taken. -/
theorem Runs.split {later earlier : List (S × E)} {before : S} {event : E}
    (run : Runs step start (later ++ (before, event) :: earlier) state) :
    ∃ after, Runs step start earlier before ∧ step before event = some after ∧ Runs step after later state := by
  induction later generalizing state with
  | nil =>
    cases run with
    | next run _ taken => exact ⟨state, run, taken, .start⟩
  | cons last later ih =>
    cases run with
    | next run event taken =>
      obtain ⟨after, earlier, there, later⟩ := ih run
      exact ⟨after, earlier, there, .next later event taken⟩

/-- What a step keeps exactly unless it is of a kind holds exactly after the runs without steps of that kind. -/
theorem Runs.holds_iff {I Q : S → Prop} {bad : S × E → Prop} (initially : I start) (holds : Q start)
    (keeps : ∀ before event after, I before → step before event = some after → I after)
    (exact' : ∀ before event after, I before → step before event = some after →
      (Q after ↔ Q before ∧ ¬bad (before, event)))
    (run : Runs step start trace state) : Q state ↔ ∀ taken ∈ trace, ¬bad taken := by
  induction run with
  | start => exact ⟨fun _ _ none => (nomatch none), fun _ => holds⟩
  | next run _ taken ih =>
    rw [exact' _ _ _ (run.invariant initially keeps) taken, ih, List.forall_mem_cons, and_comm]

/-- What every step keeps unless it is of a kind, and no step of that kind does, holds in every state of exactly the
runs without steps of that kind. -/
theorem Runs.always_iff {I Q : S → Prop} {bad : S × E → Prop} (initially : I start) (holds : Q start)
    (keeps : ∀ before event after, I before → step before event = some after → I after)
    (exact' : ∀ before event after, I before → Q before → step before event = some after →
      (Q after ↔ ¬bad (before, event)))
    (run : Runs step start trace state) :
    (Q state ∧ ∀ taken ∈ trace, Q taken.1) ↔ ∀ taken ∈ trace, ¬bad taken := by
  induction run with
  | start => exact ⟨fun _ _ none => (nomatch none), fun _ => ⟨holds, fun _ none => (nomatch none)⟩⟩
  | @next trace before after run event taken ih =>
    have inside := run.invariant initially keeps
    rw [List.forall_mem_cons, List.forall_mem_cons, ← ih]
    constructor
    · rintro ⟨holdsAfter, holdsBefore, earlier⟩
      exact ⟨(exact' before event after inside holdsBefore taken).mp holdsAfter, holdsBefore, earlier⟩
    · rintro ⟨good, holdsBefore, earlier⟩
      exact ⟨(exact' before event after inside holdsBefore taken).mpr good, holdsBefore, earlier⟩

end

section

variable {S E R : Type} {step : S → E → Option S} {start : S} {completed : S → List R} {result : R}

/-- Every run of a machine is finite, completes once at most and then with the one result, and has completed where it can
go no further. -/
def Settles (step : S → E → Option S) (start : S) (completed : S → List R) (result : R) : Prop :=
  ∃ bound, ∀ trace s, Runs step start trace s →
    trace.length ≤ bound ∧ (completed s = [] ∨ completed s = [result]) ∧
      ((∀ event, step s event = none) → completed s = [result])

/-- A machine settles if every step keeps an invariant and does some of the work there is, and it can go on as long as it
has not completed. -/
theorem Settles.of_invariant {I : S → Prop} (work : S → Nat) (initially : I start)
    (keeps : ∀ before event after, I before → step before event = some after → I after ∧ work after < work before)
    (once : ∀ s, I s → completed s = [] ∨ completed s = [result])
    (goesOn : ∀ s, I s → completed s = [] → ∃ event, step s event ≠ none) : Settles step start completed result := by
  refine ⟨work start, fun trace s run => ?_⟩
  have inside : I s ∧ trace.length + work s ≤ work start := by
    induction run with
    | start => exact ⟨initially, by simp⟩
    | next run event taken ih =>
      obtain ⟨kept, less⟩ := keeps _ _ _ ih.1 taken
      refine ⟨kept, ?_⟩
      have before := ih.2
      rw [List.length_cons]
      omega
  refine ⟨Nat.le_trans (Nat.le_add_right ..) inside.2, once s inside.1, fun stuck => ?_⟩
  refine (once s inside.1).resolve_left fun none => ?_
  obtain ⟨event, goes⟩ := goesOn s inside.1 none
  exact goes (stuck event)

end

end Xript
