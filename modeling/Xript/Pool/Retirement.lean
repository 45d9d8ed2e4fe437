import Xript.Machine.Runs

namespace Xript

inductive WorkerState where
  | idle
  | running
  | unhealthy
  | retired
  deriving DecidableEq

def WorkerState.routable : WorkerState → Bool
  | .idle | .running => true
  | _ => false

/-- What the supervisor makes of a worker's health: no call in flight, one that is not wedged, or one that is. -/
inductive Verdict where
  | free
  | busy
  | wedged

def Verdict.state : Verdict → WorkerState
  | .free => .idle
  | .busy => .running
  | .wedged => .unhealthy

/-- Where the supervisor is in its round over the workers. -/
inductive Supervising where
  | sleeping
  | sampling (workers : List Nat)
  | sampled (worker : Nat) (workers : List Nat)
  | writing (worker : Nat) (verdict : Verdict) (workers : List Nat)

/-- The states of a pool's workers, and its supervisor. -/
structure Supervised where
  states : List WorkerState
  supervising : Supervising

inductive SupervisedEvent where
  /-- The supervisor wakes up and takes the workers there are. -/
  | round
  /-- It reads the state of the next worker, and leaves it alone if it is retired. -/
  | read
  /-- It reads the worker's health and then its state again, and leaves it alone if it is unhealthy. -/
  | judge (verdict : Verdict)
  /-- It writes the state. -/
  | write
  /-- `retire_worker` on a thread of the host. -/
  | retire (worker : Nat)
  /-- A replacement joins the pool. -/
  | join

namespace Supervised

def start (workers : Nat) : Supervised := ⟨List.replicate workers .idle, .sleeping⟩

def step (s : Supervised) : SupervisedEvent → Option Supervised
  | .round =>
    match s.supervising with
    | .sleeping | .sampling [] => some { s with supervising := .sampling (List.range s.states.length) }
    | _ => none
  | .read =>
    match s.supervising with
    | .sampling (worker :: workers) =>
      if s.states[worker]? = some .retired then some { s with supervising := .sampling workers }
      else some { s with supervising := .sampled worker workers }
    | _ => none
  | .judge verdict =>
    match s.supervising with
    | .sampled worker workers =>
      if s.states[worker]? = some .unhealthy then some { s with supervising := .sampling workers }
      else some { s with supervising := .writing worker verdict workers }
    | _ => none
  | .write =>
    match s.supervising with
    | .writing worker verdict workers =>
      some { s with states := s.states.set worker verdict.state, supervising := .sampling workers }
    | _ => none
  | .retire worker => some { s with states := s.states.set worker .retired }
  | .join => some { s with states := s.states ++ [.idle] }

/-- The supervisor has seen that a worker is not retired, and is not done with it. -/
def Examines (s : Supervised) (worker : Nat) : Prop :=
  (∃ workers, s.supervising = .sampled worker workers) ∨ ∃ verdict workers, s.supervising = .writing worker verdict workers

/-- A worker is retired, and the supervisor is not about to write its state. -/
structure Gone (s : Supervised) (worker : Nat) : Prop where
  retired : s.states[worker]? = some .retired
  left : ¬ s.Examines worker

variable {s t : Supervised} {worker : Nat}

theorem not_examined_sampling {states : List WorkerState} {workers : List Nat} :
    ¬ Examines ⟨states, .sampling workers⟩ worker := by
  rintro (⟨_, none⟩ | ⟨_, _, none⟩) <;> cases none

theorem set_retired {states : List WorkerState} {other : Nat} (retired : states[worker]? = some .retired)
    {state : WorkerState} (apart : other ≠ worker ∨ state = .retired) :
    (states.set other state)[worker]? = some .retired := by
  by_cases same : other = worker
  · obtain rfl := apart.resolve_left (not_not_intro same)
    rw [same, List.getElem?_set_self (List.getElem?_eq_some_iff.mp retired).1]
  · rw [List.getElem?_set_ne same, retired]

/-- Nothing brings such a worker back. -/
theorem Gone.step (gone : s.Gone worker) {event : SupervisedEvent} (taken : s.step event = some t) : t.Gone worker := by
  obtain ⟨states, supervising⟩ := s
  obtain ⟨retired, left⟩ := gone
  cases event with
  | round =>
    cases supervising with
    | sleeping =>
      obtain rfl := Option.some.inj taken
      exact ⟨retired, not_examined_sampling⟩
    | sampling workers =>
      cases workers with
      | nil =>
        obtain rfl := Option.some.inj taken
        exact ⟨retired, not_examined_sampling⟩
      | cons _ _ => cases taken
    | sampled _ _ | writing _ _ _ => cases taken
  | read =>
    rw [Supervised.step] at taken
    split at taken
    · rename_i other workers _
      split at taken
      · obtain rfl := Option.some.inj taken
        exact ⟨retired, not_examined_sampling⟩
      · rename_i serving
        obtain rfl := Option.some.inj taken
        refine ⟨retired, ?_⟩
        rintro (⟨_, is⟩ | ⟨_, _, none⟩)
        · obtain ⟨rfl, -⟩ := Supervising.sampled.inj is
          exact serving retired
        · cases none
    · cases taken
  | judge verdict =>
    rw [Supervised.step] at taken
    split at taken
    · rename_i other workers sampled
      split at taken
      · obtain rfl := Option.some.inj taken
        exact ⟨retired, not_examined_sampling⟩
      · obtain rfl := Option.some.inj taken
        refine ⟨retired, ?_⟩
        rintro (⟨_, none⟩ | ⟨_, _, is⟩)
        · cases none
        · obtain ⟨rfl, -⟩ := Supervising.writing.inj is
          exact left (Or.inl ⟨workers, sampled⟩)
    · cases taken
  | write =>
    rw [Supervised.step] at taken
    split at taken
    · rename_i other verdict workers writing
      obtain rfl := Option.some.inj taken
      refine ⟨set_retired retired (Or.inl ?_), not_examined_sampling⟩
      rintro rfl
      exact left (Or.inr ⟨verdict, workers, writing⟩)
    · cases taken
  | retire other =>
    obtain rfl := Option.some.inj taken
    exact ⟨set_retired retired (Or.inr rfl), left⟩
  | join =>
    obtain rfl := Option.some.inj taken
    refine ⟨?_, left⟩
    show (states ++ [.idle])[worker]? = _
    rw [List.getElem?_append_left (List.getElem?_eq_some_iff.mp retired).1, retired]

/-- A worker retired under the supervisor's eyes is written over when the supervisor goes on. -/
theorem examined_revives (retired : s.states[worker]? = some .retired) (examined : s.Examines worker) :
    ∃ trace t, Runs step s trace t ∧ t.states[worker]? ≠ some .retired := by
  have bound := (List.getElem?_eq_some_iff.mp retired).1
  have writes : ∀ {u : Supervised} {verdict workers}, u.supervising = .writing worker verdict workers →
      worker < u.states.length → ∃ t, u.step .write = some t ∧ t.states[worker]? ≠ some .retired := by
    intro u verdict workers writing bound
    refine ⟨⟨u.states.set worker verdict.state, .sampling workers⟩, by rw [Supervised.step, writing], ?_⟩
    show (u.states.set worker verdict.state)[worker]? ≠ _
    rw [List.getElem?_set_self bound]
    cases verdict <;> nofun
  rcases examined with ⟨workers, sampled⟩ | ⟨verdict, workers, writing⟩
  · have judged : s.step (.judge .free) = some { s with supervising := .writing worker .free workers } := by
      rw [Supervised.step, sampled]
      exact if_neg (by rw [retired]; nofun)
    obtain ⟨t, written, revived⟩ := writes (u := { s with supervising := .writing worker .free workers }) rfl bound
    exact ⟨_, t, (Runs.start.next _ judged).next _ written, revived⟩
  · obtain ⟨t, written, revived⟩ := writes writing bound
    exact ⟨_, t, Runs.start.next _ written, revived⟩

/-- In every run, a worker that `retire_worker` retires stays retired in every later state exactly where the supervisor
was not between its look at whether that worker is retired and what it writes of it. -/
theorem retirement_final_iff (workers : Nat) (trace : List (Supervised × SupervisedEvent)) (s : Supervised) :
    Runs step (start workers) trace s → ∀ worker < s.states.length, ∀ t, s.step (.retire worker) = some t →
      ((∀ later u, Runs step t later u → u.states[worker]? = some .retired) ↔ ¬ s.Examines worker) := by
  intro _ worker member t taken
  obtain rfl := Option.some.inj taken
  have retired : (s.states.set worker .retired)[worker]? = some .retired := List.getElem?_set_self member
  constructor
  · intro final examined
    obtain ⟨later, u, run, revived⟩ := examined_revives (s := ⟨s.states.set worker .retired, s.supervising⟩) retired examined
    exact revived (final later u run)
  · intro left later u run
    have gone : Gone ⟨s.states.set worker .retired, s.supervising⟩ worker := ⟨retired, left⟩
    have kept := run.invariant (I := (Gone · worker)) gone fun _ _ _ gone taken => gone.step taken
    exact kept.retired

/-- A worker retired while the supervisor sleeps. -/
theorem retirement_final_asleep : ¬ (start 1).Examines 0 ∧
    ∀ later u, Runs step ⟨[.retired], .sleeping⟩ later u → u.states[0]? = some .retired :=
  have left : ¬ (start 1).Examines 0 := by rintro (⟨_, none⟩ | ⟨_, _, none⟩) <;> cases none
  ⟨left, (retirement_final_iff 1 [] (start 1) .start 0 (by decide) _ rfl).mpr left⟩

/-- A worker retired right after the supervisor found it in use is reported idle again. -/
theorem retired_reported_idle : ¬ ∀ (trace : List (Supervised × SupervisedEvent)) (s t u : Supervised)
    (later : List (Supervised × SupervisedEvent)) (worker : Nat), Runs step (start 1) trace s →
    worker < s.states.length → s.step (.retire worker) = some t → Runs step t later u →
    u.states[worker]? = some .retired := by
  intro final
  have sampled : Runs step (start 1) _ _ := (Runs.start.next .round rfl).next .read rfl
  have idle : Runs step ⟨[.retired], .sampled 0 []⟩ _ _ := (Runs.start.next (.judge .free) rfl).next .write rfl
  cases final _ _ _ _ _ 0 sampled (by decide) rfl idle

end Supervised

end Xript
