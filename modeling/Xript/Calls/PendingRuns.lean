import Xript.Calls.Pending

namespace Xript

variable {T W C : Type}

/-- A trip the host asked for: `cancel()`, or the drop of a `Pending` that no method consumed and whose result had
not arrived. -/
def Trip.Asked : Trip → Prop
  | .cancelled => True
  | .dropped consumed state => consumed = none ∧ state = .empty

/-- What `Pending` promises in a state: the result is handed over at most once, a callback registered in time got it
once the call is over, and the token was tripped only where the host asked for it. -/
structure CallState.Safe (s : CallState T W C) : Prop where
  once : s.handed.length ≤ 1
  callback : ∀ f, s.registered = some f → s.completer = .finished →
    ∃ value, s.produced = some value ∧ s.handed = [(.callback f, value)]
  asked : ∀ trip ∈ s.trips, trip.Asked
  token : s.token = true ↔ s.trips ≠ []

/-- The drop policy of a `Pending` by where it is. -/
def PendingPhase.policy : PendingPhase W → Option DropPolicy
  | .leaving .onComplete | .leaving .detach => some .detach
  | .gone => none
  | _ => some .cancel

/-- What every step keeps. -/
structure CallState.Kept (s : CallState T W C) : Prop where
  working : s.completer = .working ↔ s.slot.state = .empty
  empty : s.slot.state = .empty → s.handed = []
  ready : s.slot.state = .ready → s.handed = [] ∧ ∃ value, s.slot.value = some value ∧ s.produced = some value
  taken : s.slot.state = .taken → ∃ receiver value, s.handed = [(receiver, value)] ∧ s.produced = some value
  waits : ∀ f, s.slot.onComplete = some f →
    (s.slot.state = .empty ∧ s.registered = some f) ∨ s.slot.state = .taken
  published : ∀ f waker, s.completer = .published (some f) waker → s.registered = some f ∧ s.slot.state = .ready
  registered : ∀ f, s.registered = some f → (s.slot.onComplete = some f ∧ s.slot.state = .empty) ∨
    (∃ waker, s.completer = .published (some f) waker) ∨ ∃ value, s.handed = [(.callback f, value)]
  consumed : s.registered ≠ none → s.pending = .leaving .onComplete ∨ s.pending = .gone
  policy : ∀ policy, s.pending.policy = some policy → s.onDrop = policy
  waited : s.pending = .leaving (.wait false) → s.slot.state = .taken
  token : s.token = true ↔ s.trips ≠ []

namespace CallState

theorem Kept.start : (start : CallState T W C).Kept := by
  constructor <;> simp [CallState.start, PendingPhase.policy]

theorem take_eq_some {s t : CallState T W C} {receiver : Receiver C} (taken : s.take receiver = some t) :
    ∃ value, s.slot.state = .ready ∧ s.slot.value = some value ∧
      t = { s with slot := { s.slot with state := .taken, value := none }, handed := s.handed ++ [(receiver, value)] } := by
  unfold take at taken
  split at taken
  · rename_i value isReady atValue
    exact ⟨value, isReady, atValue, (Option.some.inj taken).symm⟩
  · cases taken

theorem take_of_not_ready {s : CallState T W C} (notReady : s.slot.state ≠ .ready) (receiver : Receiver C) :
    s.take receiver = none := by
  unfold take
  split
  · exact absurd ‹_› notReady
  · rfl

theorem take_of_ready {s : CallState T W C} {value : CallResult T} (ready : s.slot.state = .ready)
    (atValue : s.slot.value = some value) (receiver : Receiver C) :
    s.take receiver = some { s with
      slot := { s.slot with state := .taken, value := none }, handed := s.handed ++ [(receiver, value)] } := by
  unfold take
  rw [ready, atValue]

/-- As long as the host holds its `Pending`, or waits on it, no callback is registered. -/
theorem Kept.unregistered {s : CallState T W C} (kept : s.Kept) (own : s.pending.policy = some .cancel) :
    s.registered = none := by
  by_contra some
  rcases kept.consumed some with leaving | gone
  · rw [leaving] at own
    cases own
  · rw [gone] at own
    cases own

/-- A step that only moves the `Pending`, and leaves it to be cancelled by its drop. -/
theorem Kept.move {s : CallState T W C} (kept : s.Kept) (own : s.pending.policy = some .cancel) {phase : PendingPhase W}
    (owns : phase.policy = some .cancel) (waited : phase = .leaving (.wait false) → s.slot.state = .taken) :
    ({ s with pending := phase } : CallState T W C).Kept :=
  { kept with
    consumed := fun some => absurd (kept.unregistered own) some
    policy := fun policy same => by
      rw [owns] at same
      exact Option.some.inj same ▸ kept.policy _ own
    waited := waited }

/-- A result taken by a consumer that has registered no callback. -/
theorem Kept.take {s t : CallState T W C} (kept : s.Kept) {receiver : Receiver C} (taken : s.take receiver = some t)
    (own : s.pending.policy = some .cancel) : t.Kept := by
  have unregistered := kept.unregistered own
  obtain ⟨value, ready, atValue, rfl⟩ := take_eq_some taken
  obtain ⟨unhanded, other, same, produced⟩ := kept.ready ready
  have equal : value = other := Option.some.inj (atValue.symm.trans same)
  subst equal
  refine { kept with
    working := ?_, empty := ?_, ready := ?_, taken := ?_, waits := ?_, published := ?_, registered := ?_, waited := ?_ }
  · have notWorking : s.completer ≠ .working := fun working => by
      rw [kept.working.mp working] at ready
      cases ready
    exact ⟨fun working => absurd working notWorking, fun empty => (nomatch empty)⟩
  · exact fun empty => nomatch empty
  · exact fun ready => nomatch ready
  · exact fun _ => ⟨receiver, value, by rw [unhanded]; rfl, produced⟩
  · exact fun _ _ => Or.inr rfl
  · intro f waker published
    rw [(kept.published f waker published).1] at unregistered
    cases unregistered
  · intro f registered
    rw [unregistered] at registered
    cases registered
  · exact fun _ => rfl

theorem Kept.publish {s : CallState T W C} (kept : s.Kept) (working : s.completer = .working) (value : CallResult T) :
    (s.publish value).Kept := by
  have empty := kept.working.mp working
  have unhanded := kept.empty empty
  refine { kept with
    working := ?_, empty := ?_, ready := ?_, taken := ?_, waits := ?_, published := ?_, registered := ?_, waited := ?_ }
  · exact ⟨fun working => (nomatch working), fun empty => (nomatch empty)⟩
  · exact fun empty => nomatch empty
  · exact fun _ => ⟨unhanded, value, rfl, rfl⟩
  · exact fun taken => nomatch taken
  · exact fun _ waits => nomatch waits
  · intro f waker published
    have took : s.slot.onComplete = some f := (CompleterPhase.published.inj published).1
    rcases kept.waits f took with ⟨-, registered⟩ | taken
    · exact ⟨registered, rfl⟩
    · rw [empty] at taken
      cases taken
  · intro f registered
    rcases kept.registered f registered with ⟨waits, -⟩ | ⟨waker, published⟩ | ⟨value, handed⟩
    · exact Or.inr (Or.inl ⟨s.slot.waker, by rw [CallState.publish, waits]⟩)
    · rw [working] at published
      cases published
    · rw [unhanded] at handed
      cases handed
  · intro waited
    rw [kept.waited waited] at empty
    cases empty

/-- The callback a completer took on publishing finds the result still there. -/
theorem Kept.take_callback {s : CallState T W C} (kept : s.Kept) {f : C} {waker : Option W}
    (published : s.completer = .published (some f) waker) :
    ∃ t, s.take (.callback f) = some t ∧ ({ t with completer := .finished } : CallState T W C).Kept := by
  obtain ⟨registered, ready⟩ := kept.published f waker published
  obtain ⟨unhanded, value, atValue, produced⟩ := kept.ready ready
  refine ⟨{ s with
    slot := { s.slot with state := .taken, value := none }, handed := s.handed ++ [(.callback f, value)] }, ?_, ?_⟩
  · exact take_of_ready ready atValue _
  · refine { kept with
      working := ?_, empty := ?_, ready := ?_, taken := ?_, waits := ?_, published := ?_, registered := ?_, waited := ?_ }
    · exact ⟨fun working => (nomatch working), fun empty => (nomatch empty)⟩
    · exact fun empty => nomatch empty
    · exact fun ready => nomatch ready
    · exact fun _ => ⟨.callback f, value, by rw [unhanded]; rfl, produced⟩
    · exact fun _ _ => Or.inr rfl
    · exact fun _ _ published => nomatch published
    · intro g other
      obtain rfl : f = g := Option.some.inj (registered.symm.trans other)
      exact Or.inr (Or.inr ⟨value, by rw [unhanded]; rfl⟩)
    · exact fun _ => rfl

theorem Kept.finish {s : CallState T W C} (kept : s.Kept) {waker : Option W} (published : s.completer = .published none waker) :
    ({ s with completer := .finished } : CallState T W C).Kept := by
  have notEmpty : s.slot.state ≠ .empty := fun empty => by
    rw [kept.working.mpr empty] at published
    cases published
  refine { kept with working := ?_, published := ?_, registered := ?_ }
  · exact ⟨fun working => (nomatch working), fun empty => absurd empty notEmpty⟩
  · exact fun _ _ published => nomatch published
  · intro f registered
    rcases kept.registered f registered with waits | ⟨other, taken⟩ | handed
    · exact absurd waits.2 notEmpty
    · rw [published] at taken
      cases taken
    · exact Or.inr (Or.inr handed)

/-- Registering a callback, or handing it a result that is already there. -/
theorem Kept.onComplete {s after : CallState T W C} (kept : s.Kept) (held : s.pending = .held) {f : C}
    (taken : s.step (.onComplete f) = some after) : after.Kept := by
  have unregistered : s.registered = none := kept.unregistered (by rw [held]; rfl)
  rw [CallState.step, held] at taken
  obtain rfl := Option.some.inj taken
  have states : s.slot.state = .empty ∨ s.slot.state = .ready ∨ s.slot.state = .taken := by
    cases s.slot.state <;> simp
  rcases states with state | state | state
  · have notReady : (s.leaveWith f).slot.state ≠ .ready := fun ready => by cases state.symm.trans ready
    have notTaken : s.slot.state ≠ .taken := fun taken => by cases state.symm.trans taken
    rw [take_of_not_ready notReady, Option.getD_none, leaveWith, if_neg notTaken]
    have working := kept.working.mpr state
    refine { kept with
      ready := ?_, taken := ?_, waits := ?_, published := ?_, registered := ?_, consumed := ?_, policy := ?_,
      waited := ?_ }
    · exact fun ready => absurd ready notReady
    · exact fun taken => absurd taken notTaken
    · exact fun g waits => Or.inl ⟨state, waits⟩
    · intro g waker published
      rw [working] at published
      cases published
    · exact fun g registered => Or.inl ⟨registered, state⟩
    · exact fun _ => Or.inl rfl
    · exact fun policy same => Option.some.inj same
    · exact fun waited => nomatch waited
  · obtain ⟨unhanded, value, atValue, produced⟩ := kept.ready state
    have notTaken : s.slot.state ≠ .taken := fun taken => by cases state.symm.trans taken
    have notEmpty : s.slot.state ≠ .empty := fun empty => by cases state.symm.trans empty
    rw [take_of_ready (s := s.leaveWith f) state atValue, Option.getD_some, leaveWith, if_neg notTaken]
    refine { kept with
      working := ?_, empty := ?_, ready := ?_, taken := ?_, waits := ?_, published := ?_, registered := ?_,
      consumed := ?_, policy := ?_, waited := ?_ }
    · exact ⟨fun working => absurd (kept.working.mp working) notEmpty, fun empty => (nomatch empty)⟩
    · exact fun empty => nomatch empty
    · exact fun ready => nomatch ready
    · exact fun _ => ⟨.callback f, value, by simp [unhanded], produced⟩
    · exact fun _ _ => Or.inr rfl
    · intro g waker published
      rw [(kept.published g waker published).1] at unregistered
      cases unregistered
    · intro g registered
      obtain rfl : f = g := Option.some.inj registered
      exact Or.inr (Or.inr ⟨value, by simp [unhanded]⟩)
    · exact fun _ => Or.inl rfl
    · exact fun policy same => Option.some.inj same
    · exact fun waited => nomatch waited
  · have notReady : (s.leaveWith f).slot.state ≠ .ready := fun ready => by cases state.symm.trans ready
    have notEmpty : s.slot.state ≠ .empty := fun empty => by cases state.symm.trans empty
    rw [take_of_not_ready notReady, Option.getD_none, leaveWith, if_pos state]
    refine { kept with
      empty := ?_, ready := ?_, waits := ?_, registered := ?_, consumed := ?_, policy := ?_, waited := ?_ }
    · exact fun empty => absurd empty notEmpty
    · exact fun ready => absurd ready notReady
    · exact fun _ _ => Or.inr state
    · intro g registered
      rw [unregistered] at registered
      cases registered
    · exact fun _ => Or.inl rfl
    · exact fun policy same => Option.some.inj same
    · exact fun waited => nomatch waited

theorem Kept.drop {s : CallState T W C} (kept : s.Kept) (consumed : Option Consumption) : (s.dropPending consumed).Kept := by
  unfold CallState.dropPending
  have gone : ({ s with pending := .gone } : CallState T W C).Kept :=
    { kept with
      consumed := fun _ => Or.inr rfl
      policy := fun policy same => nomatch same
      waited := fun waited => nomatch waited }
  simp only
  split
  · exact { gone with token := by simp }
  · exact gone

theorem Kept.waker {s : CallState T W C} (kept : s.Kept) (waker : W) :
    ({ s with slot := { s.slot with waker := some waker } } : CallState T W C).Kept :=
  { kept with }

/-- Every step keeps what is kept. -/
theorem Kept.step {s after : CallState T W C} {event : CallEvent T W C} (kept : s.Kept)
    (taken : s.step event = some after) : after.Kept := by
  cases event with
  | complete value =>
    rw [CallState.step] at taken
    split at taken
    · obtain rfl := Option.some.inj taken
      exact kept.publish ‹_› value
    · cases taken
  | dropCompleter =>
    rw [CallState.step] at taken
    split at taken
    · obtain rfl := Option.some.inj taken
      exact kept.publish ‹_› droppedResponse
    · cases taken
  | deliver =>
    rw [CallState.step] at taken
    split at taken
    · obtain ⟨t, took, keptT⟩ := kept.take_callback ‹_›
      rw [took] at taken
      obtain rfl := Option.some.inj taken
      exact keptT
    · obtain rfl := Option.some.inj taken
      exact kept.finish ‹_›
    · cases taken
  | onComplete f =>
    have held : s.pending = .held := by
      rw [CallState.step] at taken
      split at taken
      · assumption
      · cases taken
    exact kept.onComplete held taken
  | cancel =>
    obtain rfl := Option.some.inj taken
    exact { kept with token := by simp }
  | drop =>
    rw [CallState.step] at taken
    split at taken
    · obtain rfl := Option.some.inj taken
      exact kept.drop _
    · obtain rfl := Option.some.inj taken
      exact kept.drop _
    · cases taken
  | tryTake =>
    rw [CallState.step] at taken
    split at taken
    · rename_i held
      obtain rfl := Option.some.inj taken
      cases took : s.take .tryTake with
      | none => exact kept
      | some t => exact kept.take took (by rw [held]; rfl)
    · cases taken
  | poll waker =>
    rw [CallState.step] at taken
    split at taken
    · rename_i held
      have own : s.pending.policy = some .cancel := by rw [held]; rfl
      obtain rfl := Option.some.inj taken
      cases took : s.take .poll with
      | none => exact kept.move own rfl fun waited => (nomatch waited)
      | some t => exact kept.take took own
    · cases taken
  | register =>
    rw [CallState.step] at taken
    split at taken
    · rename_i waker polling
      have own : s.pending.policy = some .cancel := by rw [polling]; rfl
      obtain rfl := Option.some.inj taken
      exact (kept.waker waker).move own rfl fun waited => (nomatch waited)
    · cases taken
  | pollAgain =>
    rw [CallState.step] at taken
    split at taken
    · rename_i polled
      have own : s.pending.policy = some .cancel := by rw [polled]; rfl
      obtain rfl := Option.some.inj taken
      cases took : s.take .poll with
      | none => exact kept.move own rfl fun waited => (nomatch waited)
      | some t =>
        have keptT := kept.take took own
        obtain ⟨value, -, -, rfl⟩ := take_eq_some took
        exact keptT.move own rfl fun waited => (nomatch waited)
    · cases taken
  | wait timed =>
    rw [CallState.step] at taken
    split at taken
    · rename_i held
      obtain rfl := Option.some.inj taken
      exact kept.move (by rw [held]; rfl) rfl fun waited => (nomatch waited)
    · cases taken
  | loop =>
    rw [CallState.step] at taken
    split at taken
    · rename_i timed waiting
      have own : s.pending.policy = some .cancel := by rw [waiting]; rfl
      cases took : s.take .wait with
      | none =>
        rw [took] at taken
        obtain rfl := Option.some.inj taken
        exact kept.move own rfl fun waited => (nomatch waited)
      | some t =>
        rw [took] at taken
        obtain rfl := Option.some.inj taken
        have keptT := kept.take took own
        obtain ⟨value, -, -, rfl⟩ := take_eq_some took
        exact keptT.move own rfl fun _ => rfl
    · rename_i timed waiting
      have own : s.pending.policy = some .cancel := by rw [waiting]; rfl
      split at taken
      · rename_i isTaken
        obtain rfl := Option.some.inj taken
        exact kept.move own rfl fun _ => isTaken
      · obtain rfl := Option.some.inj taken
        exact kept.move own rfl fun waited => (nomatch waited)
    · cases taken
  | lock expired =>
    rw [CallState.step] at taken
    split at taken
    · rename_i timed waiting
      have own : s.pending.policy = some .cancel := by rw [waiting]; rfl
      split at taken
      · cases taken
      · rename_i possible
        split at taken
        · obtain rfl := Option.some.inj taken
          exact kept.move own rfl fun waited => (nomatch waited)
        · split at taken
          · rename_i isExpired
            obtain rfl := Option.some.inj taken
            refine kept.move own rfl fun waited => ?_
            have untimed : timed = false := by simpa using waited
            exact absurd ⟨isExpired, untimed⟩ possible
          · obtain rfl := Option.some.inj taken
            exact kept.move own rfl fun waited => (nomatch waited)
    · cases taken
  | wake =>
    rw [CallState.step] at taken
    split at taken
    · rename_i timed waiting
      obtain rfl := Option.some.inj taken
      exact kept.move (by rw [waiting]; rfl) rfl fun waited => (nomatch waited)
    · cases taken
  | expire =>
    rw [CallState.step] at taken
    split at taken
    · rename_i waiting
      have own : s.pending.policy = some .cancel := by rw [waiting]; rfl
      split at taken
      · obtain rfl := Option.some.inj taken
        exact kept.move own rfl fun waited => by simp at waited
      · obtain rfl := Option.some.inj taken
        exact kept.move own rfl fun waited => (nomatch waited)
    · cases taken
  | detach =>
    rw [CallState.step] at taken
    split at taken
    · rename_i held
      have unregistered := kept.unregistered (by rw [held]; rfl)
      obtain rfl := Option.some.inj taken
      exact { kept with
        consumed := fun some => absurd unregistered some
        policy := fun policy same => Option.some.inj same
        waited := fun waited => (nomatch waited) }
    · cases taken

/-- The step of a `wait_timeout` that has given up: its drop, with the result still to come. -/
def GivesUp (taken : CallState T W C × CallEvent T W C) : Prop :=
  taken.2 = .drop ∧ taken.1.pending = .leaving (.wait true) ∧ taken.1.slot.state = .empty

theorem trips_take (s : CallState T W C) (receiver : Receiver C) (other : CallState T W C) (same : other.trips = s.trips) :
    ((s.take receiver).getD other).trips = s.trips := by
  cases took : s.take receiver with
  | none => exact same
  | some t =>
    obtain ⟨value, -, -, rfl⟩ := take_eq_some took
    rfl

/-- Only `cancel()` and a drop trip a token. -/
theorem trips_step {s after : CallState T W C} {event : CallEvent T W C} (notCancel : event ≠ .cancel)
    (notDrop : event ≠ .drop) (taken : s.step event = some after) : after.trips = s.trips := by
  cases event with
  | cancel => exact absurd rfl notCancel
  | drop => exact absurd rfl notDrop
  | _ =>
    rw [CallState.step] at taken
    grind [trips_take, CallState.take, CallState.publish, CallState.leaveWith]

theorem asked_append (trips : List Trip) (trip : Trip) :
    (∀ other ∈ trips ++ [trip], other.Asked) ↔ (∀ other ∈ trips, other.Asked) ∧ trip.Asked := by
  rw [List.forall_mem_append, List.forall_mem_singleton]

/-- A step trips the token on its own exactly where a `wait_timeout` gives up. -/
theorem asked_step {s after : CallState T W C} {event : CallEvent T W C} (kept : s.Kept)
    (taken : s.step event = some after) :
    (∀ trip ∈ after.trips, trip.Asked) ↔ (∀ trip ∈ s.trips, trip.Asked) ∧ ¬GivesUp (s, event) := by
  cases event with
  | cancel =>
    obtain rfl := Option.some.inj taken
    have quiet : ¬GivesUp (s, CallEvent.cancel) := fun gives => nomatch gives.1
    exact (asked_append _ _).trans (and_congr_right fun _ => ⟨fun _ => quiet, fun _ => trivial⟩)
  | drop =>
    rw [CallState.step] at taken
    split at taken
    · rename_i held
      obtain rfl := Option.some.inj taken
      have quiet : ¬GivesUp (s, CallEvent.drop) := fun gives => by cases held.symm.trans gives.2.1
      unfold dropPending
      simp only
      split
      · rename_i cancels
        exact (asked_append _ _).trans (and_congr_right fun _ => ⟨fun _ => quiet, fun _ => ⟨rfl, cancels.2⟩⟩)
      · simp [quiet]
    · rename_i consumed leaving
      obtain rfl := Option.some.inj taken
      unfold dropPending
      simp only
      split
      · rename_i cancels
        have waited : consumed = .wait true := by
          cases consumed with
          | wait timed =>
            cases timed with
            | true => rfl
            | false => cases cancels.2.symm.trans (kept.waited leaving)
          | onComplete => cases cancels.1.symm.trans (kept.policy .detach (by rw [leaving]; rfl))
          | detach => cases cancels.1.symm.trans (kept.policy .detach (by rw [leaving]; rfl))
        have gives : GivesUp (s, CallEvent.drop) := ⟨rfl, waited ▸ leaving, cancels.2⟩
        exact (asked_append _ _).trans (and_congr_right fun _ =>
          ⟨fun asked => (nomatch asked.1), fun quiet => absurd gives quiet⟩)
      · rename_i keeps
        have quiet : ¬GivesUp (s, CallEvent.drop) := fun gives =>
          keeps ⟨kept.policy .cancel (by rw [gives.2.1]; rfl), gives.2.2⟩
        simp [quiet]
    · cases taken
  | _ =>
    rw [trips_step (by nofun) (by nofun) taken]
    exact ⟨fun asked => ⟨asked, fun gives => (nomatch gives.1)⟩, And.left⟩

theorem Kept.safe_iff {s : CallState T W C} (kept : s.Kept) : s.Safe ↔ ∀ trip ∈ s.trips, trip.Asked := by
  refine ⟨Safe.asked, fun asked => ⟨?_, ?_, asked, kept.token⟩⟩
  · have states : s.slot.state = .empty ∨ s.slot.state = .ready ∨ s.slot.state = .taken := by
      cases s.slot.state <;> simp
    rcases states with empty | ready | taken
    · rw [kept.empty empty]
      exact Nat.zero_le 1
    · rw [(kept.ready ready).1]
      exact Nat.zero_le 1
    · obtain ⟨receiver, value, handed, -⟩ := kept.taken taken
      rw [handed]
      exact Nat.le_refl 1
  · intro f registered finished
    rcases kept.registered f registered with ⟨-, empty⟩ | ⟨waker, published⟩ | ⟨value, handed⟩
    · cases finished.symm.trans (kept.working.mpr empty)
    · cases finished.symm.trans published
    · refine ⟨value, ?_, handed⟩
      have states : s.slot.state = .empty ∨ s.slot.state = .ready ∨ s.slot.state = .taken := by
        cases s.slot.state <;> simp
      rcases states with empty | ready | taken
      · cases handed.symm.trans (kept.empty empty)
      · cases handed.symm.trans (kept.ready ready).1
      · obtain ⟨receiver, other, same, produced⟩ := kept.taken taken
        cases handed.symm.trans same
        exact produced

/-- A call's promises hold in a state exactly when no `wait_timeout` gave up on the way there. -/
theorem pending_safe_iff {trace : List (CallState T W C × CallEvent T W C)} {s : CallState T W C}
    (run : Runs CallState.step start trace s) : s.Safe ↔ ∀ taken ∈ trace, ¬GivesUp taken := by
  rw [(run.invariant Kept.start fun _ _ _ kept => kept.step).safe_iff]
  exact run.holds_iff Kept.start (fun _ none => (nomatch none)) (fun _ _ _ kept => kept.step)
    fun _ _ _ kept => asked_step kept

/-- A host that waits without a bound and gets its result. -/
theorem pending_safe_iff_wait :
    ∃ (trace : List (CallState Unit Unit Unit × CallEvent Unit Unit Unit)) (s : CallState Unit Unit Unit),
      s.handed = [(.wait, .ok ())] ∧ (s.Safe ↔ ∀ taken ∈ trace, ¬GivesUp taken) := by
  have run : Runs CallState.step (start : CallState Unit Unit Unit) _ _ :=
    (((Runs.start.next (.wait false) rfl).next (.complete (.ok ())) rfl).next .loop rfl).next .drop rfl
  exact ⟨_, _, rfl, pending_safe_iff run⟩

/-- A `wait_timeout` that expires trips the token of the call it stopped waiting for. -/
theorem wait_timeout_cancels :
    ¬∀ (trace : List (CallState Unit Unit Unit × CallEvent Unit Unit Unit)) (s : CallState Unit Unit Unit),
      Runs CallState.step start trace s → s.Safe := by
  intro safe
  have run : Runs CallState.step (start : CallState Unit Unit Unit) _ _ :=
    ((((Runs.start.next (.wait true) rfl).next .loop rfl).next .loop rfl).next (.lock true) rfl).next .drop rfl
  have asked := (safe _ _ run).asked (.dropped (some (.wait true)) .empty) (List.mem_singleton.mpr rfl)
  cases asked.1

end CallState

end Xript
