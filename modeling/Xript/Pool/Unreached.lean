import Xript.Pool.Merged
import Xript.Pool.Routes

namespace Xript

namespace RoutedPool

variable {config : PoolConfig} {host : HostManifest} {s t : RoutedPool} {w n : Nat} {event : RouteEvent}

/-- A step adds workers and never takes one from the retired, and what it makes of their states are the steps of the
supervisor and of those that retire workers. -/
structure Frame (s t : RoutedPool) : Prop where
  seats : s.seats.length ≤ t.seats.length
  busRetired : s.busRetired ⊆ t.busRetired
  supervised : ∃ trace, Runs Supervised.step s.supervised trace t.supervised
  added : t.seats.length + s.supervised.states.length = s.seats.length + t.supervised.states.length

theorem Frame.of_same (seats : t.seats.length = s.seats.length) (busRetired : t.busRetired = s.busRetired)
    (supervised : t.supervised = s.supervised) : Frame s t :=
  ⟨seats.ge, fun _ inside => busRetired ▸ inside, ⟨[], supervised ▸ .start⟩, by rw [seats, supervised]⟩

theorem start_known (config : PoolConfig) : (start config).supervised.states.length = (start config).seats.length := by
  show (List.replicate _ _).length = ((List.range _).map _).length
  rw [List.length_replicate, List.length_map, List.length_range]

/-- What the supervisor does leaves the number of states. -/
theorem supervised_length {before after : Supervised} {event : SupervisedEvent} (stays : event ≠ .join)
    (taken : before.step event = some after) : after.states.length = before.states.length := by
  cases event with
  | join => exact absurd rfl stays
  | retire worker =>
    obtain rfl := Option.some.inj taken
    exact List.length_set ..
  | round =>
    rw [Supervised.step] at taken
    split at taken
    · obtain rfl := Option.some.inj taken
      rfl
    · obtain rfl := Option.some.inj taken
      rfl
    · cases taken
  | write =>
    rw [Supervised.step] at taken
    split at taken
    · obtain rfl := Option.some.inj taken
      exact List.length_set ..
    · cases taken
  | read | judge _ =>
    rw [Supervised.step] at taken
    split at taken
    · split at taken
      all_goals
        obtain rfl := Option.some.inj taken
        rfl
    · cases taken

@[simp] theorem length_queued (s : RoutedPool) (ns : List Nat) : (queued config s ns).seats.length = s.seats.length :=
  List.length_mapIdx ..

theorem load_frame (s : RoutedPool) (home : WorkerId) (manifest : ModManifest) : Frame s (s.load config home manifest) := by
  rw [load]
  dsimp only
  split
  · exact .of_same (length_queued ..) rfl rfl
  · exact .of_same rfl rfl rfl

theorem retire_frame (s : RoutedPool) (worker : Nat) : Frame s (s.retire config worker) := by
  rw [retire]
  split
  · exact .of_same rfl rfl rfl
  · dsimp only
    have retired : s.supervised.step (.retire worker) =
      some { s.supervised with states := s.supervised.states.set worker .retired } := rfl
    split
    · refine ⟨?_, fun _ inside => List.mem_cons_of_mem _ inside, ⟨_, (Runs.start.next _ retired).next .join rfl⟩, ?_⟩
      · show s.seats.length ≤ (s.seats.modify _ _ ++ [_]).length
        rw [List.length_append, List.length_modify]
        exact Nat.le_add_right ..
      · show (s.seats.modify _ _ ++ [_]).length + _ = _ + (s.supervised.states.set _ _ ++ [_]).length
        rw [List.length_append, List.length_append, List.length_modify, List.length_set, List.length_singleton,
          List.length_singleton]
        omega
    · refine ⟨?_, fun _ inside => List.mem_cons_of_mem _ inside, ⟨_, Runs.start.next _ retired⟩, ?_⟩
      · show s.seats.length ≤ (s.seats.modify _ _).length
        rw [List.length_modify]
      · show (s.seats.modify _ _).length + _ = _ + (s.supervised.states.set _ _).length
        rw [List.length_modify, List.length_set]

@[simp] theorem length_setSeat (s : RoutedPool) (n : Nat) (change : Seat → Seat) :
    (s.setSeat n change).seats.length = s.seats.length :=
  List.length_modify ..

theorem step_frame (taken : step config host s event = some t) : Frame s t := by
  cases event with
  | execute intent =>
    rw [step] at taken
    split at taken
    · obtain rfl := Option.some.inj taken
      exact .of_same rfl rfl rfl
    · obtain rfl := Option.some.inj taken
      exact .of_same (length_queued ..) rfl rfl
  | invokeExport _ _ | emit _ | cancelOwned | declareEvent =>
    obtain rfl := Option.some.inj taken
    exact .of_same (length_queued ..) rfl rfl
  | fireHook hook =>
    rw [step] at taken
    split at taken
    · obtain rfl := Option.some.inj taken
      exact .of_same (length_queued ..) rfl rfl
    · obtain rfl := Option.some.inj taken
      exact .of_same rfl rfl rfl
  | advance fan =>
    rw [step] at taken
    split at taken
    · obtain rfl := Option.some.inj taken
      exact .of_same (length_queued ..) rfl rfl
    · obtain rfl := Option.some.inj taken
      exact .of_same rfl rfl rfl
    · cases taken
  | loadMod manifest =>
    obtain rfl := Option.some.inj taken
    exact load_frame ..
  | loadModOn home manifest =>
    obtain rfl := Option.some.inj taken
    exact load_frame ..
  | retire worker =>
    obtain rfl := Option.some.inj taken
    exact retire_frame ..
  | loaded load name hooks =>
    rw [step] at taken
    split at taken
    · obtain rfl := Option.some.inj taken
      exact .of_same (length_setSeat ..) rfl rfl
    · cases taken
  | registerHook _ _ | subscribe _ _ | unsubscribe _ =>
    obtain rfl := Option.some.inj taken
    exact .of_same rfl rfl rfl
  | started worker | replied worker =>
    rw [step] at taken
    split at taken
    · split at taken
      · obtain rfl := Option.some.inj taken
        exact .of_same (length_setSeat ..) rfl rfl
      · cases taken
    · cases taken
  | dedicatedDone =>
    rw [step] at taken
    split at taken
    · obtain rfl := Option.some.inj taken
      exact .of_same rfl rfl rfl
    · cases taken
  | supervise event =>
    unfold RoutedPool.step at taken
    dsimp only at taken
    split at taken
    · cases taken
    · cases taken
    · obtain ⟨supervised, written, rfl⟩ := Option.map_eq_some_iff.mp taken
      refine ⟨(length_setSeat ..).ge, fun _ inside => inside, ⟨_, Runs.start.next _ written⟩, ?_⟩
      show (s.setSeat _ _).seats.length + _ = _
      rw [length_setSeat, supervised_length (by simp) written]
    · rename_i stays _
      obtain ⟨supervised, stepped, rfl⟩ := Option.map_eq_some_iff.mp taken
      refine ⟨le_rfl, fun _ inside => inside, ⟨_, Runs.start.next _ stepped⟩, ?_⟩
      show s.seats.length + _ = _
      rw [supervised_length stays stepped]

/-- A worker is retired for good, and the bus knows it. -/
structure Away (s : RoutedPool) (w : Nat) : Prop where
  seat : w < s.seats.length
  gone : s.supervised.Gone w
  bus : w ∈ s.busRetired

theorem Away.step (away : s.Away w) (taken : RoutedPool.step config host s event = some t) : t.Away w := by
  obtain ⟨seats, busRetired, ⟨trace, run⟩, -⟩ := step_frame taken
  exact ⟨away.seat.trans_le seats, run.invariant (I := (Supervised.Gone · w)) away.gone fun _ _ _ gone taken => gone.step taken,
    busRetired away.bus⟩

/-- No worker of the pool can be routed to. -/
def Unserved (s : RoutedPool) : Prop := ∀ n < s.seats.length, s.routable n = false

theorem mem_lane {lane : Lane} (member : n ∈ s.lane lane) : n < s.seats.length ∧ s.routable n = true := by
  obtain ⟨bound, serves⟩ := List.mem_filter.mp member
  exact ⟨List.mem_range.mp bound, (Bool.and_eq_true_iff.mp serves).2⟩

theorem leastLoaded_mem {lane : Lane} (chosen : s.leastLoaded lane = some n) : n ∈ s.lane lane := List.minOn?_mem chosen

theorem leastHomed_mem {lane : Lane} (chosen : s.leastHomed lane = some n) : n ∈ s.lane lane := List.minOn?_mem chosen

theorem leastLoaded_none {lane : Lane} : s.leastLoaded lane = none ↔ s.lane lane = [] := minOn?_eq_none

theorem leastHomed_none {lane : Lane} : s.leastHomed lane = none ↔ s.lane lane = [] := minOn?_eq_none

theorem unserved_iff : s.Unserved ↔ s.lane .interactive = [] ∧ s.lane .long = [] := by
  constructor
  · intro unserved
    have none : ∀ lane, s.lane lane = [] := fun lane => List.eq_nil_iff_forall_not_mem.mpr fun n member => by
      obtain ⟨bound, serves⟩ := mem_lane member
      cases (unserved n bound).symm.trans serves
    exact ⟨none _, none _⟩
  · rintro ⟨interactive, long⟩ n bound
    by_contra serves
    have member : n ∈ s.lane (s.seats[n]).lane := by
      refine List.mem_filter.mpr ⟨List.mem_range.mpr bound, Bool.and_eq_true_iff.mpr ⟨?_, by simpa using serves⟩⟩
      rw [List.getElem?_eq_getElem bound]
      exact decide_eq_true rfl
    cases lane : (s.seats[n]).lane with
    | interactive => rw [lane, interactive] at member; cases member
    | long => rw [lane, long] at member; cases member

theorem Away.not_routable (away : s.Away w) : s.routable w = false := by
  rw [routable, away.gone.retired]
  rfl

/-- A choice among the routable workers, with the first worker where there are none, falls on a retired one only if that
is the first and there are none. -/
theorem Away.chosen_iff (away : s.Away w) {choice : Option Nat} (serves : ∀ n, choice = some n → s.routable n = true)
    (none : choice = none ↔ s.Unserved) : choice.getD 0 = w ↔ w = 0 ∧ s.Unserved := by
  cases choice with
  | none => exact ⟨fun is => ⟨is.symm, none.mp rfl⟩, fun is => is.1.symm⟩
  | some n =>
    refine iff_of_false ?_ fun unserved => nomatch none.mpr unserved.2
    rintro rfl
    cases away.not_routable.symm.trans (serves n rfl)

theorem or_some {first second : Option Nat} {P : Nat → Prop} (left : ∀ n, first = some n → P n)
    (right : ∀ n, second = some n → P n) : ∀ n, first.or second = some n → P n := by
  intro n chosen
  rcases Option.or_eq_some_iff.mp chosen with is | ⟨-, is⟩
  · exact left n is
  · exact right n is

theorem Away.place_iff (away : s.Away w) (intent : ResolvedIntent) : s.place config intent = w ↔ w = 0 ∧ s.Unserved := by
  have homed : ∀ lane n, s.leastHomed lane = some n → s.routable n = true :=
    fun lane n chosen => (mem_lane (leastHomed_mem chosen)).2
  refine away.chosen_iff (or_some ?_ (or_some ?_ (or_some (homed _) (homed _)))) ?_
  · intro n chosen
    split at chosen
    · refine or_some ?_ (homed .long) n chosen
      intro n empty
      split at empty
      · exact (mem_lane (List.mem_of_find?_eq_some empty)).2
      · cases empty
    · cases chosen
  · intro n chosen
    split at chosen
    · exact homed _ n chosen
    · cases chosen
  · simp only [Option.or_eq_none_iff, unserved_iff, leastHomed_none]
    constructor
    · rintro ⟨-, -, long, interactive⟩
      exact ⟨interactive, long⟩
    · rintro ⟨interactive, long⟩
      refine ⟨?_, ?_, long, interactive⟩
      · split
        · refine Option.or_eq_none_iff.mpr ⟨?_, leastHomed_none.2 long⟩
          rw [long]
          split <;> rfl
        · rfl
      · split
        · exact leastHomed_none.2 interactive
        · rfl

theorem Away.onBus_iff (away : s.Away w) :
    ((s.leastLoaded .interactive).or (s.leastLoaded .long)).getD 0 = w ↔ w = 0 ∧ s.Unserved := by
  have loaded : ∀ lane n, s.leastLoaded lane = some n → s.routable n = true :=
    fun lane n chosen => (mem_lane (leastLoaded_mem chosen)).2
  refine away.chosen_iff (or_some (loaded _) (loaded _)) ?_
  rw [Option.or_eq_none_iff, unserved_iff, leastLoaded_none, leastLoaded_none]

/-- A call of the host, or what goes on of one, puts a call on a worker's queue. -/
def Enqueues (config : PoolConfig) (host : HostManifest) (w : Nat) (s : RoutedPool) (event : RouteEvent) : Prop :=
  event.isCall = true ∧ w ∈ s.enqueued config host event

/-- An event that comes to a worker whatever its state is: a call into a mod that lives there, a fire of a hook that such a
mod has a handler of, a sequential fire that has the worker ahead, and what falls back to the first worker as no worker can
be routed to. -/
def Comes (config : PoolConfig) (w : Nat) (s : RoutedPool) : RouteEvent → Prop
  | .invokeExport mod _ => ∃ record, s.records.get mod = some record ∧ record.home = .worker w
  | .fireHook hook =>
    config.hookDispatch = .concurrent ∧ ∃ entry ∈ s.records, hook ∈ entry.2.hooks ∧ entry.2.home = .worker w
  | .advance fan => ∃ rest, s.fans[fan]? = some (w :: rest)
  | .loadMod _ | .cancelOwned | .declareEvent => w = 0 ∧ s.Unserved
  | _ => False

/-- And its queue has room for the call. -/
def Reaches (config : PoolConfig) (w : Nat) (s : RoutedPool) (event : RouteEvent) : Prop :=
  s.admits config w = true ∧ Comes config w s event

theorem mem_destination {destination : Destination} : w ∈ Destination.calls destination ↔ destination = .worker w := by
  cases destination with
  | worker n =>
    rw [Destination.calls, List.mem_singleton]
    exact ⟨fun same => same ▸ rfl, fun same => (Destination.worker.inj same).symm⟩
  | dedicated | answered => exact iff_of_false nofun nofun

theorem seatOf_iff {id : WorkerId} : s.seatOf id = some w ↔ id = .worker w ∧ w < s.seats.length := by
  cases id with
  | worker n =>
    rw [seatOf]
    split
    · rename_i bound
      constructor
      · intro same
        cases same
        exact ⟨rfl, bound⟩
      · rintro ⟨same, -⟩
        cases same
        rfl
    · rename_i outside
      refine iff_of_false nofun ?_
      rintro ⟨same, bound⟩
      cases same
      exact outside bound
  | dedicated n => exact iff_of_false nofun fun same => nomatch same.1

/-- A route by lane leads to a routable worker. -/
theorem resolveRoute_routable {route : Route} {id : WorkerId} (lanes : ∀ id, route ≠ .worker id)
    (resolved : s.resolveRoute route = some id) : ∃ n, id = .worker n ∧ s.routable n = true := by
  have loaded : ∀ lane n, s.leastLoaded lane = some n → s.routable n = true :=
    fun lane n chosen => (mem_lane (leastLoaded_mem chosen)).2
  cases route with
  | worker id => exact absurd rfl (lanes id)
  | dedicated => cases resolved
  | interactive =>
    obtain ⟨n, chosen, rfl⟩ := Option.map_eq_some_iff.mp resolved
    exact ⟨n, rfl, or_some (loaded _) (loaded _) n chosen⟩
  | lane lane =>
    obtain ⟨n, chosen, rfl⟩ := Option.map_eq_some_iff.mp resolved
    exact ⟨n, rfl, or_some (loaded _) (or_some (loaded _) (loaded _)) n chosen⟩

theorem Away.not_resolved (away : s.Away w) {route : Route} (lanes : ∀ id, route ≠ .worker id) :
    (s.resolveRoute route).bind s.seatOf ≠ some w := by
  intro reached
  obtain ⟨id, resolved, seat⟩ := Option.bind_eq_some_iff.mp reached
  obtain ⟨n, rfl, serves⟩ := resolveRoute_routable lanes resolved
  cases (seatOf_iff.1 seat).1
  cases away.not_routable.symm.trans serves

theorem route_execute (intent : ResolvedIntent) (id : WorkerId) : s.route config ⟨.execute, intent, none⟩ ≠ .worker id := by
  rw [route]
  · dsimp only
    split
    · nofun
    · split
      · split <;> nofun
      · nofun
      · nofun

theorem Away.not_executed (away : s.Away w) (intent : ResolvedIntent) : s.execute config intent ≠ .worker w := by
  rw [execute]
  split
  · rename_i n reached
    intro same
    cases same
    exact away.not_resolved (route_execute intent) reached
  · rw [executeDedicated]
    split
    · split
      · rename_i n reached
        intro same
        cases same
        exact away.not_resolved (fun _ same => by cases same) reached
      · intro same
        cases same
    · intro same
      cases same

theorem invokeExport_iff (bound : w < s.seats.length) (mod name : JSString) :
    s.invokeExport config host mod name = .worker w ↔
      ∃ record, s.records.get mod = some record ∧ record.home = .worker w := by
  rw [invokeExport]
  cases found : s.records.get mod with
  | none => simp
  | some record =>
    have resident : s.modResidentRoute (s.route config ⟨.invokeExport, host.callIntent s.records mod name, some record.home⟩)
      record.home = some record.home := rfl
    simp only [resident, Option.bind_some]
    constructor
    · intro reached
      cases seat : s.seatOf record.home with
      | none => rw [seat] at reached; cases reached
      | some n =>
        rw [seat] at reached
        cases reached
        exact ⟨record, rfl, (seatOf_iff.1 seat).1⟩
    · rintro ⟨_, same, home⟩
      cases same
      rw [seatOf_iff.2 ⟨home, bound⟩]

theorem Away.not_emitted (away : s.Away w) (event : JSString) : s.emit event ≠ .worker w := by
  rw [emit]
  split
  · nofun
  · split
    · rename_i n reached
      intro same
      cases same
      obtain ⟨first, subscriber, seat⟩ := Option.bind_eq_some_iff.mp reached
      cases (seatOf_iff.1 seat).1
      have live := List.find?_some (p := fun n => decide (n ∉ s.busRetired)) subscriber
      exact (of_decide_eq_true live) away.bus
    · nofun

theorem seat_calls_iff (bound : w < s.seats.length) (n : Nat) : s.loadModOn (.worker n) = .worker w ↔ n = w := by
  rw [loadModOn]
  constructor
  · intro reached
    cases seat : s.seatOf (.worker n) with
    | none => rw [seat] at reached; cases reached
    | some m =>
      rw [seat] at reached
      cases reached
      exact WorkerId.worker.inj (seatOf_iff.1 seat).1
  · rintro rfl
    rw [seatOf_iff.2 ⟨rfl, bound⟩]

theorem Away.mem_fanOut (away : s.Away w) (hook : JSString) :
    w ∈ s.fanOut hook ↔ ∃ entry ∈ s.records, hook ∈ entry.2.hooks ∧ entry.2.home = .worker w := by
  have target : w ∈ s.fanOut hook ↔
      .worker w ∈ (fanOutTargets hook s.records (s.hookWorkersOf hook)).map Prod.fst := by
    rw [fanOut, List.mem_filterMap, List.mem_map]
    refine exists_congr fun target => and_congr_right fun _ => seatOf_iff.trans ?_
    exact and_iff_left away.seat
  have live : ∀ n ∈ s.hookWorkersOf hook, n ≠ w := by
    rintro n member rfl
    exact (of_decide_eq_true (List.mem_filter.mp member).2) away.bus
  rw [target, mem_fanOutTargets]
  refine or_iff_left ?_
  rintro ⟨n, member, same⟩
  exact live n member (WorkerId.worker.inj same)

/-- The calls that come to a retired worker. -/
theorem Away.enqueues_iff (away : s.Away w) : Enqueues config host w s event ↔ Reaches config w s event := by
  rw [Enqueues, enqueued, List.mem_filter, Reaches, and_comm (a := w ∈ _), ← and_assoc, and_comm (a := event.isCall = true),
    and_assoc]
  refine and_congr_right fun _ => ?_
  cases event with
  | execute intent => exact iff_of_false (fun reached => away.not_executed intent (mem_destination.1 reached.2)) id
  | invokeExport mod name =>
    exact (and_iff_right rfl).trans (mem_destination.trans (invokeExport_iff away.seat mod name))
  | fireHook hook =>
    refine (and_iff_right rfl).trans ?_
    show _ ↔ config.hookDispatch = .concurrent ∧ _
    rw [calls]
    cases config.hookDispatch with
    | concurrent => exact (away.mem_fanOut hook).trans (and_iff_right rfl).symm
    | sequential => exact iff_of_false nofun fun ⟨other, _⟩ => nomatch other
  | advance fan =>
    refine (and_iff_right rfl).trans ?_
    show w ∈ ((s.fans[fan]?).getD []).take 1 ↔ ∃ rest, s.fans[fan]? = some (w :: rest)
    cases s.fans[fan]? with
    | none => exact iff_of_false nofun fun ⟨_, missing⟩ => nomatch missing
    | some targets =>
      cases targets with
      | nil => exact iff_of_false nofun fun ⟨_, missing⟩ => nomatch missing
      | cons n rest =>
        show w ∈ [n] ↔ _
        rw [List.mem_singleton]
        constructor
        · rintro rfl
          exact ⟨rest, rfl⟩
        · rintro ⟨_, same⟩
          exact (List.cons.inj (Option.some.inj same)).1.symm
  | emit event => exact iff_of_false (fun reached => away.not_emitted event (mem_destination.1 reached.2)) id
  | loadMod manifest =>
    exact (and_iff_right rfl).trans (mem_destination.trans ((seat_calls_iff away.seat _).trans (away.place_iff _)))
  | cancelOwned | declareEvent =>
    exact (and_iff_right rfl).trans (mem_destination.trans ((seat_calls_iff away.seat _).trans away.onBus_iff))
  | loadModOn _ _ | retire _ | loaded _ _ _ | registerHook _ _ | subscribe _ _ | unsubscribe _ | started _ | replied _
  | dedicatedDone | supervise _ => exact iff_of_false (fun reached => nomatch reached.1) id

theorem Away.of_retired (bound : w < s.seats.length) (states : s.supervised.states.length = s.seats.length)
    (left : ¬ s.supervised.Examines w) : (s.retire config w).Away w := by
  have gone : ∀ rest : List WorkerState, Supervised.Gone ⟨s.supervised.states.set w .retired ++ rest, s.supervised.supervising⟩ w := by
    intro rest
    refine ⟨?_, left⟩
    show (s.supervised.states.set w .retired ++ rest)[w]? = _
    rw [List.getElem?_append_left (by rw [List.length_set, states]; exact bound), List.getElem?_set_self (states ▸ bound)]
  have frame : Frame s (s.retire config w) := retire_frame s w
  refine ⟨bound.trans_le frame.seats, ?_, ?_⟩
  · rw [retire, List.getElem?_eq_getElem bound]
    dsimp only
    split
    · exact gone [.idle]
    · have whole := gone []
      rw [List.append_nil] at whole
      exact whole
  · rw [retire, List.getElem?_eq_getElem bound]
    dsimp only
    split <;> exact List.mem_cons_self

def twoWorkers : PoolConfig := ⟨1, 2, 4, .backpressure, .concurrent, 1, .failFast, 8, false, 0, fun _ => false⟩

end RoutedPool

end Xript
