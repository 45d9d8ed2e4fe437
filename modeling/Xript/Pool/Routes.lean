import Xript.Pool.FanOut
import Xript.Pool.Retirement

namespace Xript

inductive Lane where
  | interactive
  | long
  deriving DecidableEq

inductive Saturation where
  | backpressure
  | reject
  | shedOldest
  deriving DecidableEq

inductive WedgePolicy where
  | failFast
  | queue
  deriving DecidableEq

inductive HookDispatch where
  | concurrent
  | sequential
  deriving DecidableEq

/-- The configuration of a pool, as its calls read it, and which workers the host's factory builds in host events mode. -/
structure PoolConfig where
  interactive : Nat
  workers : Nat
  queueDepth : Nat
  saturation : Saturation
  hookDispatch : HookDispatch
  maxDedicated : Nat
  wedgePolicy : WedgePolicy
  interactiveModCap : Nat
  replaceWedged : Bool
  maxReplacements : Nat
  hostEvents : Nat → Bool

/-- A worker as the routes see it, but for its state: the calls on its queue, how many of them are in flight, and the mods
that are homed on it. -/
structure Seat where
  lane : Lane
  depth : Nat
  running : Nat
  homed : Nat
  hostEvents : Bool

/-- A pool: its workers, which are known by their places in the list, their states and the supervisor's, the mods that are
loaded and those on their way with the numbers they took, what the bus keeps, and the sequential fires that go on, with the
workers they have not come to. -/
structure RoutedPool where
  seats : List Seat
  supervised : Supervised
  records : Record ModRecord
  loading : List (Nat × Nat × ModManifest)
  loadSeq : Nat
  hookWorkers : List (JSString × Nat)
  subscriptions : List (JSString × Nat)
  busRetired : List Nat
  dedicatedLive : Nat
  replacements : Nat
  fans : List (List Nat)

inductive CallKind where
  | execute
  | invokeExport
  deriving DecidableEq

structure CallDescriptor where
  kind : CallKind
  intent : ResolvedIntent
  home : Option WorkerId

inductive Route where
  | interactive
  | lane (lane : Lane)
  | worker (id : WorkerId)
  | dedicated

/-- Where a call ends up: at a worker, at a runtime of its own, or answered by the pool. -/
inductive Destination where
  | worker (n : Nat)
  | dedicated
  | answered

namespace RoutedPool

section

variable (config : PoolConfig) (s : RoutedPool)

def routable (n : Nat) : Bool := (s.supervised.states[n]?).any WorkerState.routable

/-- The routable workers of a lane. -/
def lane (lane : Lane) : List Nat :=
  (List.range s.seats.length).filter fun n => (s.seats[n]?).any (fun seat => seat.lane = lane) && s.routable n

def depth (n : Nat) : Nat := (s.seats[n]?).elim 0 Seat.depth

def homedCount (n : Nat) : Nat := (s.seats[n]?).elim 0 Seat.homed

def leastLoaded (lane : Lane) : Option Nat := (s.lane lane).minOn? fun n => toLex (s.depth n, n)

def leastHomed (lane : Lane) : Option Nat :=
  (s.lane lane).minOn? fun n => toLex (s.homedCount n, toLex (s.depth n, n))

def interactiveMods : Nat := ((s.seats.filter fun seat => seat.lane = .interactive).map Seat.homed).sum

def laneSaturated (lane : Lane) : Bool := !(s.lane lane).any fun n => s.depth n < config.queueDepth

/-- The default router's choice for a call: residency wins over intent. -/
def route (call : CallDescriptor) : Route :=
  match call.kind, call.home with
  | .invokeExport, some home => .worker home
  | _, _ =>
    if call.intent.affinity = .isolated then .dedicated
    else
      match call.intent.duration with
      | .unbounded => if s.laneSaturated config .long then .dedicated else .lane .long
      | .long => .lane .long
      | _ => .interactive

/-- The default router's choice of a home. -/
def place (intent : ResolvedIntent) : Nat :=
  let long := .long ≤ intent.duration ∨ intent.affinity = .isolated
  let empty := if intent.affinity = .isolated then (s.lane .long).find? fun n => s.homedCount n = 0 else none
  let interactive := if s.interactiveMods < config.interactiveModCap then s.leastHomed .interactive else none
  (if long then empty.or (s.leastHomed .long) else none).or
    (interactive.or ((s.leastHomed .long).or (s.leastHomed .interactive))) |>.getD 0

def seatOf : WorkerId → Option Nat
  | .worker n => if n < s.seats.length then some n else none
  | .dedicated _ => none

def resolveRoute : Route → Option WorkerId
  | .worker id => some id
  | .interactive => ((s.leastLoaded .interactive).or (s.leastLoaded .long)).map WorkerId.worker
  | .lane lane =>
    ((s.leastLoaded lane).or ((s.leastLoaded .interactive).or (s.leastLoaded .long))).map WorkerId.worker
  | .dedicated => none

def executeDedicated : Destination :=
  if config.maxDedicated ≤ s.dedicatedLive then
    match (s.resolveRoute (.lane .long)).bind s.seatOf with
    | some n => .worker n
    | none => .answered
  else .dedicated

def execute (intent : ResolvedIntent) : Destination :=
  match (s.resolveRoute (s.route config ⟨.execute, intent, none⟩)).bind s.seatOf with
  | some n => .worker n
  | none => s.executeDedicated config

/-- The route of a call that only a mod's home can serve: the default router has one for a dedicated runtime clamped. -/
def modResidentRoute (route : Route) (home : WorkerId) : Option WorkerId :=
  match route with
  | .dedicated => some home
  | route => s.resolveRoute route

def invokeExport (host : HostManifest) (mod name : JSString) : Destination :=
  match s.records.get mod with
  | none => .answered
  | some record =>
    let call : CallDescriptor := ⟨.invokeExport, host.callIntent s.records mod name, some record.home⟩
    match (s.modResidentRoute (s.route config call) record.home).bind s.seatOf with
    | some n => .worker n
    | none => .answered

def loadModOn (home : WorkerId) : Destination :=
  match s.seatOf home with
  | some n => .worker n
  | none => .answered

/-- The worker of the earliest subscription to an event, among those that the bus does not know to be retired. -/
def firstSubscriber (event : JSString) : Option Nat :=
  ((s.subscriptions.filter fun subscription => subscription.1 = event).map Prod.snd).find? fun n => n ∉ s.busRetired

def emit (event : JSString) : Destination :=
  if s.seats.any Seat.hostEvents then .answered
  else
    match (s.firstSubscriber event).bind fun n => s.seatOf (.worker n) with
    | some n => .worker n
    | none => .answered

def onBus : Destination :=
  match s.seatOf (.worker (((s.leastLoaded .interactive).or (s.leastLoaded .long)).getD 0)) with
  | some n => .worker n
  | none => .answered

/-- The workers that hold a handler of a hook, among those that the bus does not know to be retired. -/
def hookWorkersOf (hook : JSString) : List Nat :=
  ((s.hookWorkers.filter fun entry => entry.1 = hook).map Prod.snd).filter fun n => n ∉ s.busRetired

/-- The workers a hook is fired on. -/
def fanOut (hook : JSString) : List Nat :=
  (fanOutTargets hook s.records (s.hookWorkersOf hook)).filterMap fun target => s.seatOf target.1

end

end RoutedPool

/-- What happens to a pool. -/
inductive RouteEvent where
  | execute (intent : ResolvedIntent)
  | invokeExport (mod name : JSString)
  | fireHook (hook : JSString)
  /-- A sequential fire comes to its next worker. -/
  | advance (fan : Nat)
  | emit (event : JSString)
  | loadMod (manifest : ModManifest)
  | cancelOwned
  | declareEvent
  | loadModOn (home : WorkerId) (manifest : ModManifest)
  | retire (worker : Nat)
  /-- A worker has loaded a mod, whose handlers answer to some hooks. -/
  | loaded (load : Nat) (name : JSString) (hooks : List JSString)
  | registerHook (worker : Nat) (hook : JSString)
  | subscribe (worker : Nat) (event : JSString)
  | unsubscribe (subscription : Nat)
  | started (worker : Nat)
  | replied (worker : Nat)
  | dedicatedDone
  | supervise (event : SupervisedEvent)

namespace RoutedPool

variable (config : PoolConfig) (host : HostManifest)

def Destination.calls : Destination → List Nat
  | .worker n => [n]
  | _ => []

/-- The workers that an event has a call for. -/
def calls (s : RoutedPool) : RouteEvent → List Nat
  | .execute intent => Destination.calls (s.execute config intent)
  | .invokeExport mod name => Destination.calls (s.invokeExport config host mod name)
  | .fireHook hook =>
    match config.hookDispatch with
    | .concurrent => s.fanOut hook
    | .sequential => []
  | .advance fan => ((s.fans[fan]?).getD []).take 1
  | .emit event => Destination.calls (s.emit event)
  | .loadMod manifest => Destination.calls (s.loadModOn (.worker (s.place config manifest.aggregateExecution)))
  | .loadModOn home _ => Destination.calls (s.loadModOn home)
  | .cancelOwned | .declareEvent => Destination.calls s.onBus
  | _ => []

/-- Whether `dispatch` puts a call on a worker's queue; otherwise it answers the call with an error. -/
def admits (s : RoutedPool) (n : Nat) : Bool :=
  match s.seats[n]? with
  | none => false
  | some seat =>
    !((s.supervised.states[n]? = some .unhealthy && config.wedgePolicy = .failFast) ||
      (config.queueDepth ≤ seat.depth && seat.lane = .long && config.saturation = .reject))

/-- The workers on whose handles an event enqueues a call. -/
def enqueued (s : RoutedPool) (event : RouteEvent) : List Nat := (s.calls config host event).filter (s.admits config)

/-- A call is put on a queue; a full one of the long lane may first shed its oldest call that is not in flight. -/
def enqueue (seat : Seat) : Seat :=
  let sheds := config.queueDepth ≤ seat.depth ∧ seat.lane = .long ∧ config.saturation = .shedOldest ∧ seat.running < seat.depth
  { seat with depth := (if sheds then seat.depth - 1 else seat.depth) + 1 }

/-- A call is put on the queue of each of some workers. -/
def queued (s : RoutedPool) (ns : List Nat) : RoutedPool :=
  { s with seats := s.seats.mapIdx fun n seat => if n ∈ ns then enqueue config seat else seat }

def setSeat (s : RoutedPool) (n : Nat) (change : Seat → Seat) : RoutedPool := { s with seats := s.seats.modify n change }

/-- The calls behind the ones in flight are answered with an error. -/
def answerQueued (seat : Seat) : Seat := { seat with depth := seat.running }

/-- A mod that is being loaded, if its worker took the call. -/
def load (s : RoutedPool) (home : WorkerId) (manifest : ModManifest) : RoutedPool :=
  let next := { s with loadSeq := s.loadSeq + 1 }
  match (Destination.calls (s.loadModOn home)).filter (s.admits config) with
  | n :: _ => { queued config next [n] with loading := s.loading ++ [(n, s.loadSeq, manifest)] }
  | [] => next

/-- `retire_worker`. -/
def retire (s : RoutedPool) (worker : Nat) : RoutedPool :=
  match s.seats[worker]? with
  | none => s
  | some seat =>
    let states := s.supervised.states.set worker .retired
    let gone := { s.setSeat worker answerQueued with
      supervised := { s.supervised with states }, busRetired := worker :: s.busRetired }
    if config.replaceWedged ∧ s.replacements < config.maxReplacements then
      { gone with
        seats := gone.seats ++ [⟨seat.lane, 0, 0, 0, config.hostEvents s.seats.length⟩]
        supervised := { gone.supervised with states := states ++ [.idle] }
        replacements := s.replacements + 1 }
    else gone

def start : RoutedPool :=
  let total := max config.workers 1
  let interactive := min (max config.interactive 1) total
  { seats := (List.range total).map fun n => ⟨if n < interactive then .interactive else .long, 0, 0, 0, config.hostEvents n⟩
    supervised := .start total
    records := []
    loading := []
    loadSeq := 0
    hookWorkers := []
    subscriptions := []
    busRetired := []
    dedicatedLive := 0
    replacements := 0
    fans := [] }

def step (s : RoutedPool) (event : RouteEvent) : Option RoutedPool :=
  let next := queued config s (s.enqueued config host event)
  match event with
  | .execute intent =>
    match s.execute config intent with
    | .dedicated => some { s with dedicatedLive := s.dedicatedLive + 1 }
    | _ => some next
  | .invokeExport _ _ | .emit _ | .cancelOwned | .declareEvent => some next
  | .fireHook hook =>
    match config.hookDispatch with
    | .concurrent => some next
    | .sequential => some { s with fans := s.fans ++ [s.fanOut hook] }
  | .advance fan =>
    match s.fans[fan]? with
    | some (_ :: rest) => some { next with fans := s.fans.set fan rest }
    | some [] => some { s with fans := s.fans.eraseIdx fan }
    | none => none
  | .loadMod manifest => some (s.load config (.worker (s.place config manifest.aggregateExecution)) manifest)
  | .loadModOn home manifest => some (s.load config home manifest)
  | .retire worker => some (s.retire config worker)
  | .loaded load name hooks =>
    match s.loading[load]? with
    | some (n, loadSeq, manifest) =>
      some { s.setSeat n fun seat => { seat with homed := seat.homed + 1 } with
        records := s.records.set name (.loaded (.worker n) loadSeq manifest hooks), loading := s.loading.eraseIdx load }
    | none => none
  | .registerHook worker hook => some { s with hookWorkers := s.hookWorkers ++ [(hook, worker)] }
  | .subscribe worker event => some { s with subscriptions := s.subscriptions ++ [(event, worker)] }
  | .unsubscribe subscription => some { s with subscriptions := s.subscriptions.eraseIdx subscription }
  | .started worker =>
    match s.seats[worker]? with
    | some seat => if seat.running < seat.depth then
        some (s.setSeat worker fun seat => { seat with running := seat.running + 1 }) else none
    | none => none
  | .replied worker =>
    match s.seats[worker]? with
    | some seat => if 0 < seat.running then
        some (s.setSeat worker fun seat => { seat with running := seat.running - 1, depth := seat.depth - 1 }) else none
    | none => none
  | .dedicatedDone => if 0 < s.dedicatedLive then some { s with dedicatedLive := s.dedicatedLive - 1 } else none
  | .supervise event =>
    match event, s.supervised.supervising with
    | .retire _, _ | .join, _ => none
    -- A worker that is found wedged has its queue answered.
    | .write, .writing worker .wedged _ =>
      (s.supervised.step .write).map fun supervised => { s.setSeat worker answerQueued with supervised }
    | event, _ => (s.supervised.step event).map fun supervised => { s with supervised }

end RoutedPool

/-- The calls of a pool's host, and what goes on of them. -/
def RouteEvent.isCall : RouteEvent → Bool
  | .execute _ | .invokeExport _ _ | .fireHook _ | .advance _ | .emit _ | .loadMod _ | .cancelOwned | .declareEvent => true
  | _ => false

end Xript
