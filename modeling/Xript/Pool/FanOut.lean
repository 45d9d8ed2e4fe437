import Mathlib.Data.Prod.Lex
import Mathlib.Data.List.Sort
import Xript.Pool.CallIntent

namespace Xript

/-- The derived order of the ids: workers first, each kind by number. -/
def WorkerId.rank : WorkerId → Nat ×ₗ Nat
  | .worker n => toLex (0, n)
  | .dedicated n => toLex (1, n)

theorem WorkerId.rank_injective : Function.Injective WorkerId.rank := by
  intro a b same
  cases a <;> cases b <;> cases same <;> rfl

instance : LinearOrder WorkerId := LinearOrder.lift' WorkerId.rank WorkerId.rank_injective

/-- A handler of a hook, by the pool-wide number its registration took, with what it returns when the hook is fired. -/
structure HookHandler (V : Type) where
  seq : Nat
  phase : Option JSString
  mod : JSString
  value : V

/-- A fill of a hook, with what its export returns when the hook is fired. -/
structure HookFill (V : Type) where
  mod : JSString
  value : V

/-- What one worker has for a hook, in the order its runtime keeps it in. -/
structure HookWorker (V : Type) where
  id : WorkerId
  handlers : List (HookHandler V)
  fills : List (HookFill V)

structure OrderedResult (V : Type) where
  seq : Option Nat
  mod : JSString
  index : Nat
  value : V

def fillIndex : Nat := 2 ^ 31

def u64Max : Nat := 2 ^ 64 - 1

variable {V E : Type}

/-- Numbers each mod's results, from a first number on. -/
def tagResults (first : Nat) : Record Nat → List (Option Nat × JSString × V) → List (OrderedResult V)
  | _, [] => []
  | counters, (seq, mod, value) :: results =>
    let index := (counters.get mod).getD first
    ⟨seq, mod, index, value⟩ :: tagResults first (counters.set mod (index + 1)) results

/-- Whether a fire runs a handler: every fire that is of no phase does, and one of a phase that the hook declares runs
those of that phase. -/
def fires (definition : Option HookDef) (phase : Option JSString) (handler : HookHandler V) : Bool :=
  match phase with
  | none => true
  | some phase => (definition.bind HookDef.phases).any (phase ∈ ·) && handler.phase = some phase

def firedHandlers (definition : Option HookDef) (phase : Option JSString) (handlers : List (HookHandler V)) :
    List (HookHandler V) :=
  handlers.filter (fires definition phase)

/-- The fills a fire runs: a fire of one phase runs none. -/
def firedFills (phase : Option JSString) (fills : List (HookFill V)) : List (HookFill V) :=
  if phase = none then fills else []

def handlerResults (definition : Option HookDef) (phase : Option JSString) (handlers : List (HookHandler V)) :
    List (OrderedResult V) :=
  tagResults 0 [] ((firedHandlers definition phase handlers).map fun handler => (some handler.seq, handler.mod, handler.value))

def fillResults (phase : Option JSString) (fills : List (HookFill V)) : List (OrderedResult V) :=
  tagResults fillIndex [] ((firedFills phase fills).map fun fill => (none, fill.mod, fill.value))

/-- What one runtime answers a fire with. -/
def fireHookOrdered (definition : Option HookDef) (phase : Option JSString) (worker : HookWorker V) :
    List (OrderedResult V) :=
  handlerResults definition phase worker.handlers ++ fillResults phase worker.fills

/-- The key a pool merges results by. -/
abbrev MergeKey := Bool ×ₗ Nat ×ₗ Nat

def OrderedResult.key (seqOf : JSString → Option Nat) (entry : OrderedResult V) : MergeKey :=
  match entry.seq with
  | some seq => toLex (false, toLex (seq, 0))
  | none => toLex (true, toLex ((seqOf entry.mod).getD u64Max, entry.index))

def OrderedResult.keyed (seqOf : JSString → Option Nat) (entry : OrderedResult V) : MergeKey × V :=
  (entry.key seqOf, entry.value)

/-- The results of the segments in turn, up to the first failure. -/
def collectSegments (seqOf : JSString → Option Nat) :
    List (Option (Except E (List (OrderedResult V)))) → Except E (List (MergeKey × V))
  | [] => .ok []
  | none :: segments => collectSegments seqOf segments
  | some (.error e) :: _ => .error e
  | some (.ok ordered) :: segments =>
    (collectSegments seqOf segments).map fun all => ordered.map (OrderedResult.keyed seqOf) ++ all

def mergeSegments (segments : List (Option (Except E (List (OrderedResult V))))) (seqOf : JSString → Option Nat) :
    Except E (List V) :=
  (collectSegments seqOf segments).map fun all => (all.mergeSort fun a b => a.1 ≤ b.1).map Prod.snd

/-- `entry(worker).or_insert(seq)`, and the smaller of the two. -/
def noteEarliest (worker : WorkerId) (seq : Nat) : List (WorkerId × Nat) → List (WorkerId × Nat)
  | [] => [(worker, seq)]
  | entry :: earliest =>
    if entry.1 = worker then (worker, min entry.2 seq) :: earliest else entry :: noteEarliest worker seq earliest

def noteHandler (earliest : List (WorkerId × Nat)) (worker : Nat) : List (WorkerId × Nat) :=
  if .worker worker ∈ earliest.map Prod.fst then earliest else earliest ++ [(.worker worker, u64Max)]

def noteMod (hook : JSString) (earliest : List (WorkerId × Nat)) (entry : JSString × ModRecord) : List (WorkerId × Nat) :=
  if hook ∈ entry.2.hooks then noteEarliest entry.2.home entry.2.loadSeq earliest else earliest

/-- The workers a hook is fired on, in load order. -/
def fanOutTargets (hook : JSString) (records : Record ModRecord) (hookWorkers : List Nat) : List (WorkerId × Nat) :=
  (hookWorkers.foldl noteHandler (records.foldl (noteMod hook) [])).mergeSort fun a b =>
    toLex (a.2, a.1) ≤ toLex (b.2, b.1)

/-- A pool as a fire of a hook finds it. Every handler took a number of its own when it was registered, and left its
worker's among those with a handler; every fill is of a mod recorded with the worker it lives on and the hook. -/
structure HookPool (V : Type) where
  hook : JSString
  definition : Option HookDef
  workers : List (HookWorker V)
  records : Record ModRecord
  hookWorkers : List Nat
  distinctWorkers : (workers.map HookWorker.id).Nodup
  distinctSeqs : ((workers.flatMap HookWorker.handlers).map HookHandler.seq).Nodup
  distinctMods : records.keys.Nodup
  distinctLoads : (records.map fun entry => entry.2.loadSeq).Nodup
  homes : ∀ entry ∈ records, entry.2.home ∈ workers.map HookWorker.id
  known : ∀ n ∈ hookWorkers, .worker n ∈ workers.map HookWorker.id
  heard : ∀ worker ∈ workers, worker.handlers ≠ [] → ∃ n ∈ hookWorkers, worker.id = .worker n
  indexed : ∀ worker ∈ workers, ∀ fill ∈ worker.fills,
    ∃ record, records.get fill.mod = some record ∧ record.home = worker.id ∧ hook ∈ record.hooks

namespace HookPool

variable (pool : HookPool V) (phase : Option JSString)

def targets : List WorkerId := (fanOutTargets pool.hook pool.records pool.hookWorkers).map Prod.fst

def seqOf (mod : JSString) : Option Nat := (pool.records.get mod).map ModRecord.loadSeq

def worker (id : WorkerId) : Option (HookWorker V) := pool.workers.find? fun worker => worker.id = id

/-- What a worker that does not fail answers with. -/
def segment (id : WorkerId) : List (OrderedResult V) :=
  match pool.worker id with
  | some worker => fireHookOrdered pool.definition phase worker
  | none => []

/-- The handlers in the order of their registrations, wherever they live. -/
def registered : List (HookHandler V) :=
  (pool.workers.flatMap HookWorker.handlers).mergeSort fun a b => a.seq ≤ b.seq

/-- The mods in load order. -/
def loaded : Record ModRecord := pool.records.mergeSort fun a b => a.2.loadSeq ≤ b.2.loadSeq

/-- The fills in load order and then in their order within the mod. -/
def loadedFills : List (HookFill V) :=
  pool.loaded.flatMap fun entry => (pool.workers.flatMap HookWorker.fills).filter fun fill => fill.mod = entry.1

/-- The results of the fired handlers as they were registered, and then of the fired fills as they were loaded. -/
def inOrder : List V :=
  (firedHandlers pool.definition phase pool.registered).map HookHandler.value ++
    (firedFills phase pool.loadedFills).map HookFill.value

end HookPool

end Xript
