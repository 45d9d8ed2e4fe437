import Xript.Order.Merge
import Xript.Pool.FanOut

namespace Xript

variable {V E : Type}

theorem map_tagResults {T : Type} (of : Option Nat × JSString × V → T) (first : Nat) (counters : Record Nat)
    (results : List (Option Nat × JSString × V)) :
    (tagResults first counters results).map (fun entry => of (entry.seq, entry.mod, entry.value)) = results.map of := by
  induction results generalizing counters with
  | nil => rfl
  | cons result results ih => exact congrArg (of result :: ·) (ih _)

theorem tagResults_from {first : Nat} {counters : Record Nat} {results : List (Option Nat × JSString × V)}
    {entry : OrderedResult V} (member : entry ∈ tagResults first counters results) :
    (counters.get entry.mod).getD first ≤ entry.index := by
  induction results generalizing counters with
  | nil => cases member
  | cons result results ih =>
    obtain ⟨seq, mod, value⟩ := result
    rcases List.mem_cons.mp member with rfl | later
    · exact le_rfl
    · have after := ih later
      rw [Record.get_set] at after
      split at after
      · rename_i same
        rw [← same] at after
        rw [Option.getD_some] at after
        exact (Nat.le_succ _).trans after
      · exact after

/-- The results of a mod are numbered upwards. -/
theorem tagResults_ascending (first : Nat) (counters : Record Nat) (results : List (Option Nat × JSString × V)) :
    (tagResults first counters results).Pairwise fun a b => a.mod = b.mod → a.index < b.index := by
  induction results generalizing counters with
  | nil => exact .nil
  | cons result results ih =>
    obtain ⟨seq, mod, value⟩ := result
    refine List.pairwise_cons.mpr ⟨fun entry later same => ?_, ih _⟩
    have after := tagResults_from later
    rw [Record.get_set, if_pos same.symm, Option.getD_some] at after
    exact after

def HookHandler.keyed (handler : HookHandler V) : MergeKey × V := (toLex (false, toLex (handler.seq, 0)), handler.value)

theorem keyed_handlerResults (definition : Option HookDef) (phase : Option JSString) (handlers : List (HookHandler V))
    (seqOf : JSString → Option Nat) :
    (handlerResults definition phase handlers).map (OrderedResult.keyed seqOf) =
      (firedHandlers definition phase handlers).map HookHandler.keyed := by
  rw [handlerResults]
  generalize ([] : Record Nat) = counters
  induction firedHandlers definition phase handlers generalizing counters with
  | nil => rfl
  | cons handler handlers ih => exact congrArg (handler.keyed :: ·) (ih _)

theorem firedFills_append (phase : Option JSString) (first second : List (HookFill V)) :
    firedFills phase (first ++ second) = firedFills phase first ++ firedFills phase second := by
  rw [firedFills, firedFills, firedFills]
  split <;> rfl

theorem fillResults_seq {phase : Option JSString} {fills : List (HookFill V)} {entry : OrderedResult V}
    (member : entry ∈ fillResults phase fills) : entry.seq = none := by
  have inside := List.mem_map_of_mem (f := fun entry => entry.seq) member
  have seqs : (fillResults phase fills).map (fun entry => entry.seq) = _ := map_tagResults (fun result => result.1) ..
  rw [seqs, List.map_map] at inside
  obtain ⟨fill, -, none⟩ := List.mem_map.mp inside
  exact none.symm

/-- The results of fills are of the mods of the fills that are fired. -/
theorem fillResults_mods (phase : Option JSString) (fills : List (HookFill V)) :
    (fillResults phase fills).map (fun entry => (entry.mod, entry.value)) =
      (firedFills phase fills).map fun fill => (fill.mod, fill.value) := by
  rw [fillResults, map_tagResults (fun result => (result.2.1, result.2.2)), List.map_map]
  rfl

theorem fillResults_mem {phase : Option JSString} {fills : List (HookFill V)} {entry : OrderedResult V}
    (member : entry ∈ fillResults phase fills) : ∃ fill ∈ fills, fill.mod = entry.mod := by
  have inside := List.mem_map_of_mem (f := fun entry => (entry.mod, entry.value)) member
  rw [fillResults_mods] at inside
  obtain ⟨fill, fired, same⟩ := List.mem_map.mp inside
  refine ⟨fill, ?_, (Prod.mk.inj same).1⟩
  rw [firedFills] at fired
  split at fired
  · exact fired
  · cases fired

theorem keys_noteEarliest (worker : WorkerId) (seq : Nat) (earliest : List (WorkerId × Nat)) :
    (noteEarliest worker seq earliest).map Prod.fst = addKey (earliest.map Prod.fst) worker := by
  induction earliest with
  | nil => rfl
  | cons entry earliest ih =>
    rw [noteEarliest, addKey, List.map_cons]
    by_cases same : entry.1 = worker
    · rw [if_pos same, if_pos (same ▸ List.mem_cons_self), List.map_cons, same]
    · rw [if_neg same, List.map_cons, ih, addKey]
      by_cases present : worker ∈ earliest.map Prod.fst
      · rw [if_pos present, if_pos (List.mem_cons_of_mem _ present)]
      · rw [if_neg present, if_neg (by simpa [Ne.symm same] using present)]
        rfl

theorem keys_noteHandler (earliest : List (WorkerId × Nat)) (worker : Nat) :
    (noteHandler earliest worker).map Prod.fst = addKey (earliest.map Prod.fst) (.worker worker) := by
  rw [noteHandler, addKey]
  split
  · rfl
  · exact List.map_append

theorem keys_foldl_noteMod (hook : JSString) (records : Record ModRecord) (earliest : List (WorkerId × Nat)) :
    (records.foldl (noteMod hook) earliest).map Prod.fst =
      ((records.filter fun entry => hook ∈ entry.2.hooks).map fun entry => entry.2.home).foldl addKey
        (earliest.map Prod.fst) := by
  induction records generalizing earliest with
  | nil => rfl
  | cons entry records ih =>
    rw [List.foldl_cons, ih, noteMod, List.filter_cons]
    by_cases hosts : hook ∈ entry.2.hooks
    · rw [if_pos hosts, if_pos (decide_eq_true hosts), keys_noteEarliest]
      rfl
    · rw [if_neg hosts, if_neg (by simpa using hosts)]

theorem keys_foldl_noteHandler (hookWorkers : List Nat) (earliest : List (WorkerId × Nat)) :
    (hookWorkers.foldl noteHandler earliest).map Prod.fst =
      (hookWorkers.map WorkerId.worker).foldl addKey (earliest.map Prod.fst) := by
  induction hookWorkers generalizing earliest with
  | nil => rfl
  | cons worker hookWorkers ih => rw [List.foldl_cons, ih, keys_noteHandler, List.map_cons, List.foldl_cons]

section

variable (hook : JSString) (records : Record ModRecord) (hookWorkers : List Nat)

theorem fanOutTargets_perm : ((fanOutTargets hook records hookWorkers).map Prod.fst).Perm
    ((hookWorkers.map WorkerId.worker).foldl addKey
      (((records.filter fun entry => hook ∈ entry.2.hooks).map fun entry => entry.2.home).foldl addKey [])) := by
  rw [← List.map_nil (f := Prod.fst (α := WorkerId) (β := Nat)), ← keys_foldl_noteMod, ← keys_foldl_noteHandler]
  exact (List.mergeSort_perm ..).map _

theorem nodup_fanOutTargets : ((fanOutTargets hook records hookWorkers).map Prod.fst).Nodup :=
  (fanOutTargets_perm ..).nodup_iff.mpr (nodup_foldl_addKey (nodup_foldl_addKey List.nodup_nil _) _)

variable {hook records hookWorkers}

/-- A hook is fired on the homes of the mods that are recorded with it, and on the workers with a handler. -/
theorem mem_fanOutTargets {id : WorkerId} : id ∈ (fanOutTargets hook records hookWorkers).map Prod.fst ↔
    (∃ entry ∈ records, hook ∈ entry.2.hooks ∧ entry.2.home = id) ∨ ∃ n ∈ hookWorkers, .worker n = id := by
  rw [(fanOutTargets_perm ..).mem_iff]
  simp only [mem_foldl_addKey, List.not_mem_nil, false_or, List.mem_map, List.mem_filter, decide_eq_true_eq, and_assoc]

end

namespace HookPool

variable (pool : HookPool V) (phase : Option JSString)

theorem targets_nodup : pool.targets.Nodup := nodup_fanOutTargets ..

theorem mem_targets {pool : HookPool V} {id : WorkerId} : id ∈ pool.targets ↔
    (∃ entry ∈ pool.records, pool.hook ∈ entry.2.hooks ∧ entry.2.home = id) ∨ ∃ n ∈ pool.hookWorkers, .worker n = id :=
  mem_fanOutTargets

theorem worker_of_mem {pool : HookPool V} {worker : HookWorker V} (member : worker ∈ pool.workers) :
    pool.worker worker.id = some worker :=
  find?_of_distinct HookWorker.id pool.distinctWorkers member

theorem worker_of_target {pool : HookPool V} {id : WorkerId} (target : id ∈ pool.targets) :
    ∃ worker ∈ pool.workers, pool.worker id = some worker := by
  have inside : id ∈ pool.workers.map HookWorker.id := by
    rcases mem_targets.1 target with ⟨entry, member, -, rfl⟩ | ⟨n, member, rfl⟩
    · exact pool.homes entry member
    · exact pool.known n member
  obtain ⟨worker, member, rfl⟩ := List.mem_map.mp inside
  exact ⟨worker, member, worker_of_mem member⟩

/-- What a worker has, and nothing where there is no such worker. -/
def there {T : Type} (of : HookWorker V → List T) (id : WorkerId) : List T :=
  match pool.worker id with
  | some worker => of worker
  | none => []

/-- The fired workers have all there is of what only they have. -/
theorem targets_have {pool : HookPool V} {T : Type} {of : HookWorker V → List T}
    (reached : ∀ worker ∈ pool.workers, of worker ≠ [] → worker.id ∈ pool.targets) :
    (pool.targets.flatMap (pool.there of)).Perm (pool.workers.flatMap of) := by
  have all : pool.workers.flatMap of = (pool.workers.map HookWorker.id).flatMap (pool.there of) := by
    rw [List.flatMap_map]
    exact List.flatMap_congr fun worker member => by rw [there, worker_of_mem member]
  rw [all]
  refine flatMap_perm_of_support _ pool.targets_nodup pool.distinctWorkers (fun id target outside => ?_)
    fun id member missed => ?_
  · obtain ⟨worker, member, found⟩ := worker_of_target target
    have same : worker.id = id := by simpa using List.find?_some found
    exact absurd (same ▸ List.mem_map_of_mem member) outside
  · obtain ⟨worker, inside, rfl⟩ := List.mem_map.mp member
    rw [there, worker_of_mem inside]
    by_contra some
    exact missed (reached worker inside some)

theorem handlers_reached {worker : HookWorker V} (member : worker ∈ pool.workers) (some : worker.handlers ≠ []) :
    worker.id ∈ pool.targets := by
  obtain ⟨n, heard, same⟩ := pool.heard worker member some
  exact mem_targets.2 (Or.inr ⟨n, heard, same.symm⟩)

theorem fills_reached {worker : HookWorker V} (member : worker ∈ pool.workers) (some : worker.fills ≠ []) :
    worker.id ∈ pool.targets := by
  obtain ⟨fill, inside⟩ := List.exists_mem_of_ne_nil _ some
  obtain ⟨record, found, home, hosts⟩ := pool.indexed worker member fill inside
  exact mem_targets.2 (Or.inl ⟨_, Record.mem_of_get found, hosts, home⟩)

/-- The results of all the fills that are fired, worker by worker. -/
def allFillResults : List (OrderedResult V) := pool.workers.flatMap fun worker => fillResults phase worker.fills

theorem allFillResults_home {pool : HookPool V} {phase : Option JSString} {worker : HookWorker V}
    (member : worker ∈ pool.workers) {entry : OrderedResult V} (inside : entry ∈ fillResults phase worker.fills) :
    ∃ record, pool.records.get entry.mod = some record ∧ record.home = worker.id := by
  obtain ⟨fill, filled, same⟩ := fillResults_mem inside
  obtain ⟨record, found, home, -⟩ := pool.indexed worker member fill filled
  exact ⟨record, same ▸ found, home⟩

/-- The fills of a mod are all on one worker, so its results are numbered upwards across the pool. -/
theorem allFillResults_ascending :
    (pool.allFillResults phase).Pairwise fun a b => a.mod = b.mod → a.index < b.index := by
  refine List.pairwise_flatMap.mpr ⟨fun worker _ => tagResults_ascending .., ?_⟩
  refine (List.pairwise_map.mp pool.distinctWorkers).imp_of_mem fun first second apart a inA b inB same => ?_
  obtain ⟨record, found, home⟩ := allFillResults_home first inA
  obtain ⟨other, foundB, homeB⟩ := allFillResults_home second inB
  obtain rfl := Option.some.inj (found.symm.trans ((congrArg pool.records.get same).trans foundB))
  exact absurd (home.symm.trans homeB) apart

theorem loaded_perm : pool.loaded.Perm pool.records := List.mergeSort_perm ..

theorem loaded_ascending : pool.loaded.Pairwise fun a b => a.2.loadSeq < b.2.loadSeq :=
  mergeSort_ascending (fun entry : JSString × ModRecord => entry.2.loadSeq) pool.distinctLoads

theorem registered_perm : pool.registered.Perm (pool.workers.flatMap HookWorker.handlers) := List.mergeSort_perm ..

theorem registered_ascending : pool.registered.Pairwise fun a b => a.seq < b.seq :=
  mergeSort_ascending HookHandler.seq pool.distinctSeqs

/-- The results in the order of their keys. -/
def keyedInOrder : List (MergeKey × V) :=
  (firedHandlers pool.definition phase pool.registered).map HookHandler.keyed ++
    (pool.loaded.flatMap fun entry => (pool.allFillResults phase).filter fun result => result.mod = entry.1).map
      (OrderedResult.keyed pool.seqOf)

theorem segments_perm : ((pool.targets.flatMap (pool.segment phase)).map (OrderedResult.keyed pool.seqOf)).Perm
    (pool.keyedInOrder phase) := by
  have parts : pool.segment phase = fun id =>
      pool.there (fun worker => handlerResults pool.definition phase worker.handlers) id ++
        pool.there (fun worker => fillResults phase worker.fills) id := by
    funext id
    rw [segment, there, there]
    cases pool.worker id <;> rfl
  have handlers : (pool.targets.flatMap (pool.there fun worker =>
      handlerResults pool.definition phase worker.handlers)).Perm
      (pool.workers.flatMap fun worker => handlerResults pool.definition phase worker.handlers) := by
    refine targets_have fun worker member some => pool.handlers_reached member fun none => some ?_
    rw [none]
    rfl
  have fills : (pool.targets.flatMap (pool.there fun worker => fillResults phase worker.fills)).Perm
      (pool.allFillResults phase) := by
    refine targets_have fun worker member some => pool.fills_reached member fun none => some ?_
    rw [none, fillResults, firedFills]
    split <;> rfl
  have grouped : (pool.allFillResults phase).Perm (pool.loaded.flatMap fun entry =>
      (pool.allFillResults phase).filter fun result => result.mod = entry.1) := by
    have keys : pool.loaded.keys.Nodup := (pool.loaded_perm.map _).nodup_iff.mpr pool.distinctMods
    refine (perm_flatMap_filter OrderedResult.mod keys fun result inside => ?_).trans (.of_eq ?_)
    · obtain ⟨worker, member, inside⟩ := List.mem_flatMap.mp inside
      obtain ⟨record, found, -⟩ := allFillResults_home member inside
      exact (pool.loaded_perm.map _).mem_iff.mpr (Record.mem_keys_of_get found)
    · exact List.flatMap_map ..
  rw [parts]
  refine ((List.flatMap_append_perm _ _ _).symm.map _).trans ?_
  rw [List.map_append]
  refine ((handlers.map _).trans ?_).append ((fills.trans grouped).map _)
  rw [List.map_flatMap]
  simp only [keyed_handlerResults]
  rw [← List.map_flatMap]
  refine List.Perm.map _ ?_
  simp only [firedHandlers]
  rw [← List.filter_flatMap]
  exact pool.registered_perm.symm.filter _

theorem key_of_loaded {pool : HookPool V} {phase : Option JSString} {entry : JSString × ModRecord}
    (member : entry ∈ pool.loaded) {result : OrderedResult V}
    (inside : result ∈ (pool.allFillResults phase).filter fun result => result.mod = entry.1) :
    result.key pool.seqOf = toLex (true, toLex (entry.2.loadSeq, result.index)) := by
  obtain ⟨inside, same⟩ := List.mem_filter.mp inside
  obtain ⟨worker, -, filled⟩ := List.mem_flatMap.mp inside
  have found : pool.records.get result.mod = some entry.2 := by
    rw [of_decide_eq_true same]
    exact Record.get_of_mem pool.distinctMods (pool.loaded_perm.mem_iff.mp member)
  rw [OrderedResult.key, fillResults_seq filled, seqOf, found]
  rfl

theorem keyedInOrder_ascending : (pool.keyedInOrder phase).Pairwise fun a b => a.1 < b.1 := by
  refine List.pairwise_append.mpr ⟨?_, List.pairwise_map.mpr (List.pairwise_flatMap.mpr ⟨fun entry member => ?_, ?_⟩),
    fun a inA b inB => ?_⟩
  · refine List.pairwise_map.mpr ((pool.registered_ascending.sublist List.filter_sublist).imp fun before => ?_)
    exact Prod.Lex.toLex_lt_toLex.mpr (Or.inr ⟨rfl, Prod.Lex.toLex_lt_toLex.mpr (Or.inl before)⟩)
  · refine ((pool.allFillResults_ascending phase).filter _).imp_of_mem fun {a b} inA inB before => ?_
    show a.key pool.seqOf < b.key pool.seqOf
    rw [key_of_loaded member inA, key_of_loaded member inB]
    have same : a.mod = b.mod :=
      (of_decide_eq_true (List.mem_filter.mp inA).2).trans (of_decide_eq_true (List.mem_filter.mp inB).2).symm
    exact Prod.Lex.toLex_lt_toLex.mpr (Or.inr ⟨rfl, Prod.Lex.toLex_lt_toLex.mpr (Or.inr ⟨rfl, before same⟩)⟩)
  · refine pool.loaded_ascending.imp_of_mem fun {first second} inFirst inSecond before a inA b inB => ?_
    show a.key pool.seqOf < b.key pool.seqOf
    rw [key_of_loaded inFirst inA, key_of_loaded inSecond inB]
    exact Prod.Lex.toLex_lt_toLex.mpr (Or.inr ⟨rfl, Prod.Lex.toLex_lt_toLex.mpr (Or.inl before)⟩)
  · obtain ⟨handler, -, rfl⟩ := List.mem_map.mp inA
    obtain ⟨result, inside, rfl⟩ := List.mem_map.mp inB
    obtain ⟨entry, member, inside⟩ := List.mem_flatMap.mp inside
    show handler.keyed.1 < result.key pool.seqOf
    rw [key_of_loaded member inside]
    exact Prod.Lex.toLex_lt_toLex.mpr (Or.inl rfl)

/-- The values a mod's fills return, read off the results or off the fills. -/
theorem fill_values (mod : JSString) :
    ((pool.allFillResults phase).filter fun result => result.mod = mod).map OrderedResult.value =
      ((firedFills phase (pool.workers.flatMap HookWorker.fills)).filter fun fill => fill.mod = mod).map HookFill.value := by
  have same : (pool.allFillResults phase).map (fun result => (result.mod, result.value)) =
      (firedFills phase (pool.workers.flatMap HookWorker.fills)).map fun fill => (fill.mod, fill.value) := by
    rw [allFillResults, List.map_flatMap]
    simp only [fillResults_mods]
    rw [← List.map_flatMap]
    refine congrArg _ ?_
    cases phase with
    | none => rfl
    | some phase => exact List.flatMap_eq_nil_iff.mpr fun _ _ => rfl
  have picked := congrArg (fun pairs => (pairs.filter fun pair => pair.1 = mod).map Prod.snd) same
  simp only [List.filter_map, List.map_map] at picked
  exact picked

theorem values_keyedInOrder : (pool.keyedInOrder phase).map Prod.snd = pool.inOrder phase := by
  rw [keyedInOrder, inOrder, List.map_append, List.map_map, List.map_map]
  refine congrArg₂ (· ++ ·) rfl ?_
  have fills : firedFills phase pool.loadedFills = pool.loaded.flatMap fun entry =>
      (firedFills phase (pool.workers.flatMap HookWorker.fills)).filter fun fill => fill.mod = entry.1 := by
    cases phase with
    | none => rfl
    | some phase => exact (List.flatMap_eq_nil_iff.mpr fun _ _ => rfl).symm
  rw [fills, List.map_flatMap, List.map_flatMap]
  exact List.flatMap_congr fun entry _ => pool.fill_values phase entry.1

theorem merged_inOrder :
    ((((pool.targets.flatMap (pool.segment phase)).map (OrderedResult.keyed pool.seqOf)).mergeSort fun a b =>
      a.1 ≤ b.1).map Prod.snd) = pool.inOrder phase := by
  rw [mergeSort_unique Prod.fst (pool.segments_perm phase) (pool.keyedInOrder_ascending phase), values_keyedInOrder]

/-- What a worker answers a fire with: its failure, or its results. -/
def answer (failure : WorkerId → Option E) (id : WorkerId) : Except E (List (OrderedResult V)) :=
  match failure id with
  | some e => .error e
  | none => .ok (pool.segment phase id)

/-- What a fire of the hook comes to: the failure of the first of its workers that fails, or else all the results. -/
def outcome (failure : WorkerId → Option E) : Except E (List V) :=
  match pool.targets.findSome? failure with
  | some e => .error e
  | none => .ok (pool.inOrder phase)

theorem collectSegments_answers (failure : WorkerId → Option E) (ids : List WorkerId) :
    collectSegments pool.seqOf (ids.map fun id => some (pool.answer phase failure id)) =
      match ids.findSome? failure with
      | some e => .error e
      | none => .ok ((ids.flatMap (pool.segment phase)).map (OrderedResult.keyed pool.seqOf)) := by
  induction ids with
  | nil => rfl
  | cons id ids ih =>
    rw [List.map_cons, List.findSome?_cons, answer]
    cases failed : failure id with
    | some e => rfl
    | none =>
      rw [collectSegments, ih]
      cases ids.findSome? failure with
      | some e => rfl
      | none => exact congrArg Except.ok (by rw [List.flatMap_cons, List.map_append])

theorem mergeSegments_answers (failure : WorkerId → Option E) :
    mergeSegments (pool.targets.map fun id => some (pool.answer phase failure id)) pool.seqOf =
      pool.outcome phase failure := by
  rw [mergeSegments, collectSegments_answers, outcome]
  cases pool.targets.findSome? failure with
  | some e => rfl
  | none => exact congrArg Except.ok (pool.merged_inOrder phase)

end HookPool

end Xript
