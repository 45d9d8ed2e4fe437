import Xript.Pool.Answers

namespace Xript

/-- Where the runtime thread of a worker is in its command loop. -/
inductive RuntimePhase where
  | idle
  | dequeued (call : Nat)
  | checked (call : Nat)
  | recorded (call : Nat)
  | running (call : Nat)
  | replied (call : Nat)

/-- A worker with its runtime thread: the commands sent and not received, whether it was killed, and the calls that
have begun to run. -/
structure RunningWorker where
  pool : Worker
  commands : List Nat
  killed : Bool
  phase : RuntimePhase
  begun : List Nat

inductive WorkerEvent where
  /-- A step of another thread. -/
  | pool (event : PoolEvent)
  | kill
  | receive
  /-- `shed_if_cancelled`. -/
  | check
  | record
  | dispatch
  | reply
  | forget

namespace RunningWorker

def start : RunningWorker := ⟨.start, [], false, .idle, []⟩

def tokenCancelled (s : RunningWorker) (call : Nat) : Bool := s.pool.calls[call]?.any AdmittedCall.cancelled

/-- One step of the command loop of `run_blocking`, or of a thread beside it. -/
def step (s : RunningWorker) : WorkerEvent → Option RunningWorker
  -- What the runtime thread does is not done by another.
  | .pool (.complete _) | .pool (.record _) | .pool (.forget _) => none
  | .pool .build =>
    (s.pool.step .build).map fun pool => { s with pool := pool, commands := s.commands ++ [s.pool.calls.length] }
  | .pool event => (s.pool.step event).map fun pool => { s with pool := pool }
  | .kill => some { s with killed := true }
  | .receive =>
    match s.phase, s.commands with
    | .idle, call :: commands => some { s with commands := commands, phase := .dequeued call }
    | _, _ => none
  | .check =>
    match s.phase with
    | .dequeued call =>
      if s.tokenCancelled call || s.killed then
        (s.pool.step (.complete call)).map fun pool => { s with pool := pool, phase := .idle }
      else some { s with phase := .checked call }
    | _ => none
  | .record =>
    match s.phase with
    | .checked call => (s.pool.step (.record call)).map fun pool => { s with pool := pool, phase := .recorded call }
    | _ => none
  | .dispatch =>
    match s.phase with
    | .recorded call => some { s with phase := .running call, begun := s.begun ++ [call] }
    | _ => none
  | .reply =>
    match s.phase with
    | .running call => (s.pool.step (.complete call)).map fun pool => { s with pool := pool, phase := .replied call }
    | _ => none
  | .forget =>
    match s.phase with
    | .replied call => (s.pool.step (.forget call)).map fun pool => { s with pool := pool, phase := .idle }
    | _ => none

/-- The pool has answered no call that has begun to run. -/
def NoneTouched (s : RunningWorker) : Prop :=
  ∀ (call : Nat) (x : AdmittedCall), s.pool.calls[call]? = some x → .pool ∈ x.answers → call ∉ s.begun

/-- The runtime thread has found the token of a call untripped. -/
def Passed (s : RunningWorker) (call : Nat) : Prop :=
  s.phase = .checked call ∨ s.phase = .recorded call ∨ call ∈ s.begun

/-- A pass settles a call whose token the runtime thread has checked, or the token of a call is checked between the
moment a pass settles the call and the moment it trips the token. -/
def Races (taken : RunningWorker × WorkerEvent) : Prop :=
  match taken.2 with
  | .pool (.claim pass) =>
    ∃ p call x, taken.1.pool.passes[pass]? = some p ∧ p.call = some call ∧ taken.1.pool.calls[call]? = some x ∧
      x.settled = false ∧ taken.1.Passed call
  | .check =>
    ∃ call x, taken.1.phase = .dequeued call ∧ taken.1.pool.calls[call]? = some x ∧
      (x.shedding = .won ∨ x.shedding = .lowered) ∧ x.cancelled = false ∧ taken.1.killed = false
  | _ => False

/-- A call that was sent to the runtime thread. -/
def Sent (s : RunningWorker) (call : Nat) : Prop :=
  call ∈ s.commands ∨ s.phase = .dequeued call ∨ s.Passed call

variable {s t : RunningWorker}

theorem step_pool {event : PoolEvent} (taken : s.step (.pool event) = some t) :
    ∃ pool commands, s.pool.step event = some pool ∧ t = { s with pool := pool, commands := commands } ∧
      (∀ call, event ≠ .complete call) ∧
      (commands = s.commands ∨ event = .build ∧ commands = s.commands ++ [s.pool.calls.length]) := by
  cases event with
  | complete _ | record _ | forget _ => cases taken
  | build =>
    obtain rfl := Option.some.inj taken
    exact ⟨_, _, rfl, rfl, nofun, Or.inr ⟨rfl, rfl⟩⟩
  | answerQueued limit =>
    obtain rfl := Option.some.inj taken
    exact ⟨_, _, rfl, rfl, nofun, Or.inl rfl⟩
  | _ =>
    obtain ⟨pool, stepped, rfl⟩ := Option.map_eq_some_iff.mp taken
    exact ⟨pool, _, stepped, rfl, nofun, Or.inl rfl⟩

/-- No pass has settled a call that the runtime thread goes on with. -/
structure Clear (s : RunningWorker) : Prop where
  kept : s.pool.Kept
  traced : ∀ x ∈ s.pool.calls, x.Traced
  known : ∀ call, s.Sent call → call < s.pool.calls.length
  apart : ∀ (call : Nat) (x : AdmittedCall), s.pool.calls[call]? = some x → x.shedding.isWon = true → ¬ s.Passed call

theorem Clear.start : start.Clear where
  kept := .start
  traced _ none := nomatch none
  known _ sent := by rcases sent with none | none | none | none | none <;> cases none
  apart _ _ none := nomatch none

theorem Clear.untouched (clear : s.Clear) : s.NoneTouched := by
  intro call x here answered begun
  have finished := (clear.traced x (List.mem_of_getElem? here)).failed answered
  exact clear.apart call x here (by rw [finished]; rfl) (Or.inr (Or.inr begun))

/-- A step of the pool keeps the worker clear, unless a pass settles there a call whose token was checked. -/
theorem Clear.pool (clear : s.Clear) {event : PoolEvent} {pool : Worker} (taken : s.pool.step event = some pool)
    (calm : ∀ pass p call x, event = .claim pass → s.pool.passes[pass]? = some p → p.call = some call →
      s.pool.calls[call]? = some x → x.settled = false → ¬ s.Passed call)
    {commands : List Nat} {phase : RuntimePhase}
    (sent : ∀ call ∈ commands, call ∈ s.commands ∨ event = .build ∧ call = s.pool.calls.length)
    (goes : phase = s.phase ∨ ∀ call, phase ≠ .dequeued call ∧ phase ≠ .checked call ∧ phase ≠ .recorded call) :
    Clear { s with pool := pool, commands := commands, phase := phase } := by
  have narrows : ∀ call, Passed { s with pool := pool, commands := commands, phase := phase } call → s.Passed call := by
    rintro call (checked | recorded | begun)
    · exact Or.inl (goes.elim (fun same => same ▸ checked) fun others => absurd checked (others call).2.1)
    · exact Or.inr (Or.inl (goes.elim (fun same => same ▸ recorded) fun others => absurd recorded (others call).2.2))
    · exact Or.inr (Or.inr begun)
  have sends : ∀ call, Sent { s with pool := pool, commands := commands, phase := phase } call →
      s.Sent call ∨ event = .build ∧ call = s.pool.calls.length := by
    rintro call (waiting | dequeued | passed)
    · exact (sent call waiting).imp_left Or.inl
    · exact Or.inl (Or.inr (Or.inl (goes.elim (fun same => same ▸ dequeued) fun others => absurd dequeued (others call).1)))
    · exact Or.inl (Or.inr (Or.inr (narrows call passed)))
  have kept := clear.kept.step taken
  obtain ⟨longer, built⟩ := Worker.step_length taken
  refine ⟨kept, fun y member => ?_, fun call now => ?_, fun call y there won now => ?_⟩
  · obtain ⟨call, there⟩ := List.mem_iff_getElem?.mp member
    rcases clear.kept.call_before taken there with ⟨-, rfl⟩ | ⟨x, here, rfl | ⟨access, moved, -⟩⟩
    · exact ⟨nofun, nofun⟩
    · exact clear.traced y (List.mem_of_getElem? here)
    · exact (clear.traced x (List.mem_of_getElem? here)).access moved
  · rcases sends call now with old | ⟨rfl, rfl⟩
    · exact Nat.lt_of_lt_of_le (clear.known call old) longer
    · show s.pool.calls.length < pool.calls.length
      rw [built rfl]
      exact Nat.lt_succ_self _
  · have passed := narrows call now
    rcases clear.kept.call_before taken there with ⟨rfl, -⟩ | ⟨x, here, rfl | ⟨access, -, move, claims⟩⟩
    · exact Nat.lt_irrefl _ (clear.known _ (Or.inr (Or.inr passed)))
    · exact clear.apart call y here won passed
    · rcases move.won won with already | ⟨rfl, removed, first⟩
      · exact clear.apart call x here already passed
      · obtain ⟨pass, p, rfl, atPass, inHand⟩ := claims rfl
        have unset : x.settled = false := by
          rw [(clear.kept.sound x (List.mem_of_getElem? here)).settled, removed, first]
          rfl
        exact calm pass p call x rfl atPass inHand here unset passed

/-- The runtime thread goes on in its loop without a step of the pool. -/
theorem Clear.phase (clear : s.Clear) {commands begun : List Nat} {phase : RuntimePhase}
    (sent : ∀ call, Sent { s with commands := commands, phase := phase, begun := begun } call → s.Sent call)
    (passes : ∀ (call : Nat) (x : AdmittedCall), s.pool.calls[call]? = some x → x.shedding.isWon = true →
      Passed { s with commands := commands, phase := phase, begun := begun } call → s.Passed call) :
    Clear { s with commands := commands, phase := phase, begun := begun } :=
  { clear with
    known := fun call now => clear.known call (sent call now)
    apart := fun call x here won now => clear.apart call x here won (passes call x here won now) }

/-- A step that is no race keeps the worker clear. -/
theorem Clear.step (clear : s.Clear) {event : WorkerEvent} (calm : ¬ Races (s, event))
    (taken : s.step event = some t) : t.Clear := by
  cases event with
  | pool event =>
    obtain ⟨pool, commands, stepped, rfl, -, sent⟩ := step_pool taken
    refine clear.pool stepped ?_ (fun call member => ?_) (Or.inl rfl)
    · rintro pass p call x rfl atPass inHand here unset passed
      exact calm ⟨p, call, x, atPass, inHand, here, unset, passed⟩
    · rcases sent with rfl | ⟨rfl, rfl⟩
      · exact Or.inl member
      · exact (List.mem_append.mp member).imp_right fun newest => ⟨rfl, List.mem_singleton.mp newest⟩
  | kill =>
    obtain rfl := Option.some.inj taken
    exact { clear with }
  | receive =>
    rw [RunningWorker.step] at taken
    split at taken
    · rename_i call commands _ waiting
      obtain rfl := Option.some.inj taken
      have inside : ∀ other, other ∈ call :: commands → other ∈ s.commands := by
        rw [waiting]
        exact fun _ => id
      refine clear.phase ?_ ?_
      · rintro other (later | received | none | none | begun)
        · exact Or.inl (inside other (List.mem_cons_of_mem _ later))
        · obtain rfl := RuntimePhase.dequeued.inj received
          exact Or.inl (inside _ (List.mem_cons_self ..))
        · cases none
        · cases none
        · exact Or.inr (Or.inr (Or.inr (Or.inr begun)))
      · rintro other x here won (none | none | begun)
        · cases none
        · cases none
        · exact Or.inr (Or.inr begun)
    · cases taken
  | check =>
    rw [RunningWorker.step] at taken
    split at taken
    · rename_i call received
      split at taken
      · obtain ⟨pool, stepped, rfl⟩ := Option.map_eq_some_iff.mp taken
        exact clear.pool stepped (fun _ _ _ _ claims => nomatch claims) (fun _ => Or.inl) (Or.inr fun _ => ⟨nofun, nofun, nofun⟩)
      · rename_i goes
        obtain rfl := Option.some.inj taken
        rw [Bool.or_eq_true, not_or, Bool.not_eq_true, Bool.not_eq_true] at goes
        refine clear.phase ?_ ?_
        · rintro other (later | none | checked | none | begun)
          · exact Or.inl later
          · cases none
          · obtain rfl := RuntimePhase.checked.inj checked
            exact Or.inr (Or.inl received)
          · cases none
          · exact Or.inr (Or.inr (Or.inr (Or.inr begun)))
        · rintro other x here won (checked | none | begun)
          · obtain rfl := RuntimePhase.checked.inj checked
            have untripped : x.cancelled = false := by
              have token := goes.1
              rw [tokenCancelled, here] at token
              exact token
            refine absurd ⟨call, x, received, here, ?_, untripped, goes.2⟩ calm
            have traced := clear.traced x (List.mem_of_getElem? here)
            cases shed : x.shedding <;> rw [shed] at won
            case untouched | removed | lost => cases won
            case won => exact Or.inl rfl
            case lowered => exact Or.inr rfl
            case cancelled => cases untripped.symm.trans (traced.tripped (Or.inl shed))
            case finished => cases untripped.symm.trans (traced.tripped (Or.inr shed))
          · cases none
          · exact Or.inr (Or.inr begun)
    · cases taken
  | record =>
    rw [RunningWorker.step] at taken
    split at taken
    · rename_i call checked
      obtain rfl := Option.some.inj taken
      have stepped : s.pool.step (.record call) = some _ := rfl
      have recorded := clear.pool stepped (fun _ _ _ _ claims => nomatch claims) (fun _ => Or.inl) (Or.inl rfl)
      refine recorded.phase ?_ ?_
      · rintro other (later | none | none | is | begun)
        · exact Or.inl later
        · cases none
        · cases none
        · obtain rfl := RuntimePhase.recorded.inj is
          exact Or.inr (Or.inr (Or.inl checked))
        · exact Or.inr (Or.inr (Or.inr (Or.inr begun)))
      · rintro other x here won (none | is | begun)
        · cases none
        · obtain rfl := RuntimePhase.recorded.inj is
          exact Or.inl checked
        · exact Or.inr (Or.inr begun)
    · cases taken
  | dispatch =>
    rw [RunningWorker.step] at taken
    split at taken
    · rename_i call recorded
      obtain rfl := Option.some.inj taken
      have passed : s.Passed call := Or.inr (Or.inl recorded)
      have older : ∀ other, other ∈ s.begun ++ [call] → s.Passed other := by
        intro other member
        rcases List.mem_append.mp member with old | newest
        · exact Or.inr (Or.inr old)
        · rw [List.mem_singleton.mp newest]
          exact passed
      refine clear.phase ?_ ?_
      · rintro other (later | none | none | none | begun)
        · exact Or.inl later
        · cases none
        · cases none
        · cases none
        · exact Or.inr (Or.inr (older other begun))
      · rintro other x here won (none | none | begun)
        · cases none
        · cases none
        · exact older other begun
    · cases taken
  | reply =>
    rw [RunningWorker.step] at taken
    split at taken
    · obtain ⟨pool, stepped, rfl⟩ := Option.map_eq_some_iff.mp taken
      exact clear.pool stepped (fun _ _ _ _ claims => nomatch claims) (fun _ => Or.inl) (Or.inr fun _ => ⟨nofun, nofun, nofun⟩)
    · cases taken
  | forget =>
    rw [RunningWorker.step] at taken
    split at taken
    · obtain ⟨pool, stepped, rfl⟩ := Option.map_eq_some_iff.mp taken
      exact clear.pool stepped (fun _ _ _ _ claims => nomatch claims) (fun _ => Or.inl) (Or.inr fun _ => ⟨nofun, nofun, nofun⟩)
    · cases taken

theorem clear_of_run {trace : List (RunningWorker × WorkerEvent)} (run : Runs step .start trace s)
    (calm : ∀ taken ∈ trace, ¬ Races taken) : s.Clear ∧ ∀ taken ∈ trace, taken.1.Clear := by
  induction run with
  | start => exact ⟨.start, fun _ none => nomatch none⟩
  | next run event taken ih =>
    obtain ⟨latest, earlier⟩ := List.forall_mem_cons.mp calm
    obtain ⟨clear, before⟩ := ih earlier
    exact ⟨clear.step latest taken, List.forall_mem_cons.mpr ⟨clear, before⟩⟩

/-- The calls the runtime thread has not replied to yet, the one it is at first. -/
def pending (s : RunningWorker) : List Nat :=
  match s.phase with
  | .dequeued call | .checked call | .recorded call | .running call => call :: s.commands
  | _ => s.commands

/-- The runtime thread replies to each call once, when it comes to it. -/
structure Fresh (s : RunningWorker) : Prop where
  kept : s.pool.Kept
  nodup : s.pending.Nodup
  empty : ∀ call ∈ s.pending, ∃ x, s.pool.calls[call]? = some x ∧ x.slot = .empty

theorem slot_access {x y : AdmittedCall} {access : CallAccess} (apart : access ≠ .complete)
    (taken : x.access access = some y) (empty : x.slot = .empty) : y.slot = .empty := by
  cases access with
  | complete => exact absurd rfl apart
  | count | push | lower | retain | settle | remove | claim | lowerShed | trip | fail =>
    obtain ⟨-, rfl⟩ := AdmittedCall.then_of_ite taken
    exact empty
  | cancel =>
    obtain rfl := Option.some.inj taken
    exact empty
  | register =>
    obtain ⟨-, taken⟩ := Option.ite_none_right_eq_some.mp taken
    split at taken
    · rename_i ready
      cases empty.symm.trans ready
    · obtain rfl := Option.some.inj taken
      exact empty
  | deliver =>
    rw [AdmittedCall.access] at taken
    split at taken
    · obtain rfl := Option.some.inj taken
      exact empty
    · obtain rfl := Option.some.inj taken
      exact empty
    · cases taken

/-- A step of the pool leaves the slot of a call empty unless it completes that call. -/
theorem slot_step {pool next : Worker} {event : PoolEvent} (taken : pool.step event = some next) {call : Nat}
    (apart : event ≠ .complete call) (empty : ∃ x, pool.calls[call]? = some x ∧ x.slot = .empty) :
    ∃ x, next.calls[call]? = some x ∧ x.slot = .empty := by
  obtain ⟨x, here, slot⟩ := empty
  rcases Worker.step_calls taken with same | ⟨-, grown⟩ | ⟨other, access, z, y, there, moved, set, -, completes, -⟩
  · rw [same]
    exact ⟨x, here, slot⟩
  · rw [grown, List.getElem?_append_left (List.getElem?_eq_some_iff.mp here).1]
    exact ⟨x, here, slot⟩
  · rw [set]
    by_cases own : call = other
    · rw [← own] at there
      obtain rfl := Option.some.inj (there.symm.trans here)
      rw [← own, List.getElem?_set_self (List.getElem?_eq_some_iff.mp there).1]
      refine ⟨y, rfl, slot_access (fun complete => apart ?_) moved slot⟩
      rw [completes complete, own]
    · rw [List.getElem?_set_ne fun same => own same.symm]
      exact ⟨x, here, slot⟩

theorem Fresh.pool (fresh : s.Fresh) {event : PoolEvent} (taken : s.pool.step event = some t.pool)
    (nodup : t.pending.Nodup) (older : ∀ call ∈ t.pending, call ∈ s.pending ∧ event ≠ .complete call ∨
      event = .build ∧ call = s.pool.calls.length) : t.Fresh := by
  refine ⟨fresh.kept.step taken, nodup, fun call member => ?_⟩
  rcases older call member with ⟨old, apart⟩ | ⟨rfl, rfl⟩
  · exact slot_step taken apart (fresh.empty call old)
  · have built : t.pool.calls = s.pool.calls ++ [AdmittedCall.built] := congrArg Worker.calls (Option.some.inj taken).symm
    rw [built]
    exact ⟨_, List.getElem?_concat_length, rfl⟩

theorem Fresh.same (fresh : s.Fresh) (pool : t.pool = s.pool) (pending : t.pending = s.pending) : t.Fresh := by
  refine ⟨pool ▸ fresh.kept, pending ▸ fresh.nodup, ?_⟩
  rw [pool, pending]
  exact fresh.empty

/-- The runtime thread replies to the first of its calls. -/
theorem Fresh.reply (fresh : s.Fresh) {call : Nat} (first : s.pending = call :: s.commands)
    (taken : s.pool.step (.complete call) = some t.pool) (pending : t.pending = s.commands) : t.Fresh := by
  have nodup := fresh.nodup
  rw [first] at nodup
  obtain ⟨outside, rest⟩ := List.nodup_cons.mp nodup
  refine fresh.pool taken (pending ▸ rest) fun other member => Or.inl ⟨?_, ?_⟩
  · rw [first]
    exact List.mem_cons_of_mem _ (pending ▸ member)
  · rintro same
    obtain rfl := PoolEvent.complete.inj same
    exact outside (pending ▸ member)

theorem Fresh.start : start.Fresh where
  kept := .start
  nodup := List.nodup_nil
  empty _ none := nomatch none

theorem Fresh.step (fresh : s.Fresh) {event : WorkerEvent} (taken : s.step event = some t) : t.Fresh := by
  cases event with
  | pool event =>
    obtain ⟨pool, commands, stepped, rfl, apart, sent⟩ := step_pool taken
    rcases sent with rfl | ⟨rfl, rfl⟩
    · exact fresh.pool stepped fresh.nodup fun call member => Or.inl ⟨member, apart call⟩
    · have grown : pending { s with pool := pool, commands := s.commands ++ [s.pool.calls.length] } =
          s.pending ++ [s.pool.calls.length] := by
        simp only [pending]
        cases s.phase <;> rfl
      have unused : s.pool.calls.length ∉ s.pending := by
        intro inside
        obtain ⟨x, here, -⟩ := fresh.empty _ inside
        exact Nat.lt_irrefl _ (List.getElem?_eq_some_iff.mp here).1
      refine fresh.pool stepped ?_ fun call member => ?_
      · rw [grown]
        exact List.nodup_append.mpr ⟨fresh.nodup, List.nodup_singleton _, fun a inside b single same =>
          unused (List.mem_singleton.mp single ▸ same ▸ inside)⟩
      · rw [grown] at member
        exact (List.mem_append.mp member).imp (fun old => ⟨old, apart call⟩) fun newest =>
          ⟨rfl, List.mem_singleton.mp newest⟩
  | kill =>
    obtain rfl := Option.some.inj taken
    exact fresh.same rfl rfl
  | receive =>
    rw [RunningWorker.step] at taken
    split at taken
    · rename_i call commands idle waiting
      obtain rfl := Option.some.inj taken
      refine fresh.same rfl ?_
      rw [pending, pending, idle]
      exact waiting.symm
    · cases taken
  | check =>
    rw [RunningWorker.step] at taken
    split at taken
    · rename_i call received
      have first : s.pending = call :: s.commands := by rw [pending, received]
      split at taken
      · obtain ⟨pool, stepped, rfl⟩ := Option.map_eq_some_iff.mp taken
        exact fresh.reply first stepped rfl
      · obtain rfl := Option.some.inj taken
        exact fresh.same rfl first.symm
    · cases taken
  | record =>
    rw [RunningWorker.step] at taken
    split at taken
    · rename_i call checked
      have first : s.pending = call :: s.commands := by rw [pending, checked]
      obtain ⟨pool, stepped, rfl⟩ := Option.map_eq_some_iff.mp taken
      refine fresh.pool stepped ?_ fun other member => Or.inl ⟨?_, nofun⟩
      · show (call :: s.commands).Nodup
        rw [← first]
        exact fresh.nodup
      · rw [first]
        exact member
    · cases taken
  | dispatch =>
    rw [RunningWorker.step] at taken
    split at taken
    · rename_i call recorded
      obtain rfl := Option.some.inj taken
      refine fresh.same rfl ?_
      rw [pending, pending, recorded]
    · cases taken
  | reply =>
    rw [RunningWorker.step] at taken
    split at taken
    · rename_i call running
      have first : s.pending = call :: s.commands := by rw [pending, running]
      obtain ⟨pool, stepped, rfl⟩ := Option.map_eq_some_iff.mp taken
      exact fresh.reply first stepped rfl
    · cases taken
  | forget =>
    rw [RunningWorker.step] at taken
    split at taken
    · rename_i call replied
      have same : s.pending = s.commands := by rw [pending, replied]
      obtain ⟨pool, stepped, rfl⟩ := Option.map_eq_some_iff.mp taken
      exact fresh.pool stepped (same ▸ fresh.nodup) fun other member => Or.inl ⟨same ▸ member, nofun⟩
    · cases taken

theorem fresh_of_run {trace : List (RunningWorker × WorkerEvent)} (run : Runs step .start trace s) : s.Fresh :=
  run.invariant .start fun _ _ _ fresh taken => fresh.step taken

/-- What a pass that has settled a call leads to, where the completer is still held: the pool answers. -/
theorem pass_answers {pass call : Nat} {p : ShedPass} {x : AdmittedCall} (atPass : s.pool.passes[pass]? = some p)
    (inHand : p.call = some call) (here : s.pool.calls[call]? = some x) (held : x.held = true)
    (shed : x.shedding = .won ∨ x.shedding = .lowered ∨ x.shedding = .cancelled) :
    ∃ later t, Runs step s later t ∧ t.phase = s.phase ∧ t.begun = s.begun ∧
      ∃ y, t.pool.calls[call]? = some y ∧ .pool ∈ y.answers := by
  have bound := (List.getElem?_eq_some_iff.mp here).1
  have bound' := (List.getElem?_eq_some_iff.mp atPass).1
  have fails : ∀ {u : RunningWorker} {z : AdmittedCall}, u.pool.passes[pass]? = some p → u.pool.calls[call]? = some z →
      z.held = true → z.shedding = .cancelled → ∃ later t, Runs RunningWorker.step u later t ∧ t.phase = u.phase ∧
        t.begun = u.begun ∧ ∃ y, t.pool.calls[call]? = some y ∧ .pool ∈ y.answers := by
    intro u z atPass here held shed
    have accessed : z.access .fail = some _ := if_pos shed
    have moved := Worker.onPass_some (fun _ p => { p with call := none, answered := p.answered + 1 }) atPass inHand
      here accessed
    have taken : u.step (.pool (.fail pass)) = some _ := Option.map_eq_some_iff.mpr ⟨_, moved, rfl⟩
    refine ⟨_, _, Runs.start.next _ taken, rfl, rfl, _, List.getElem?_set_self (List.getElem?_eq_some_iff.mp here).1, ?_⟩
    show .pool ∈ if z.held = true then z.answers ++ [AnsweredBy.pool] else z.answers
    rw [if_pos held]
    exact List.mem_append_right _ (List.mem_singleton_self _)
  have trips : ∀ {u : RunningWorker} {z : AdmittedCall}, u.pool.passes[pass]? = some p → u.pool.calls[call]? = some z →
      z.held = true → z.shedding = .lowered → ∃ later t, Runs RunningWorker.step u later t ∧ t.phase = u.phase ∧
        t.begun = u.begun ∧ ∃ y, t.pool.calls[call]? = some y ∧ .pool ∈ y.answers := by
    intro u z atPass here held shed
    have accessed : z.access .trip = some _ := if_pos shed
    have moved := Worker.onPass_some (fun _ p => p) atPass inHand here accessed
    have taken : u.step (.pool (.trip pass)) = some _ := Option.map_eq_some_iff.mpr ⟨_, moved, rfl⟩
    let tripped : AdmittedCall := { z with cancelled := true, shedding := .cancelled }
    obtain ⟨later, t, run, phase, begun, answered⟩ := fails (z := tripped)
      (u := { u with pool := { u.pool with
        calls := u.pool.calls.set call tripped, passes := u.pool.passes.set pass p } })
      (List.getElem?_set_self (List.getElem?_eq_some_iff.mp atPass).1)
      (List.getElem?_set_self (List.getElem?_eq_some_iff.mp here).1) held rfl
    obtain ⟨whole, run⟩ := run.after taken
    exact ⟨whole, t, run, phase, begun, answered⟩
  rcases shed with won | lowered | cancelled
  · have accessed : x.access .lowerShed = some _ := if_pos won
    have moved := Worker.onPass_some (fun _ p => p) atPass inHand here accessed
    have lowers : s.pool.step (.lowerShed pass) = some _ := Option.map_eq_some_iff.mpr ⟨_, moved, rfl⟩
    have taken : s.step (.pool (.lowerShed pass)) = some _ := Option.map_eq_some_iff.mpr ⟨_, lowers, rfl⟩
    let lowered : AdmittedCall := { x with shedding := .lowered }
    obtain ⟨later, t, run, phase, begun, answered⟩ := trips (z := lowered)
      (u := { s with pool := { s.pool with
        calls := s.pool.calls.set call lowered, depth := s.pool.depth - 1, passes := s.pool.passes.set pass p } })
      (List.getElem?_set_self bound') (List.getElem?_set_self bound) held rfl
    obtain ⟨whole, run⟩ := run.after taken
    exact ⟨whole, t, run, phase, begun, answered⟩
  · exact trips atPass here held lowered
  · exact fails atPass here held cancelled

/-- A call whose token was found untripped begins to run. -/
theorem passed_begins {call : Nat} (passed : s.Passed call) :
    ∃ later t, Runs step s later t ∧ call ∈ t.begun ∧ t.pool.calls = s.pool.calls := by
  have begins : ∀ {u : RunningWorker}, u.phase = .recorded call →
      ∃ t, u.step .dispatch = some t ∧ call ∈ t.begun ∧ t.pool.calls = u.pool.calls := by
    intro u recorded
    refine ⟨{ u with phase := .running call, begun := u.begun ++ [call] }, ?_, List.mem_append_right _ (by simp), rfl⟩
    rw [RunningWorker.step, recorded]
  rcases passed with checked | recorded | begun
  · have taken : s.step .record = some { s with
        pool := { s.pool with inFlight := s.pool.inFlight ++ [call] }, phase := .recorded call } := by
      rw [RunningWorker.step, checked]
      rfl
    obtain ⟨t, dispatched, begun, calls⟩ := begins (u := { s with
        pool := { s.pool with inFlight := s.pool.inFlight ++ [call] }, phase := .recorded call }) rfl
    exact ⟨_, t, (Runs.start.next _ taken).next _ dispatched, begun, calls⟩
  · obtain ⟨t, dispatched, begun, calls⟩ := begins recorded
    exact ⟨_, t, Runs.start.next _ dispatched, begun, calls⟩
  · exact ⟨_, s, .start, begun, rfl⟩

/-- A call that a pass has settled and that the runtime thread goes on with is answered by the pool and run. -/
theorem settled_passed_touched {pass call : Nat} {p : ShedPass} {x : AdmittedCall}
    (atPass : s.pool.passes[pass]? = some p) (inHand : p.call = some call) (here : s.pool.calls[call]? = some x)
    (held : x.held = true) (shed : x.shedding = .won ∨ x.shedding = .lowered) (passed : s.Passed call) :
    ∃ later t, Runs step s later t ∧ ¬ t.NoneTouched := by
  obtain ⟨later, t, run, phase, begun, y, there, answered⟩ :=
    pass_answers atPass inHand here held (shed.imp_right Or.inl)
  have still : t.Passed call := by
    unfold Passed
    rw [phase, begun]
    exact passed
  obtain ⟨further, u, rest, begins, calls⟩ := passed_begins still
  refine ⟨further ++ later, u, run.append rest, fun untouched => untouched call y ?_ answered begins⟩
  rw [calls]
  exact there

/-- After every race the worker can go on so that the pool answers a call that runs. -/
theorem race_touches {trace : List (RunningWorker × WorkerEvent)} (run : Runs step .start trace s) {event : WorkerEvent}
    (race : Races (s, event)) (taken : s.step event = some t) : ∃ later u, Runs step t later u ∧ ¬ u.NoneTouched := by
  have fresh := fresh_of_run run
  cases event with
  | pool event =>
    cases event with
    | claim pass =>
      obtain ⟨p, call, x, atPass, inHand, here, unset, passed⟩ := race
      obtain ⟨pool, claimed, rfl⟩ := Option.map_eq_some_iff.mp taken
      obtain ⟨p', call', x', y, atPass', inHand', here', moved, rfl⟩ := Worker.onPass_eq claimed
      obtain rfl := Option.some.inj (atPass.symm.trans atPass')
      obtain rfl := Option.some.inj (inHand.symm.trans inHand')
      obtain rfl := Option.some.inj (here.symm.trans here')
      obtain ⟨removed, rfl⟩ := AdmittedCall.then_of_ite moved
      have sound := fresh.kept.sound x (List.mem_of_getElem? here)
      have flag := sound.settled
      rw [unset, removed] at flag
      have first : x.replying.isWon = false := (flag.trans (Bool.or_false _)).symm
      have held : x.held = true := by
        refine sound.still_held (by rw [removed]; nofun) fun won finished => ?_
        cases won with
        | true => rw [finished] at first; cases first
        | false =>
          have second := sound.lostReply (Or.inr finished)
          rw [removed] at second
          cases second
      have kept : (s.pool.passes.set pass (if x.settled = true then { p with call := none } else p))[pass]? = some p := by
        rw [unset]
        exact List.getElem?_set_self (List.getElem?_eq_some_iff.mp atPass).1
      have there := List.getElem?_set_self (a := { x with
        settled := true, shedding := if x.settled = true then Shedding.lost else .won })
        (List.getElem?_eq_some_iff.mp here).1
      refine settled_passed_touched kept inHand there held (Or.inl ?_) passed
      show (if x.settled = true then Shedding.lost else .won) = .won
      rw [unset]
      rfl
    | _ => exact race.elim
  | check =>
    obtain ⟨call, x, received, here, shed, untripped, alive⟩ := race
    have goes : (s.tokenCancelled call || s.killed) = false := by
      rw [tokenCancelled, here, alive, Bool.or_false]
      exact untripped
    have checks : s.step .check = some { s with phase := .checked call } := by
      rw [RunningWorker.step, received]
      exact if_neg (by rw [goes]; decide)
    obtain rfl := Option.some.inj (checks.symm.trans taken)
    have sound := fresh.kept.sound x (List.mem_of_getElem? here)
    have held : x.held = true := by
      obtain ⟨z, there, empty⟩ := fresh.empty call (by rw [pending, received]; exact List.mem_cons_self ..)
      obtain rfl := Option.some.inj (here.symm.trans there)
      refine sound.still_held (by rcases shed with is | is <;> rw [is] <;> nofun) fun won finished => ?_
      have called := sound.called.mp (by rw [finished]; nofun)
      cases empty.symm.trans called
    have inHand : x.shedding.inHand = true := by rcases shed with is | is <;> rw [is] <;> rfl
    obtain ⟨p, member, hand⟩ := List.mem_filterMap.mp ((fresh.kept.hands.mem call).mpr ⟨x, here, inHand⟩)
    obtain ⟨pass, atPass⟩ := List.mem_iff_getElem?.mp member
    exact settled_passed_touched atPass hand here held shed (Or.inl rfl)
  | _ => exact race.elim

end RunningWorker

end Xript
