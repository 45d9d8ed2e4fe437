import Xript.Machine.Tally
import Xript.Pool.Calls

namespace Xript.Worker

variable {s t : Worker}

theorem onCall_eq {call : Nat} {access : CallAccess} (taken : s.onCall call access = some t) :
    ∃ x y, s.calls[call]? = some x ∧ x.access access = some y ∧ t = { s with calls := s.calls.set call y } := by
  obtain ⟨y, accessed, rfl⟩ := Option.map_eq_some_iff.mp taken
  obtain ⟨x, here, moved⟩ := Option.bind_eq_some_iff.mp accessed
  exact ⟨x, y, here, moved, rfl⟩

theorem onPass_eq {pass : Nat} {access : CallAccess} {change : AdmittedCall → ShedPass → ShedPass}
    (taken : s.onPass pass access change = some t) :
    ∃ p call x y, s.passes[pass]? = some p ∧ p.call = some call ∧ s.calls[call]? = some x ∧
      x.access access = some y ∧
        t = { s with calls := s.calls.set call y, passes := s.passes.set pass (change x p) } := by
  unfold onPass at taken
  split at taken
  · cases taken
  · rename_i p atPass
    split at taken
    · cases taken
    · rename_i call inHand
      split at taken
      · cases taken
      · rename_i x here
        obtain ⟨u, accessed, rfl⟩ := Option.map_eq_some_iff.mp taken
        obtain ⟨x', y, here', moved, rfl⟩ := onCall_eq accessed
        obtain rfl := Option.some.inj (here.symm.trans here')
        exact ⟨p, call, x, y, atPass, inHand, here, moved, rfl⟩

/-- The calls the passes have in hand. -/
def hands (passes : List ShedPass) : List Nat := passes.filterMap ShedPass.call

/-- The depth, the queue and the passes are what the calls say. -/
structure Kept (s : Worker) : Prop where
  sound : ∀ x ∈ s.calls, x.Sound
  depth : s.depth = s.calls.countP AdmittedCall.counted
  queue : Places AdmittedCall.queued s.calls s.queue
  hands : Places (fun x => x.shedding.inHand) s.calls (hands s.passes)

theorem Kept.start : start.Kept where
  sound _ none := nomatch none
  depth := rfl
  queue := .nil
  hands := .nil

theorem hands_set {passes : List ShedPass} {pass : Nat} {p q : ShedPass} (here : passes[pass]? = some p) :
    (p.call.toList ++ hands (passes.set pass q)).Perm (q.call.toList ++ hands passes) :=
  filterMap_set_perm ShedPass.call here

section

variable {call : Nat} {access : CallAccess} {x y : AdmittedCall}

/-- An access keeps what the calls say, where the queue and the passes follow it. -/
theorem Kept.accessed (kept : s.Kept) (here : s.calls[call]? = some x) (moved : x.access access = some y)
    (inQueue : access = .remove → call ∈ s.queue) {depth : Int} (lowered : depth = s.depth + access.delta)
    {queue : List Nat} (queued : Places AdmittedCall.queued (s.calls.set call y) queue) {passes : List ShedPass}
    (held : Places (fun x => x.shedding.inHand) (s.calls.set call y) (Worker.hands passes)) :
    Kept { s with calls := s.calls.set call y, depth := depth, queue := queue, passes := passes } := by
  have sound := kept.sound x (List.mem_of_getElem? here)
  have flagged : access = .remove → x.queued = true := by
    intro removes
    obtain ⟨z, there, flag⟩ := (kept.queue.mem call).mp (inQueue removes)
    rw [Option.some.inj (here.symm.trans there), flag]
  refine ⟨fun z member => ?_, ?_, queued, held⟩
  · rcases List.mem_or_eq_of_mem_set member with old | rfl
    · exact kept.sound z old
    · exact sound.access flagged moved
  · have counts : (if y.counted = true then 1 else 0 : Int) = (if x.counted = true then 1 else 0) + access.delta :=
      (sound.move flagged moved).counted
    show depth = _
    rw [countP_set_eq _ here, lowered, kept.depth, counts]
    omega

theorem Kept.moved (kept : s.Kept) (here : s.calls[call]? = some x) (moved : x.access access = some y)
    (notRemoved : access ≠ .remove) :
    Move access x.dispatching x.replying x.shedding y.dispatching y.replying y.shedding :=
  (kept.sound x (List.mem_of_getElem? here)).move (fun removes => absurd removes notRemoved) moved

/-- The queue stays as it is under an access that neither enters nor leaves it. -/
theorem Kept.same_queue (kept : s.Kept) (here : s.calls[call]? = some x) (moved : x.access access = some y)
    (apart : access ≠ .push ∧ access ≠ .retain ∧ access ≠ .remove) :
    Places AdmittedCall.queued (s.calls.set call y) s.queue :=
  kept.queue.set_same here ((kept.moved here moved apart.2.2).queued.2.2 apart.1 apart.2.1 apart.2.2)

/-- No pass takes a call or lets it go under an access of another thread. -/
theorem Kept.same_hands (kept : s.Kept) (here : s.calls[call]? = some x) (moved : x.access access = some y)
    (apart : access ≠ .remove ∧ access ≠ .claim ∧ access ≠ .fail) :
    Places (fun x => x.shedding.inHand) (s.calls.set call y) (Worker.hands s.passes) :=
  kept.hands.set_same here ((kept.moved here moved apart.1).inHand.2.2.2.2 apart.1 apart.2.1 apart.2.2)

/-- An access of a dispatching thread, of a callback, of the runtime or of the host that leaves queue and depth. -/
theorem Kept.onCall (kept : s.Kept) (taken : s.onCall call access = some t) (still : access.delta = 0)
    (apart : access ≠ .push ∧ access ≠ .retain ∧ access ≠ .remove) (others : access ≠ .claim ∧ access ≠ .fail) :
    t.Kept := by
  obtain ⟨x, y, here, moved, rfl⟩ := onCall_eq taken
  exact kept.accessed here moved (fun removes => absurd removes apart.2.2) (by rw [still, Int.add_zero])
    (kept.same_queue here moved apart) (kept.same_hands here moved ⟨apart.2.2, others⟩)

/-- A pass goes on with the call it has in hand. -/
theorem Kept.onPass (kept : s.Kept) {pass : Nat} {p : ShedPass} (atPass : s.passes[pass]? = some p)
    (inHand : p.call = some call) (here : s.calls[call]? = some x) (moved : x.access access = some y)
    (apart : access ≠ .push ∧ access ≠ .retain ∧ access ≠ .remove) {depth : Int}
    (lowered : depth = s.depth + access.delta) {p' : ShedPass}
    (goes : y.shedding.inHand = true ∧ p'.call = some call ∨ y.shedding.inHand = false ∧ p'.call = none) :
    Kept { s with calls := s.calls.set call y, depth := depth, passes := s.passes.set pass p' } := by
  refine kept.accessed here moved (fun removes => absurd removes apart.2.2) lowered (kept.same_queue here moved apart) ?_
  have perm := hands_set (q := p') atPass
  rw [inHand] at perm
  have held : x.shedding.inHand = true := by
    obtain ⟨z, there, flag⟩ := (kept.hands.mem call).mp (List.mem_filterMap.mpr ⟨p, List.mem_of_getElem? atPass, inHand⟩)
    rw [Option.some.inj (here.symm.trans there), flag]
  rcases goes with ⟨still, same⟩ | ⟨gone, none'⟩
  · rw [same] at perm
    exact (kept.hands.set_same here (still.trans held.symm)).perm ((List.perm_append_left_iff _).mp perm).symm
  · rw [none'] at perm
    refine (kept.hands.erase here gone).perm ?_
    exact ((List.cons_perm_iff_perm_erase.mp perm).2).symm

end

/-- A step is an access to one call, adds a call, or leaves the calls as they are. -/
theorem step_calls {event : PoolEvent} (taken : s.step event = some t) :
    t.calls = s.calls ∨ (event = .build ∧ t.calls = s.calls ++ [.built]) ∨
      ∃ call access x y, s.calls[call]? = some x ∧ x.access access = some y ∧ t.calls = s.calls.set call y ∧
        (access = .remove → call ∈ s.queue) ∧
        (access = .complete → event = .complete call) ∧
        (access = .claim → ∃ pass p, event = .claim pass ∧ s.passes[pass]? = some p ∧ p.call = some call) := by
  cases event with
  | build =>
    obtain rfl := Option.some.inj taken
    exact Or.inr (Or.inl ⟨rfl, rfl⟩)
  | count call | push call | lower call | retain call =>
    obtain ⟨u, accessed, rfl⟩ := Option.map_eq_some_iff.mp taken
    obtain ⟨x, y, here, moved, rfl⟩ := onCall_eq accessed
    exact Or.inr (Or.inr ⟨call, _, x, y, here, moved, rfl, nofun, nofun, nofun⟩)
  | register call | cancel call | settle call | deliver call =>
    obtain ⟨x, y, here, moved, rfl⟩ := onCall_eq taken
    exact Or.inr (Or.inr ⟨call, _, x, y, here, moved, rfl, nofun, nofun, nofun⟩)
  | complete call =>
    obtain ⟨x, y, here, moved, rfl⟩ := onCall_eq taken
    exact Or.inr (Or.inr ⟨call, _, x, y, here, moved, rfl, nofun, fun _ => rfl, nofun⟩)
  | record call | forget call | answerQueued limit =>
    obtain rfl := Option.some.inj taken
    exact Or.inl rfl
  | take pass call =>
    rw [Worker.step] at taken
    split at taken
    · obtain ⟨⟨-, -, -, inQueue, -⟩, taken⟩ := Option.ite_none_right_eq_some.mp taken
      obtain ⟨u, accessed, rfl⟩ := Option.map_eq_some_iff.mp taken
      obtain ⟨x, y, here, moved, rfl⟩ := onCall_eq accessed
      exact Or.inr (Or.inr ⟨call, _, x, y, here, moved, rfl, fun _ => inQueue, nofun, nofun⟩)
    · cases taken
  | claim pass =>
    obtain ⟨p, call, x, y, atPass, inHand, here, moved, rfl⟩ := onPass_eq taken
    exact Or.inr (Or.inr ⟨call, _, x, y, here, moved, rfl, nofun, nofun, fun _ => ⟨pass, p, rfl, atPass, inHand⟩⟩)
  | trip pass | fail pass =>
    obtain ⟨p, call, x, y, -, -, here, moved, rfl⟩ := onPass_eq taken
    exact Or.inr (Or.inr ⟨call, _, x, y, here, moved, rfl, nofun, nofun, nofun⟩)
  | lowerShed pass =>
    obtain ⟨u, accessed, rfl⟩ := Option.map_eq_some_iff.mp taken
    obtain ⟨p, call, x, y, -, -, here, moved, rfl⟩ := onPass_eq accessed
    exact Or.inr (Or.inr ⟨call, _, x, y, here, moved, rfl, nofun, nofun, nofun⟩)
  | leave pass =>
    rw [Worker.step] at taken
    split at taken
    · obtain ⟨-, same⟩ := Option.ite_none_right_eq_some.mp taken
      obtain rfl := Option.some.inj same
      exact Or.inl rfl
    · cases taken

/-- Every step keeps what the calls say. -/
theorem Kept.step (kept : s.Kept) {event : PoolEvent} (taken : s.step event = some t) : t.Kept := by
  cases event with
  | build =>
    obtain rfl := Option.some.inj taken
    refine ⟨fun x member => ?_, ?_, kept.queue.append rfl, kept.hands.append rfl⟩
    · rcases List.mem_append.mp member with old | newest
      · exact kept.sound x old
      · rw [List.mem_singleton.mp newest]
        exact .built
    · show s.depth = ((s.calls ++ [AdmittedCall.built]).countP AdmittedCall.counted : Nat)
      rw [List.countP_append, kept.depth]
      rfl
  | count call =>
    obtain ⟨u, accessed, rfl⟩ := Option.map_eq_some_iff.mp taken
    obtain ⟨x, y, here, moved, rfl⟩ := onCall_eq accessed
    exact kept.accessed here moved nofun rfl (kept.same_queue here moved ⟨nofun, nofun, nofun⟩)
      (kept.same_hands here moved ⟨nofun, nofun, nofun⟩)
  | push call =>
    obtain ⟨u, accessed, rfl⟩ := Option.map_eq_some_iff.mp taken
    obtain ⟨x, y, here, moved, rfl⟩ := onCall_eq accessed
    obtain ⟨before, after⟩ := (kept.moved here moved nofun).queued.1 rfl
    exact kept.accessed here moved nofun (Int.add_zero _).symm
      ((kept.queue.raise here before after).perm (List.perm_append_singleton ..).symm)
      (kept.same_hands here moved ⟨nofun, nofun, nofun⟩)
  | register call | complete call | cancel call | settle call | deliver call =>
    exact kept.onCall taken rfl ⟨nofun, nofun, nofun⟩ ⟨nofun, nofun⟩
  | lower call =>
    obtain ⟨u, accessed, rfl⟩ := Option.map_eq_some_iff.mp taken
    obtain ⟨x, y, here, moved, rfl⟩ := onCall_eq accessed
    exact kept.accessed here moved nofun rfl (kept.same_queue here moved ⟨nofun, nofun, nofun⟩)
      (kept.same_hands here moved ⟨nofun, nofun, nofun⟩)
  | retain call =>
    obtain ⟨u, accessed, rfl⟩ := Option.map_eq_some_iff.mp taken
    obtain ⟨x, y, here, moved, rfl⟩ := onCall_eq accessed
    have after := (kept.moved here moved nofun).queued.2.1 (Or.inl rfl)
    exact kept.accessed here moved nofun (Int.add_zero _).symm (kept.queue.lower here after)
      (kept.same_hands here moved ⟨nofun, nofun, nofun⟩)
  | record call | forget call =>
    obtain rfl := Option.some.inj taken
    exact { kept with }
  | answerQueued limit =>
    obtain rfl := Option.some.inj taken
    refine { kept with hands := ?_ }
    show Places _ s.calls (Worker.hands (s.passes ++ [_]))
    rw [Worker.hands, List.filterMap_append]
    exact kept.hands.perm (List.append_nil _ ▸ List.Perm.refl _)
  | take pass call =>
    rw [Worker.step] at taken
    split at taken
    · rename_i p atPass
      obtain ⟨⟨free, -, -, inQueue, -⟩, taken⟩ := Option.ite_none_right_eq_some.mp taken
      obtain ⟨u, accessed, rfl⟩ := Option.map_eq_some_iff.mp taken
      obtain ⟨x, y, here, moved, rfl⟩ := onCall_eq accessed
      have sound := kept.sound x (List.mem_of_getElem? here)
      have flagged : x.queued = true := by
        obtain ⟨z, there, flag⟩ := (kept.queue.mem call).mp inQueue
        rw [Option.some.inj (here.symm.trans there), flag]
      have move := sound.move (fun _ => flagged) moved
      obtain ⟨before, after⟩ := move.inHand.1 rfl
      have perm := hands_set (q := { p with call := some call }) atPass
      rw [free] at perm
      exact kept.accessed here moved (fun _ => inQueue) (Int.add_zero _).symm
        (kept.queue.erase here (move.queued.2.1 (Or.inr rfl))) ((kept.hands.raise here before after).perm perm.symm)
    · cases taken
  | claim pass =>
    obtain ⟨p, call, x, y, atPass, inHand, here, moved, rfl⟩ := onPass_eq taken
    have sound := kept.sound x (List.mem_of_getElem? here)
    obtain ⟨removed, -⟩ := AdmittedCall.then_of_ite moved
    have flag := sound.settled
    rw [removed] at flag
    have after := (kept.moved here moved nofun).inHand.2.1 rfl
    refine kept.onPass atPass inHand here moved ⟨nofun, nofun, nofun⟩ (Int.add_zero _).symm ?_
    rw [after.2, flag.trans (Bool.or_false _)]
    cases x.replying.isWon with
    | true => exact Or.inr ⟨rfl, rfl⟩
    | false => exact Or.inl ⟨rfl, inHand⟩
  | lowerShed pass =>
    obtain ⟨u, accessed, rfl⟩ := Option.map_eq_some_iff.mp taken
    obtain ⟨p, call, x, y, atPass, inHand, here, moved, rfl⟩ := onPass_eq accessed
    have after := (kept.moved here moved nofun).inHand.2.2.2.1 (Or.inl rfl)
    exact kept.onPass atPass inHand here moved ⟨nofun, nofun, nofun⟩ rfl (Or.inl ⟨after.2, inHand⟩)
  | trip pass =>
    obtain ⟨p, call, x, y, atPass, inHand, here, moved, rfl⟩ := onPass_eq taken
    have after := (kept.moved here moved nofun).inHand.2.2.2.1 (Or.inr rfl)
    exact kept.onPass atPass inHand here moved ⟨nofun, nofun, nofun⟩ (Int.add_zero _).symm (Or.inl ⟨after.2, inHand⟩)
  | fail pass =>
    obtain ⟨p, call, x, y, atPass, inHand, here, moved, rfl⟩ := onPass_eq taken
    have after := (kept.moved here moved nofun).inHand.2.2.1 rfl
    exact kept.onPass atPass inHand here moved ⟨nofun, nofun, nofun⟩ (Int.add_zero _).symm (Or.inr ⟨after.2, rfl⟩)
  | leave pass =>
    rw [Worker.step] at taken
    split at taken
    · rename_i p atPass
      obtain ⟨⟨free, -⟩, same⟩ := Option.ite_none_right_eq_some.mp taken
      obtain rfl := Option.some.inj same
      refine { kept with hands := kept.hands.perm ?_ }
      obtain ⟨bound, rfl⟩ := List.getElem?_eq_some_iff.mp atPass
      have perm := (List.getElem_cons_eraseIdx_perm bound).filterMap ShedPass.call
      rw [List.filterMap_cons, free] at perm
      exact perm.symm
    · cases taken

theorem step_length {event : PoolEvent} (taken : s.step event = some t) :
    s.calls.length ≤ t.calls.length ∧ (event = .build → t.calls.length = s.calls.length + 1) := by
  rcases step_calls taken with same | ⟨rfl, grown⟩ | ⟨call, access, x, y, -, -, set, -⟩
  · refine ⟨Nat.le_of_eq (congrArg List.length same).symm, ?_⟩
    rintro rfl
    obtain rfl := Option.some.inj taken
    exact List.length_append
  · rw [grown, List.length_append]
    exact ⟨Nat.le_add_right _ _, fun _ => rfl⟩
  · refine ⟨Nat.le_of_eq (by rw [set, List.length_set]), ?_⟩
    rintro rfl
    obtain rfl := Option.some.inj taken
    exact List.length_append

/-- A call after a step was there before it, as it is or before an access, or it is the one the step added. -/
theorem Kept.call_before (kept : s.Kept) {event : PoolEvent} (taken : s.step event = some t) {call : Nat}
    {y : AdmittedCall} (there : t.calls[call]? = some y) :
    (call = s.calls.length ∧ y = .built) ∨ ∃ x, s.calls[call]? = some x ∧ (y = x ∨ ∃ access,
      x.access access = some y ∧ Move access x.dispatching x.replying x.shedding y.dispatching y.replying y.shedding ∧
        (access = .claim → ∃ pass p, event = .claim pass ∧ s.passes[pass]? = some p ∧ p.call = some call)) := by
  rcases step_calls taken with same | ⟨-, grown⟩ | ⟨other, access, x, z, here, moved, set, inQueue, -, claims⟩
  · rw [same] at there
    exact Or.inr ⟨y, there, Or.inl rfl⟩
  · rw [grown] at there
    rcases Nat.lt_trichotomy call s.calls.length with old | rfl | beyond
    · rw [List.getElem?_append_left old] at there
      exact Or.inr ⟨y, there, Or.inl rfl⟩
    · rw [List.getElem?_concat_length] at there
      exact Or.inl ⟨rfl, (Option.some.inj there).symm⟩
    · rw [List.getElem?_eq_none (by rw [List.length_append, List.length_singleton]; omega)] at there
      cases there
  · rw [set, getElem?_set_cases here] at there
    by_cases own : call = other
    · rw [if_pos own] at there
      obtain rfl := there
      rw [own]
      refine Or.inr ⟨x, here, Or.inr ⟨access, moved, ?_, claims⟩⟩
      refine (kept.sound x (List.mem_of_getElem? here)).move (fun removes => ?_) moved
      obtain ⟨w, at', flag⟩ := (kept.queue.mem other).mp (inQueue removes)
      rw [Option.some.inj (here.symm.trans at'), flag]
    · rw [if_neg own] at there
      exact Or.inr ⟨y, there, Or.inl rfl⟩

/-- No thread is in the middle of an operation. -/
def Quiet (s : Worker) : Prop := s.passes = [] ∧ ∀ x ∈ s.calls, x.quiet = true

/-- A call nobody is busy with is answered and out of the books, or still waits for its reply and is in them. -/
theorem quiet_call {x : AdmittedCall} (sound : x.Sound) (quiet : x.quiet = true) :
    (x.settled = true ∧ x.answers.length = 1 ∧ x.counted = false ∧ x.queued = false) ∨
      (x.settled = false ∧ x.answers = [] ∧ x.slot = .empty ∧ x.counted = true ∧ x.queued = true) := by
  obtain ⟨⟨registered, reply⟩, pass⟩ : (x.dispatching = .registered ∧ (x.replying = .waiting ∨ x.replying.isFinished = true)) ∧
      x.shedding.inHand = false := by
    simpa [AdmittedCall.quiet] using quiet
  have flag := sound.settled
  have held := sound.held
  have lostReply := sound.lostReply
  have lostPass := sound.lostPass
  have once := sound.once
  unfold AdmittedCall.counted AdmittedCall.queued
  rw [registered]
  rcases reply with waiting | finished
  · rw [waiting] at flag held lostPass once ⊢
    cases shed : x.shedding <;> rw [shed] at pass flag held lostPass once
    case removed | won | lowered | cancelled => cases pass
    case lost => cases lostPass rfl
    case untouched =>
      refine Or.inr ⟨flag, sound.unanswered held, ?_, rfl, rfl⟩
      cases slot : x.slot with
      | empty => rfl
      | ready => exact absurd slot (sound.ready registered)
      | taken => exact absurd waiting (sound.called.mpr slot)
    case finished => exact Or.inl ⟨flag, sound.answered held, rfl, rfl⟩
  · cases reply : x.replying <;> rw [reply] at finished flag held lostReply lostPass once
    case finished won =>
      cases won with
      | true =>
        cases shed : x.shedding <;> rw [shed] at pass flag held once
        case removed | won | lowered | cancelled => cases pass
        case finished => exact absurd ⟨rfl, rfl⟩ once
        all_goals exact Or.inl ⟨flag, sound.answered held, rfl, rfl⟩
      | false =>
        have second := lostReply (Or.inr rfl)
        cases shed : x.shedding <;> rw [shed] at second pass flag held
        case won | lowered | cancelled => cases pass
        case untouched | removed | lost => cases second
        case finished => exact Or.inl ⟨flag, sound.answered held, rfl, rfl⟩
    all_goals cases finished

/-- The books where no thread is busy: the depth counts the calls that are not settled, and the queue holds them. -/
theorem Kept.quiet (kept : s.Kept) (quiet : s.Quiet) :
    s.depth = s.calls.countP (fun x => !x.settled) ∧ Places (fun x => !x.settled) s.calls s.queue := by
  have each := fun x member => quiet_call (kept.sound x member) (quiet.2 x member)
  constructor
  · rw [kept.depth]
    congr 1
    refine List.countP_congr fun x member => ?_
    rcases each x member with ⟨settled, -, counted, -⟩ | ⟨settled, -, -, counted, -⟩ <;> rw [settled, counted] <;> rfl
  · refine ⟨kept.queue.nodup, fun c => (kept.queue.mem c).trans (exists_congr fun x => and_congr_right fun here => ?_)⟩
    rcases each x (List.mem_of_getElem? here) with ⟨settled, -, -, queued⟩ | ⟨settled, -, -, -, queued⟩ <;>
      rw [settled, queued] <;> rfl

/-- A step of a thread that goes on with what it has begun. -/
def Continues : PoolEvent → Prop
  | .build | .complete _ | .cancel _ | .record _ | .forget _ | .answerQueued _ => False
  | _ => True

/-- The steps left to the threads. -/
def work (s : Worker) : Nat := (s.calls.map AdmittedCall.rest).sum + s.passes.length

theorem Kept.work_call (kept : s.Kept) {call : Nat} {access : CallAccess} {x y : AdmittedCall}
    (here : s.calls[call]? = some x) (moved : x.access access = some y) (inQueue : access = .remove → call ∈ s.queue)
    (apart : access ≠ .complete ∧ access ≠ .cancel) :
    ((s.calls.set call y).map AdmittedCall.rest).sum < (s.calls.map AdmittedCall.rest).sum := by
  have flagged : access = .remove → x.queued = true := by
    intro removes
    obtain ⟨z, there, flag⟩ := (kept.queue.mem call).mp (inQueue removes)
    rw [Option.some.inj (here.symm.trans there), flag]
  have less := ((kept.sound x (List.mem_of_getElem? here)).move flagged moved).rest.resolve_right (not_or.mpr apart)
  have sum := sum_set (y := y) AdmittedCall.rest here
  unfold AdmittedCall.rest at sum ⊢
  omega

/-- Each step of a thread that goes on leaves the threads less to do. -/
theorem Kept.work_step (kept : s.Kept) {event : PoolEvent} (continues : Continues event)
    (taken : s.step event = some t) : t.work < s.work := by
  cases event with
  | build | complete _ | cancel _ | record _ | forget _ | answerQueued _ => exact continues.elim
  | count call | push call | lower call | retain call =>
    obtain ⟨u, accessed, rfl⟩ := Option.map_eq_some_iff.mp taken
    obtain ⟨x, y, here, moved, rfl⟩ := onCall_eq accessed
    exact Nat.add_lt_add_right (kept.work_call here moved nofun ⟨nofun, nofun⟩) _
  | register call | settle call | deliver call =>
    obtain ⟨x, y, here, moved, rfl⟩ := onCall_eq taken
    exact Nat.add_lt_add_right (kept.work_call here moved nofun ⟨nofun, nofun⟩) _
  | claim pass | trip pass | fail pass =>
    obtain ⟨p, call, x, y, -, -, here, moved, rfl⟩ := onPass_eq taken
    unfold Worker.work
    rw [List.length_set]
    exact Nat.add_lt_add_right (kept.work_call here moved nofun ⟨nofun, nofun⟩) _
  | lowerShed pass =>
    obtain ⟨u, accessed, rfl⟩ := Option.map_eq_some_iff.mp taken
    obtain ⟨p, call, x, y, -, -, here, moved, rfl⟩ := onPass_eq accessed
    unfold Worker.work
    rw [List.length_set]
    exact Nat.add_lt_add_right (kept.work_call here moved nofun ⟨nofun, nofun⟩) _
  | take pass call =>
    rw [Worker.step] at taken
    split at taken
    · obtain ⟨⟨-, -, -, inQueue, -⟩, taken⟩ := Option.ite_none_right_eq_some.mp taken
      obtain ⟨u, accessed, rfl⟩ := Option.map_eq_some_iff.mp taken
      obtain ⟨x, y, here, moved, rfl⟩ := onCall_eq accessed
      unfold Worker.work
      rw [List.length_set]
      exact Nat.add_lt_add_right (kept.work_call here moved (fun _ => inQueue) ⟨nofun, nofun⟩) _
    · cases taken
  | leave pass =>
    rw [Worker.step] at taken
    split at taken
    · rename_i p atPass
      obtain ⟨-, same⟩ := Option.ite_none_right_eq_some.mp taken
      obtain rfl := Option.some.inj same
      obtain ⟨bound, -⟩ := List.getElem?_eq_some_iff.mp atPass
      have less : (s.passes.eraseIdx pass).length < s.passes.length := by
        rw [List.length_eraseIdx_of_lt bound]
        omega
      exact Nat.add_lt_add_left less _
    · cases taken

theorem onCall_some {call : Nat} {access : CallAccess} {x y : AdmittedCall} (here : s.calls[call]? = some x)
    (moved : x.access access = some y) : s.onCall call access = some { s with calls := s.calls.set call y } := by
  rw [Worker.onCall, here, Option.bind_some, moved]
  rfl

theorem onCall_then {call : Nat} {access : CallAccess} {x y : AdmittedCall} (change : Worker → Worker)
    (here : s.calls[call]? = some x) (moved : x.access access = some y) :
    (s.onCall call access).map change = some (change { s with calls := s.calls.set call y }) :=
  Option.map_eq_some_iff.mpr ⟨_, onCall_some here moved, rfl⟩

theorem onPass_some {pass call : Nat} {access : CallAccess} {p : ShedPass} {x y : AdmittedCall}
    (change : AdmittedCall → ShedPass → ShedPass) (atPass : s.passes[pass]? = some p) (inHand : p.call = some call)
    (here : s.calls[call]? = some x) (moved : x.access access = some y) :
    s.onPass pass access change =
      some { s with calls := s.calls.set call y, passes := s.passes.set pass (change x p) } := by
  rw [Worker.onPass, atPass]
  simp only [inHand, here, onCall_some here moved]
  rfl

/-- A pass can always go on: with the call it has in hand, with the next of the queue, or by returning. -/
theorem Kept.pass_goes_on (kept : s.Kept) {p : ShedPass} (atPass : s.passes[0]? = some p) :
    ∃ event t, Continues event ∧ s.step event = some t := by
  cases hand : p.call with
  | some call =>
    obtain ⟨x, here, inHand⟩ := (kept.hands.mem call).mp (List.mem_filterMap.mpr ⟨p, List.mem_of_getElem? atPass, hand⟩)
    cases shed : x.shedding <;> rw [shed] at inHand
    case untouched | lost | finished => cases inHand
    case removed => exact ⟨.claim 0, _, trivial, onPass_some _ atPass hand here (if_pos shed)⟩
    case won =>
      exact ⟨.lowerShed 0, _, trivial, Option.map_eq_some_iff.mpr ⟨_, onPass_some _ atPass hand here (if_pos shed), rfl⟩⟩
    case lowered => exact ⟨.trip 0, _, trivial, onPass_some _ atPass hand here (if_pos shed)⟩
    case cancelled => exact ⟨.fail 0, _, trivial, onPass_some _ atPass hand here (if_pos shed)⟩
  | none =>
    have leaves : p.limit ≤ p.answered ∨ s.queue.all (s.passedOver p) = true →
        s.step (.leave 0) = some { s with passes := s.passes.eraseIdx 0 } := by
      intro done
      simp only [Worker.step, atPass]
      exact if_pos ⟨hand, done⟩
    by_cases limit : p.limit ≤ p.answered
    · exact ⟨.leave 0, _, trivial, leaves (Or.inl limit)⟩
    · cases found : s.queue.find? fun call => !s.passedOver p call with
      | none =>
        have spent : s.queue.all (s.passedOver p) = true := by simpa using List.find?_eq_none.mp found
        exact ⟨.leave 0, _, trivial, leaves (Or.inr spent)⟩
      | some call =>
        obtain ⟨free, front, rest, split, before⟩ := List.find?_eq_some_iff_append.mp found
        have member : call ∈ s.queue := by rw [split]; simp
        obtain ⟨x, here, flag⟩ := (kept.queue.mem call).mp member
        have untouched := (AdmittedCall.queued_iff.1 flag).2.1
        have outside : call ∉ p.running := by
          intro inside
          have : s.passedOver p call = true := by simp [Worker.passedOver, inside]
          simp [this] at free
        have scanned : (s.queue.takeWhile fun other => other ≠ call).all (s.passedOver p) = true := by
          have fresh : call ∉ front := by
            have distinct := kept.queue.nodup
            rw [split, List.nodup_append] at distinct
            exact fun inside => distinct.2.2 call inside call (List.mem_cons_self ..) rfl
          have front' : s.queue.takeWhile (fun other => decide (other ≠ call)) = front := by
            rw [split, List.takeWhile_append_of_pos, List.takeWhile_cons_of_neg (by simp), List.append_nil]
            exact fun other inside => decide_eq_true fun same => fresh (same ▸ inside)
          rw [front']
          exact List.all_eq_true.mpr fun other inside => by simpa using before other inside
        obtain ⟨t, taken⟩ : ∃ t, s.step (.take 0 call) = some t := by
          simp only [Worker.step, atPass]
          rw [if_pos ⟨hand, Nat.lt_of_not_le limit, outside, member, scanned⟩]
          exact ⟨_, onCall_then _ here (if_pos untouched)⟩
        exact ⟨.take 0 call, t, trivial, taken⟩

/-- Where a thread is in the middle of something, some thread can go on. -/
theorem Kept.goes_on (kept : s.Kept) (busy : ¬ s.Quiet) : ∃ event t, Continues event ∧ s.step event = some t := by
  cases passes : s.passes with
  | cons p rest => exact kept.pass_goes_on (by rw [passes]; rfl)
  | nil =>
    obtain ⟨x, member, loud⟩ : ∃ x ∈ s.calls, x.quiet ≠ true := by
      by_contra all
      push Not at all
      exact busy ⟨passes, all⟩
    obtain ⟨call, here⟩ := List.mem_iff_getElem?.mp member
    have idle : x.shedding.inHand = false := by
      refine Bool.eq_false_iff.mpr fun inHand => ?_
      have held := (kept.hands.mem call).mpr ⟨x, here, inHand⟩
      rw [Worker.hands, passes] at held
      cases held
    cases dispatching : x.dispatching with
    | built =>
      exact ⟨.count call, _, trivial, onCall_then _ here (if_pos dispatching)⟩
    | counted =>
      exact ⟨.push call, _, trivial, onCall_then _ here (if_pos dispatching)⟩
    | queued =>
      obtain ⟨y, moved⟩ : ∃ y, x.access .register = some y := by
        rw [AdmittedCall.access, if_pos dispatching]
        split <;> exact ⟨_, rfl⟩
      exact ⟨.register call, _, trivial, onCall_some here moved⟩
    | registered =>
      cases replying : x.replying with
      | waiting | finished won =>
        refine absurd ?_ loud
        simp [AdmittedCall.quiet, dispatching, replying, idle, Replying.isFinished]
      | called => exact ⟨.settle call, _, trivial, onCall_some here (if_pos replying)⟩
      | won =>
        exact ⟨.lower call, _, trivial, onCall_then _ here (if_pos replying)⟩
      | lowered =>
        exact ⟨.retain call, _, trivial, onCall_then _ here (if_pos replying)⟩
      | retained | lost =>
        obtain ⟨y, moved⟩ : ∃ y, x.access .deliver = some y := by
          rw [AdmittedCall.access, replying]
          exact ⟨_, rfl⟩
        exact ⟨.deliver call, _, trivial, onCall_some here moved⟩

theorem kept_of_run {trace : List (Worker × PoolEvent)} (run : Runs step .start trace s) : s.Kept :=
  run.invariant .start fun _ _ _ kept taken => kept.step taken

/-- Along every interleaving no call is answered twice and the depth is never negative; where no thread is busy, the
depth counts the calls not yet settled, the queue holds exactly those, and every call that is settled or whose runtime
has replied is answered once; and the threads always get there. -/
theorem admitted_calls_answered {trace : List (Worker × PoolEvent)} (run : Runs step .start trace s) :
    (∀ x ∈ s.calls, x.answers.length ≤ 1) ∧ 0 ≤ s.depth ∧
    (s.Quiet → s.depth = s.calls.countP (fun x => !x.settled) ∧ Places (fun x => !x.settled) s.calls s.queue ∧
      ∀ x ∈ s.calls, if x.settled then x.answers.length = 1 else x.answers = [] ∧ x.slot = .empty) ∧
    (¬ s.Quiet → ∃ event t, Continues event ∧ s.step event = some t) ∧
    ∀ event t, Continues event → s.step event = some t → t.work < s.work := by
  have kept := kept_of_run run
  refine ⟨fun x member => ?_, ?_, fun quiet => ?_, kept.goes_on, fun event t => kept.work_step⟩
  · have sound := kept.sound x member
    cases held : x.held with
    | true => rw [sound.unanswered held]; exact Nat.zero_le _
    | false => exact Nat.le_of_eq (sound.answered held)
  · rw [kept.depth]
    exact Int.natCast_nonneg _
  · obtain ⟨depth, queue⟩ := kept.quiet quiet
    refine ⟨depth, queue, fun x member => ?_⟩
    rcases quiet_call (kept.sound x member) (quiet.2 x member) with ⟨settled, once, -⟩ | ⟨settled, none', empty, -⟩
    · rw [if_pos settled]
      exact once
    · rw [if_neg (by rw [settled]; decide)]
      exact ⟨none', empty⟩

/-- A call that replies while a pass has it in hand: the pass settles it and the reply is what its caller hears. -/
theorem admitted_calls_answered_race :
    ∃ (trace : List (Worker × PoolEvent)) (s : Worker), Runs step .start trace s ∧
      s.calls.map AdmittedCall.answers = [[.runtime]] ∧ s.depth = 0 ∧ s.queue = [] ∧
        ∀ x ∈ s.calls, if x.settled then x.answers.length = 1 else x.answers = [] ∧ x.slot = .empty := by
  have admitted : Runs step .start _ _ :=
    (((Runs.start.next .build rfl).next (.count 0) rfl).next (.push 0) rfl).next (.complete 0) rfl
  have claimed : Runs step .start _ _ :=
    (((admitted.next (.answerQueued 1) rfl).next (.take 0 0) rfl).next (.register 0) rfl).next (.claim 0) rfl
  have answered : Runs step .start _ _ := ((claimed.next (.settle 0) rfl).next (.lowerShed 0) rfl).next (.deliver 0) rfl
  have run : Runs step .start _ _ := ((answered.next (.trip 0) rfl).next (.fail 0) rfl).next (.leave 0) rfl
  refine ⟨_, _, run, rfl, rfl, rfl, ((admitted_calls_answered run).2.2.1 ⟨rfl, ?_⟩).2.2⟩
  exact List.forall_mem_singleton (p := fun x => AdmittedCall.quiet x = true) |>.mpr rfl

end Xript.Worker
