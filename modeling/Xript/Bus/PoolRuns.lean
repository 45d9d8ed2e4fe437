import Mathlib.Data.List.Nodup
import Xript.Bus.Pool

namespace Xript

variable {V : Type}

/-- The change detaches a live subscription with this token and record, whatever else the state holds. -/
def BusChange.drops (token : JSString) (subscription : Subscription) : BusChange V → Prop
  | .cancel mayCancelOthers caller key => token = key ∧ (subscription.owner = caller ∨ mayCancelOthers = true)
  | .off everyone caller id => subscription.event = id ∧ (everyone = true ∨ subscription.owner = caller)
  | .cancelOwned owner => subscription.owner = owner
  | .spend claimed => token = claimed
  | _ => False

namespace BusState

theorem offIn_get {state : BusState} (indexed : state.Indexed) (everyone : Bool) (caller : Option JSString) (id : JSString)
    {token : JSString} {subscription : Subscription} (found : state.subscriptions.get token = some subscription) :
    (state.offIn everyone caller id).1.subscriptions.get token =
      if subscription.event = id ∧ (everyone = true ∨ subscription.owner = caller) then none else some subscription := by
  have member : token ∈ state.listeners id ↔ subscription.event = id := by
    rw [indexed.listed]
    simp [found]
  rw [offIn, detachWhere_get]
  simp only [member, found, ownedBy, Bool.or_eq_true, decide_eq_true_eq]

theorem cancelOwnedIn_get {state : BusState} (owner : Option JSString) {token : JSString} {subscription : Subscription}
    (found : state.subscriptions.get token = some subscription) :
    (state.cancelOwnedIn owner).1.subscriptions.get token =
      if subscription.owner = owner then none else some subscription := by
  rw [cancelOwnedIn, detachWhere_get]
  simp only [found, ownedBy, Record.mem_keys_of_get found, decide_eq_true_eq, true_and]

theorem detachWhere_absent {state : BusState} (picks : Option Subscription → Bool) (tokens : List JSString)
    {token : JSString} (absent : state.subscriptions.get token = none) :
    (state.detachWhere picks tokens).1.subscriptions.get token = none := by
  rw [detachWhere_get, absent]
  split <;> rfl

end BusState

/-- What a closure does to the subscriptions of the state it was run on. -/
structure ChangeSpec (change : BusChange V) (base next : BusState) (answer : ChangeAnswer) : Prop where
  indexed : next.Indexed
  dropped : ∀ token subscription, base.subscriptions.get token = some subscription →
    change.drops token subscription → next.subscriptions.get token = none
  kept : ∀ token subscription, base.subscriptions.get token = some subscription →
    ¬ change.drops token subscription → next.subscriptions.get token = some subscription
  added : ∀ token subscription, base.subscriptions.get token = none →
    next.subscriptions.get token = some subscription →
    ∃ held, change = .subscribe subscription held ∧ answer = .issued token
  sequence : base.sequence ≤ next.sequence

theorem BusChange.apply_spec {change : BusChange V} {base next : BusState} {answer : ChangeAnswer}
    (indexed : base.Indexed) (applied : change.apply base = .ok (next, answer)) :
    ChangeSpec change base next answer := by
  cases change with
  | seed events =>
    cases applied
    have same : (base.seed events).subscriptions = base.subscriptions ∧ (base.seed events).Indexed ∧
        (base.seed events).sequence = base.sequence := by
      unfold BusState.seed
      split
      · exact ⟨rfl, indexed, rfl⟩
      · exact ⟨rfl, indexed.same rfl rfl rfl rfl, rfl⟩
    refine ⟨same.2.1, fun _ _ _ drops => drops.elim, fun token subscription found _ => same.1 ▸ found, ?_,
      le_of_eq same.2.2.symm⟩
    intro token subscription absent found
    rw [same.1, absent] at found
    cases found
  | subscribe filed held =>
    cases applied
    have dead := (indexed.fresh (Nat.lt_succ_self base.sequence)).1
    refine ⟨indexed.subscribe filed, fun _ _ _ drops => drops.elim, ?_, ?_, Nat.le_succ _⟩
    · intro token subscription found _
      have other : token ≠ issuedToken (base.sequence + 1) := by
        intro same
        rw [BusState.live, ← same, found] at dead
        cases dead
      exact (Record.get_set ..).trans ((if_neg other).trans found)
    · intro token subscription absent found
      have placed : (if token = issuedToken (base.sequence + 1) then some filed else base.subscriptions.get token) =
          some subscription := (Record.get_set ..).symm.trans found
      split at placed
      · rename_i same
        cases placed
        exact ⟨held, rfl, by rw [same]; rfl⟩
      · rw [absent] at placed
        cases placed
  | cancel mayCancelOthers caller key =>
    rw [BusChange.apply] at applied
    cases outcome : base.cancelIn mayCancelOthers caller key with
    | error error =>
      rw [outcome] at applied
      cases applied
    | ok result =>
      rw [outcome] at applied
      cases applied
      have keeps := indexed.cancel outcome
      have sequence := le_of_eq (BusState.cancelIn_sequence outcome).symm
      unfold BusState.cancelIn at outcome
      split at outcome
      · rename_i owned found
        split at outcome
        · cases outcome
        · rename_i allowed
          cases outcome
          refine ⟨keeps, ?_, ?_, ?_, sequence⟩
          · intro token subscription _ drops
            rw [BusState.detachIn_get, if_pos drops.1]
          · intro token subscription present kept
            have other : token ≠ key := by
              intro same
              rw [same, found] at present
              obtain rfl := Option.some.inj present
              refine kept ⟨same, ?_⟩
              by_cases own : owned.owner = caller
              · exact Or.inl own
              · exact Or.inr (by simpa [own] using allowed)
            rw [BusState.detachIn_get, if_neg other, present]
          · intro token subscription absent present
            rw [BusState.detachIn_get, absent] at present
            split at present <;> cases present
      · rename_i absent
        cases outcome
        refine ⟨keeps, ?_, fun token subscription found _ => found, ?_, sequence⟩
        · intro token subscription found drops
          rw [drops.1, absent] at found
          cases found
        · intro token subscription missing found
          rw [missing] at found
          cases found
  | off everyone caller id =>
    cases applied
    refine ⟨indexed.off everyone caller id, ?_, ?_, ?_, ?_⟩
    · intro token subscription found drops
      exact (BusState.offIn_get indexed everyone caller id found).trans (if_pos drops)
    · intro token subscription found kept
      exact (BusState.offIn_get indexed everyone caller id found).trans (if_neg kept)
    · intro token subscription absent found
      rw [BusState.offIn, BusState.detachWhere_absent _ _ absent] at found
      cases found
    · exact le_of_eq (BusState.detachWhere_sequence ..).symm
  | cancelOwned owner =>
    cases applied
    refine ⟨indexed.cancelOwned owner, ?_, ?_, ?_, ?_⟩
    · intro token subscription found drops
      exact (BusState.cancelOwnedIn_get owner found).trans (if_pos drops)
    · intro token subscription found kept
      exact (BusState.cancelOwnedIn_get owner found).trans (if_neg kept)
    · intro token subscription absent found
      rw [BusState.cancelOwnedIn, BusState.detachWhere_absent _ _ absent] at found
      cases found
    · exact le_of_eq (BusState.detachWhere_sequence ..).symm
  | spend claimed =>
    cases applied
    refine ⟨indexed.claimOnce claimed, ?_, ?_, ?_, ?_⟩
    · intro token subscription found drops
      have alive : base.live claimed = true := by rw [BusState.live, ← drops, found]; rfl
      simp only [BusState.claimOnceIn, if_pos alive]
      exact (BusState.detachIn_get base claimed token).trans (if_pos drops)
    · intro token subscription found kept
      simp only [BusState.claimOnceIn]
      split
      · exact (BusState.detachIn_get base claimed token).trans ((if_neg kept).trans found)
      · exact found
    · intro token subscription absent found
      simp only [BusState.claimOnceIn] at found
      split at found
      · have gone : (base.detachIn claimed).subscriptions.get token = none := by
          rw [BusState.detachIn_get, absent]
          split <;> rfl
        simp only [gone] at found
        cases found
      · rw [absent] at found
        cases found
    · exact le_of_eq (BusState.claimOnceIn_sequence base claimed).symm

namespace Pool

/-- What a worker's own part of the pool has to keep: an attempt is what its closure made of the state it read, and a
live subscription of the worker has its handler there unless the change under way is to drop it. -/
structure WorkerSound (hub : HubState BusState) (worker : Nat) (current : PoolWorker V) : Prop where
  attempt : ∀ change attempt, current.change = some (change, some attempt) → attempt.version ≤ hub.version ∧
    (attempt.version = hub.version → attempt.base = hub.bus) ∧
    change.apply attempt.base = .ok (attempt.next, attempt.answer)
  filed : ∀ subscription held attempt, current.change = some (.subscribe subscription held, attempt) →
    subscription.worker = some worker
  held : ∀ token subscription, hub.bus.subscriptions.get token = some subscription →
    subscription.worker = some worker → (current.handlers.get token).isSome ∨
      ∃ change attempt, current.change = some (change, attempt) ∧ change.drops token subscription

/-- The shared state is what the committed changes make of it, and each way out of it is taken once. -/
structure Sound (pool : Pool V) : Prop where
  indexed : pool.state.Indexed
  recorded : ∀ token, pool.state.subscriptions.get token =
    if token ∈ pool.removed then none else pool.records.get token
  known : ∀ token, (pool.records.get token).isSome → ∃ number, number ≤ pool.state.sequence ∧ token = issuedToken number
  removed : ∀ token ∈ pool.removed, (pool.records.get token).isSome
  cancelled : ∀ token ∈ pool.cancels, token ∈ pool.removed
  cancelOnce : pool.cancels.Nodup
  ran : ∀ token ∈ pool.runs, (pool.records.get token).isSome
  spent : ∀ token subscription, pool.records.get token = some subscription → subscription.once = true →
    token ∈ pool.runs → token ∈ pool.removed ∧ token ∉ pool.cancels
  runOnce : ∀ token subscription, pool.records.get token = some subscription → subscription.once = true →
    pool.runs.count token ≤ 1
  workers : ∀ worker, WorkerSound pool.hub worker (pool.workers worker)

theorem Sound.start : (start : Pool V).Sound where
  indexed := BusState.Indexed.blank
  recorded := by simp [Pool.start, state, HubState.bus, HubState.empty, blankState]
  known := by simp [Pool.start]
  removed := by simp [Pool.start]
  cancelled := by simp [Pool.start]
  cancelOnce := List.nodup_nil
  ran := by simp [Pool.start]
  spent := by simp [Pool.start]
  runOnce := by simp [Pool.start]
  workers := fun worker => ⟨by simp [Pool.start], by simp [Pool.start], by
    simp [Pool.start, HubState.bus, HubState.empty, blankState]⟩

/-- A step that touches one worker only. -/
theorem Sound.setWorker {pool : Pool V} (sound : pool.Sound) {worker : Nat} {next : PoolWorker V}
    (own : WorkerSound pool.hub worker next) : (pool.setWorker worker next).Sound := by
  refine ⟨sound.indexed, sound.recorded, sound.known, sound.removed, sound.cancelled, sound.cancelOnce, sound.ran,
    sound.spent, sound.runOnce, fun other => ?_⟩
  simp only [Pool.setWorker]
  by_cases same : other = worker
  · subst same
    rw [Function.update_self]
    exact own
  · rw [Function.update_of_ne same]
    exact sound.workers other

/-- A worker that is in no loop of `mutate` holds the handler of every live subscription of its own. -/
theorem Sound.holds {pool : Pool V} (sound : pool.Sound) {worker : Nat} (idle : (pool.workers worker).change = none)
    {token : JSString} {subscription : Subscription} (found : pool.state.subscriptions.get token = some subscription)
    (own : subscription.worker = some worker) : ((pool.workers worker).handlers.get token).isSome := by
  rcases (sound.workers worker).held token subscription found own with held | ⟨change, attempt, busy, -⟩
  · exact held
  · rw [idle] at busy
    cases busy

/-- The stack of a worker does not matter to it. -/
theorem Sound.restack {pool : Pool V} (sound : pool.Sound) (worker : Nat) (stack : List (PoolFrame V)) :
    (pool.setWorker worker { pool.workers worker with stack := stack }).Sound :=
  sound.setWorker ⟨(sound.workers worker).attempt, (sound.workers worker).filed, (sound.workers worker).held⟩

theorem Sound.begin {pool : Pool V} (sound : pool.Sound) {worker : Nat} {change : BusChange V}
    (idle : (pool.workers worker).change = none) (stack : List (PoolFrame V))
    (filed : ∀ subscription held, change = .subscribe subscription held → subscription.worker = some worker) :
    (pool.setWorker worker { pool.workers worker with stack := stack, change := some (change, none) }).Sound := by
  refine sound.setWorker ⟨?_, ?_, ?_⟩
  · intro other attempt busy
    cases busy
  · intro subscription held attempt busy
    cases busy
    exact filed subscription held rfl
  · intro token subscription found own
    exact Or.inl (sound.holds idle found own)

theorem get_filter_kept {β : Type} {r : Record β} {keep : JSString × β → Bool} {key : JSString}
    (kept : ∀ value, keep (key, value) = true) : Record.get (r.filter keep) key = r.get key := by
  induction r with
  | nil => rfl
  | cons entry r ih =>
    by_cases same : key = entry.1
    · have stays : keep entry = true := by simpa only [same] using kept entry.2
      rw [List.filter_cons_of_pos stays, Record.get_cons, Record.get_cons, if_pos same, if_pos same]
    · rw [Record.get_cons, if_neg same, ← ih, List.filter_cons]
      split
      · rw [Record.get_cons, if_neg same]
      · rfl

theorem keepHandlers_get (handlers : Record (HeldHandler V)) (worker : Nat) (base next : BusState) {token : JSString}
    (alive : next.live token = true) : (keepHandlers handlers worker base next).get token = handlers.get token := by
  refine get_filter_kept fun _ => ?_
  simp only [alive, Bool.true_or]
  split <;> rfl

/-- A closure that throws would have dropped nothing. -/
theorem not_drops_of_error {change : BusChange V} {base : BusState} {error : BusError}
    (thrown : change.apply base = .error error) {token : JSString} {subscription : Subscription}
    (found : base.subscriptions.get token = some subscription) : ¬ change.drops token subscription := by
  cases change with
  | cancel mayCancelOthers caller key =>
    rintro ⟨rfl, allowed⟩
    simp only [BusChange.apply, BusState.cancelIn, found] at thrown
    have guarded : ¬ (subscription.owner ≠ caller ∧ (!mayCancelOthers) = true) := by
      rintro ⟨other, refused⟩
      rcases allowed with own | granted
      · exact other own
      · simp [granted] at refused
    rw [if_neg guarded] at thrown
    cases thrown
  | seed events => exact fun drops => drops
  | subscribe filed held => exact fun drops => drops
  | off everyone caller id => cases thrown
  | cancelOwned owner => cases thrown
  | spend claimed => cases thrown

theorem Sound.read {pool : Pool V} (sound : pool.Sound) {worker : Nat} {change : BusChange V}
    (busy : (pool.workers worker).change = some (change, none)) : (pool.read worker change).Sound := by
  have own := sound.workers worker
  have held : ∀ token subscription, pool.state.subscriptions.get token = some subscription →
      subscription.worker = some worker →
      ((pool.workers worker).handlers.get token).isSome ∨ change.drops token subscription := by
    intro token subscription found mine
    rcases own.held token subscription found mine with there | ⟨other, attempt, same, drops⟩
    · exact Or.inl there
    · rw [busy] at same
      cases same
      exact Or.inr drops
  unfold Pool.read
  simp only
  cases outcome : change.apply pool.state with
  | error error =>
    refine sound.setWorker ⟨by simp, by simp, fun token subscription found mine => Or.inl ?_⟩
    exact (held token subscription found mine).resolve_right (not_drops_of_error outcome found)
  | ok result =>
    obtain ⟨next, answer⟩ := result
    have spec := BusChange.apply_spec sound.indexed outcome
    refine sound.setWorker ⟨?_, ?_, ?_⟩
    · intro other attempt same
      cases same
      exact ⟨Nat.le_refl _, fun _ => rfl, outcome⟩
    · intro subscription handler attempt same
      cases same
      exact own.filed subscription handler none busy
    · intro token subscription found mine
      by_cases drops : change.drops token subscription
      · exact Or.inr ⟨change, _, rfl, drops⟩
      · have alive : next.live token = true := by
          rw [BusState.live, spec.kept token subscription found drops]
          rfl
        refine Or.inl ?_
        rw [keepHandlers_get _ _ _ _ alive]
        exact (held token subscription found mine).resolve_right drops

theorem mem_dropped {attempt : Attempt} {token : JSString} :
    token ∈ dropped attempt ↔ attempt.base.live token = true ∧ attempt.next.live token = false := by
  rw [dropped, List.mem_filter, ← Record.get_isSome]
  simp [BusState.live]

/-- A committed change. What it adds to the record of the run is told by the tokens its closure dropped. -/
theorem Sound.commit {pool : Pool V} (sound : pool.Sound) {worker : Nat} {change : BusChange V} {attempt : Attempt}
    (busy : (pool.workers worker).change = some (change, some attempt)) (current : attempt.version = pool.hub.version)
    {next : PoolWorker V} {runs cancels : List JSString} {records : Record Subscription} (idle : next.change = none)
    (own : ∀ token subscription, attempt.next.subscriptions.get token = some subscription →
      subscription.worker = some worker → (next.handlers.get token).isSome)
    (filed : ∀ token, records.get token =
      if (pool.records.get token).isSome then pool.records.get token else attempt.next.subscriptions.get token)
    (ran : runs = pool.runs ∨ ∃ token ∈ dropped attempt, runs = token :: pool.runs)
    (cancelled : cancels = pool.cancels ∨ runs = pool.runs ∧ ∃ token ∈ dropped attempt, cancels = token :: pool.cancels) :
    (⟨{ pool.hub with version := pool.hub.version + 1, state := some attempt.next },
      Function.update pool.workers worker next, pool.requests, runs, cancels, records,
      dropped attempt ++ pool.removed⟩ : Pool V).Sound := by
  obtain ⟨-, based, applied⟩ := (sound.workers worker).attempt change attempt busy
  have base : attempt.base = pool.state := based current
  have spec : ChangeSpec change attempt.base attempt.next attempt.answer :=
    BusChange.apply_spec (base ▸ sound.indexed) applied
  -- a token that was live before the commit has its record and was not removed
  have live : ∀ token, attempt.base.live token = true →
      token ∉ pool.removed ∧ pool.records.get token = attempt.base.subscriptions.get token := by
    intro token alive
    have recorded := sound.recorded token
    rw [base] at alive ⊢
    split at recorded
    · rw [BusState.live, recorded] at alive
      cases alive
    · exact ⟨‹_›, recorded.symm⟩
  have kept : ∀ token subscription, pool.records.get token = some subscription →
      records.get token = some subscription := by
    intro token subscription found
    rw [filed, found]
    rfl
  have old : ∀ token, (pool.records.get token).isSome → records.get token = pool.records.get token := by
    intro token some
    rw [filed, if_pos some]
  have fresh : ∀ token, attempt.base.subscriptions.get token = none →
      (attempt.next.subscriptions.get token).isSome → pool.records.get token = none := by
    intro token absent added
    obtain ⟨subscription, found⟩ := Option.isSome_iff_exists.mp added
    obtain ⟨held, rfl, issued⟩ := spec.added token subscription absent found
    cases taken : pool.records.get token with
    | none => rfl
    | some record =>
      obtain ⟨number, bound, named⟩ := sound.known token (by rw [taken]; rfl)
      have answered : ChangeAnswer.issued (issuedToken (attempt.base.sequence + 1)) = attempt.answer := by
        have pair := Except.ok.inj applied
        exact (Prod.mk.inj pair).2
      rw [issued] at answered
      injection answered with same
      rw [named] at same
      have := issuedToken_injective same
      rw [base] at this
      omega
  refine ⟨spec.indexed, ?_, ?_, ?_, ?_, ?_, ?_, ?_, ?_, ?_⟩
  · intro token
    show attempt.next.subscriptions.get token = _
    cases found : attempt.base.subscriptions.get token with
    | some subscription =>
      obtain ⟨stays, record⟩ := live token (by rw [BusState.live, found]; rfl)
      by_cases drops : change.drops token subscription
      · have gone := spec.dropped token subscription found drops
        rw [gone, if_pos]
        exact List.mem_append_left _ (mem_dropped.2 ⟨by rw [BusState.live, found]; rfl, by rw [BusState.live, gone]; rfl⟩)
      · have there := spec.kept token subscription found drops
        have outside : token ∉ dropped attempt ++ pool.removed := by
          rw [List.mem_append, mem_dropped, BusState.live, BusState.live, there]
          simp [stays]
        rw [there, if_neg outside, kept token subscription (record.trans found)]
    | none =>
      have outside : token ∉ dropped attempt := by
        rw [mem_dropped, BusState.live, found]
        simp
      cases added : attempt.next.subscriptions.get token with
      | some subscription =>
        have new := fresh token found (by rw [added]; rfl)
        have stays : token ∉ pool.removed := fun member => by
          have := sound.removed token member
          rw [new] at this
          cases this
        rw [if_neg (by simp [outside, stays]), filed, new, added]
        rfl
      | none =>
        by_cases member : token ∈ pool.removed
        · rw [if_pos (List.mem_append_right _ member)]
        · have recorded := sound.recorded token
          rw [← base, found, if_neg member] at recorded
          rw [if_neg (by simp [outside, member]), filed, ← recorded, added]
          rfl
  · intro token some
    rw [filed] at some
    split at some
    · obtain ⟨number, bound, named⟩ := sound.known token some
      exact ⟨number, le_trans (base ▸ bound) spec.sequence, named⟩
    · exact spec.indexed.issued token (Or.inl some)
  · intro token member
    rcases List.mem_append.mp member with now | before
    · obtain ⟨alive, -⟩ := mem_dropped.1 now
      have record := (live token alive).2
      have some : (pool.records.get token).isSome := by rw [record]; exact alive
      rw [old token some]
      exact some
    · rw [old token (sound.removed token before)]
      exact sound.removed token before
  · intro token member
    rcases cancelled with same | ⟨-, key, gone, same⟩
    · exact List.mem_append_right _ (sound.cancelled token (same ▸ member))
    · rw [same] at member
      rcases List.mem_cons.mp member with rfl | before
      · exact List.mem_append_left _ gone
      · exact List.mem_append_right _ (sound.cancelled token before)
  · rcases cancelled with same | ⟨-, key, gone, same⟩
    · exact same ▸ sound.cancelOnce
    · rw [same]
      refine List.nodup_cons.mpr ⟨fun member => ?_, sound.cancelOnce⟩
      exact (live key (mem_dropped.1 gone).1).1 (sound.cancelled key member)
  · intro token member
    rcases ran with same | ⟨key, gone, same⟩
    · have some := sound.ran token (same ▸ member)
      rw [old token some]
      exact some
    · rw [same] at member
      rcases List.mem_cons.mp member with rfl | before
      · have alive := (mem_dropped.1 gone).1
        have some : (pool.records.get token).isSome := by rw [(live token alive).2]; exact alive
        rw [old token some]
        exact some
      · rw [old token (sound.ran token before)]
        exact sound.ran token before
  · intro token subscription record once member
    have earlier : token ∈ pool.runs → token ∈ pool.removed ∧ token ∉ pool.cancels := by
      intro before
      rw [old token (sound.ran token before)] at record
      exact sound.spent token subscription record once before
    rcases cancelled with same | ⟨quiet, key, gone, same⟩
    · rw [same]
      rcases ran with still | ⟨key, gone, first⟩
      · obtain ⟨left, uncancelled⟩ := earlier (still ▸ member)
        exact ⟨List.mem_append_right _ left, uncancelled⟩
      · rw [first] at member
        rcases List.mem_cons.mp member with rfl | before
        · refine ⟨List.mem_append_left _ gone, fun inside => ?_⟩
          exact (live token (mem_dropped.1 gone).1).1 (sound.cancelled token inside)
        · obtain ⟨left, uncancelled⟩ := earlier before
          exact ⟨List.mem_append_right _ left, uncancelled⟩
    · obtain ⟨left, uncancelled⟩ := earlier (quiet ▸ member)
      refine ⟨List.mem_append_right _ left, ?_⟩
      rw [same, List.mem_cons, not_or]
      exact ⟨fun equal => (live key (mem_dropped.1 gone).1).1 (equal ▸ left), uncancelled⟩
  · intro token subscription record once
    have bound : token ∈ pool.runs → pool.runs.count token ≤ 1 := by
      intro before
      rw [old token (sound.ran token before)] at record
      exact sound.runOnce token subscription record once
    have count : pool.runs.count token ≤ 1 := by
      by_cases before : token ∈ pool.runs
      · exact bound before
      · rw [List.count_eq_zero_of_not_mem before]
        exact Nat.zero_le 1
    rcases ran with same | ⟨key, gone, same⟩
    · exact same ▸ count
    · rw [same]
      by_cases first : key = token
      · subst first
        have unrun : key ∉ pool.runs := by
          intro before
          rw [old key (sound.ran key before)] at record
          exact (live key (mem_dropped.1 gone).1).1 (sound.spent key subscription record once before).1
        rw [List.count_cons_self, List.count_eq_zero_of_not_mem unrun]
      · rw [List.count_cons_of_ne first]
        exact count
  · intro other
    show WorkerSound _ other (Function.update pool.workers worker next other)
    by_cases same : other = worker
    · subst same
      rw [Function.update_self]
      refine ⟨by simp [idle], by simp [idle], fun token subscription found mine => Or.inl ?_⟩
      exact own token subscription found mine
    · rw [Function.update_of_ne same]
      have theirs := sound.workers other
      refine ⟨?_, theirs.filed, ?_⟩
      · intro changing pending busyThere
        obtain ⟨bound, -, ran⟩ := theirs.attempt changing pending busyThere
        refine ⟨Nat.le_succ_of_le bound, fun equal => ?_, ran⟩
        simp only at equal
        omega
      · intro token subscription found mine
        have there : attempt.next.subscriptions.get token = some subscription := found
        cases before : attempt.base.subscriptions.get token with
        | none =>
          obtain ⟨held, rfl, -⟩ := spec.added token subscription before there
          have filedHere := (sound.workers worker).filed subscription held _ busy
          rw [filedHere] at mine
          exact absurd (Option.some.inj mine).symm same
        | some record =>
          have unchanged : record = subscription := by
            by_cases drops : change.drops token record
            · rw [spec.dropped token record before drops] at there
              cases there
            · rw [spec.kept token record before drops] at there
              exact Option.some.inj there
          rw [unchanged, base] at before
          exact theirs.held token subscription before mine

/-- What a committed change leaves to the records, unless it subscribes: nothing new. -/
theorem Sound.refiled {pool : Pool V} (sound : pool.Sound) {change : BusChange V} {attempt : Attempt}
    (base : attempt.base = pool.state) (spec : ChangeSpec change attempt.base attempt.next attempt.answer)
    (adds : ∀ subscription held, change ≠ .subscribe subscription held) (token : JSString) :
    pool.records.get token =
      if (pool.records.get token).isSome then pool.records.get token else attempt.next.subscriptions.get token := by
  split
  · rfl
  · rename_i missing
    have none : pool.records.get token = .none := by simpa using missing
    have absent : attempt.base.subscriptions.get token = .none := by
      rw [base, sound.recorded, none]
      split <;> rfl
    cases added : attempt.next.subscriptions.get token with
    | none => exact none
    | some subscription =>
      obtain ⟨held, same, -⟩ := spec.added token subscription absent added
      exact absurd same (adds subscription held)

/-- A handler of the worker whose subscription outlives a change was not dropped by its closure. -/
theorem Sound.heldAfter {pool : Pool V} (sound : pool.Sound) {worker : Nat} {change : BusChange V} {attempt : Attempt}
    (busy : (pool.workers worker).change = some (change, some attempt)) (base : attempt.base = pool.state)
    (spec : ChangeSpec change attempt.base attempt.next attempt.answer) {token : JSString} {subscription : Subscription}
    (before : attempt.base.subscriptions.get token ≠ none)
    (found : attempt.next.subscriptions.get token = some subscription) (mine : subscription.worker = some worker) :
    ((pool.workers worker).handlers.get token).isSome := by
  obtain ⟨record, there⟩ := Option.ne_none_iff_exists'.mp before
  have kept : ¬ change.drops token record := by
    intro drops
    rw [spec.dropped token record there drops] at found
    cases found
  have same : record = subscription := Option.some.inj ((spec.kept token record there kept).symm.trans found)
  rw [same] at there kept
  rw [base] at there
  rcases (sound.workers worker).held token subscription there mine with held | ⟨other, pending, running, drops⟩
  · exact held
  · rw [busy] at running
    cases running
    exact absurd drops kept

theorem Sound.write {pool : Pool V} (sound : pool.Sound) {worker : Nat} {change : BusChange V} {attempt : Attempt}
    (busy : (pool.workers worker).change = some (change, some attempt)) : (pool.write worker change attempt).Sound := by
  by_cases stale : pool.hub.version ≠ attempt.version
  · simp only [Pool.write, HubState.write, if_pos stale]
    refine sound.setWorker ⟨by simp, ?_, ?_⟩
    · intro subscription held pending same
      cases same
      exact (sound.workers worker).filed subscription held _ busy
    · intro token subscription found mine
      rcases (sound.workers worker).held token subscription found mine with held | ⟨other, pending, running, drops⟩
      · exact Or.inl held
      · rw [busy] at running
        cases running
        exact Or.inr ⟨change, none, rfl, drops⟩
  · have current : attempt.version = pool.hub.version := (not_not.mp stale).symm
    obtain ⟨-, based, applied⟩ := (sound.workers worker).attempt change attempt busy
    have base : attempt.base = pool.state := based current
    have spec : ChangeSpec change attempt.base attempt.next attempt.answer :=
      BusChange.apply_spec (base ▸ sound.indexed) applied
    -- for a change that adds nothing, what is live after it was live before
    have outlives : (∀ subscription held, change ≠ .subscribe subscription held) → ∀ token subscription,
        attempt.next.subscriptions.get token = some subscription → attempt.base.subscriptions.get token ≠ none := by
      intro adds token subscription found absent
      obtain ⟨held, same, -⟩ := spec.added token subscription absent found
      exact adds subscription held same
    have quiet : (∀ subscription held, change ≠ .subscribe subscription held) → ∀ token subscription,
        attempt.next.subscriptions.get token = some subscription → subscription.worker = some worker →
        ((pool.workers worker).handlers.get token).isSome := fun adds token subscription found mine =>
      sound.heldAfter busy base spec (outlives adds token subscription found) found mine
    -- the three changes that the run does not note
    have unnoted : (∀ subscription held, change ≠ .subscribe subscription held) → ∀ next : PoolWorker V,
        next.change = none → next.handlers = (pool.workers worker).handlers →
        (⟨{ pool.hub with version := pool.hub.version + 1, state := some attempt.next },
          Function.update pool.workers worker next, pool.requests, pool.runs, pool.cancels, pool.records,
          dropped attempt ++ pool.removed⟩ : Pool V).Sound := by
      intro adds next idle same
      exact sound.commit busy current idle (by rw [same]; exact quiet adds) (sound.refiled base spec adds) (Or.inl rfl)
        (Or.inl rfl)
    simp only [Pool.write, HubState.write, if_neg stale]
    cases change with
    | seed events => exact unnoted (by simp) _ rfl rfl
    | off everyone caller id => exact unnoted (by simp) _ rfl rfl
    | cancelOwned owner => exact unnoted (by simp) _ rfl rfl
    | cancel mayCancelOthers caller key =>
      rw [BusChange.apply] at applied
      cases found : attempt.base.subscriptions.get key with
      | none =>
        simp only [BusState.cancelIn, found] at applied
        have answered : ChangeAnswer.cancelled ⟨false, attempt.base.spent.get key = some true⟩ = attempt.answer :=
          (Prod.mk.inj (Except.ok.inj applied)).2
        simp only [← answered]
        exact unnoted (by simp) _ rfl rfl
      | some subscription =>
        simp only [BusState.cancelIn, found] at applied
        split at applied
        · cases applied
        · have result := Prod.mk.inj (Except.ok.inj applied)
          simp only [← result.2]
          have gone : key ∈ dropped attempt := by
            rw [mem_dropped, ← result.1, BusState.detachIn_live, BusState.live, found]
            simp
          exact sound.commit busy current rfl (quiet (by simp)) (sound.refiled base spec (by simp)) (Or.inl rfl)
            (Or.inr ⟨rfl, key, gone, rfl⟩)
    | spend claimed =>
      have result := Prod.mk.inj (Except.ok.inj applied)
      have erased : ∀ token subscription, attempt.next.subscriptions.get token = some subscription →
          subscription.worker = some worker →
          (((pool.workers worker).handlers.erase claimed).get token).isSome := by
        intro token subscription found mine
        have there := outlives (by simp) token subscription found
        have other : token ≠ claimed := by
          intro same
          obtain ⟨record, before⟩ := Option.ne_none_iff_exists'.mp there
          rw [spec.dropped token record before same] at found
          cases found
        rw [Record.get_erase, if_neg other]
        exact quiet (by simp) token subscription found mine
      by_cases alive : attempt.base.live claimed = true
      · have answered : ChangeAnswer.claimed true = attempt.answer := by
          rw [← result.2, BusState.claimOnceIn, if_pos alive]
        simp only [finish, ← answered]
        have gone : claimed ∈ dropped attempt := by
          obtain ⟨record, before⟩ := Option.isSome_iff_exists.mp alive
          refine mem_dropped.2 ⟨alive, ?_⟩
          rw [BusState.live, spec.dropped claimed record before rfl]
          rfl
        exact sound.commit busy current rfl erased (sound.refiled base spec (by simp)) (Or.inr ⟨claimed, gone, rfl⟩)
          (Or.inl rfl)
      · have answered : ChangeAnswer.claimed false = attempt.answer := by
          rw [← result.2, BusState.claimOnceIn, if_neg alive]
        simp only [finish, ← answered]
        exact sound.commit busy current rfl erased (sound.refiled base spec (by simp)) (Or.inl rfl) (Or.inl rfl)
    | subscribe filed held =>
      have result := Prod.mk.inj (Except.ok.inj applied)
      have answered : ChangeAnswer.issued (issuedToken (attempt.base.sequence + 1)) = attempt.answer := result.2
      have placed : ∀ token, attempt.next.subscriptions.get token =
          if token = issuedToken (attempt.base.sequence + 1) then some filed
          else attempt.base.subscriptions.get token := by
        intro token
        rw [← result.1]
        exact Record.get_set ..
      simp only [finish, ← answered]
      refine sound.commit busy current rfl ?_ ?_ (Or.inl rfl) (Or.inl rfl)
      · intro token subscription found mine
        rw [Record.get_set]
        split
        · rfl
        · rename_i other
          have before : attempt.base.subscriptions.get token ≠ none := by
            rw [placed, if_neg other] at found
            rw [found]
            simp
          rw [get_filter_kept fun _ => show attempt.next.live token = true by rw [BusState.live, found]; rfl]
          exact sound.heldAfter busy base spec before found mine
      · intro token
        rw [Record.get_set, placed]
        have unissued : pool.records.get (issuedToken (attempt.base.sequence + 1)) = none := by
          cases taken : pool.records.get (issuedToken (attempt.base.sequence + 1)) with
          | none => rfl
          | some record =>
            obtain ⟨number, bound, named⟩ := sound.known _ (by rw [taken]; rfl)
            have := issuedToken_injective named
            rw [base] at this
            omega
        by_cases same : token = issuedToken (attempt.base.sequence + 1)
        · rw [if_pos same, same, unissued]
          simp
        · rw [if_neg same, if_neg same]
          split
          · rfl
          · rename_i missing
            have none : pool.records.get token = .none := by simpa using missing
            rw [none, base, sound.recorded, none]
            split <;> rfl

theorem Sound.requests {pool : Pool V} (sound : pool.Sound) (requests : List (PoolRequest V)) :
    ({ pool with requests := requests } : Pool V).Sound :=
  ⟨sound.indexed, sound.recorded, sound.known, sound.removed, sound.cancelled, sound.cancelOnce, sound.ran,
    sound.spent, sound.runOnce, sound.workers⟩

theorem Sound.deliver {pool : Pool V} (sound : pool.Sound) (worker : Nat) (token : JSString) (args : List V)
    (stack : List (PoolFrame V)) : (pool.deliver worker token args stack).Sound := by
  unfold Pool.deliver
  simp only
  split
  · exact sound.restack worker stack
  · split
    · split
      · exact sound.restack worker _
      · exact (sound.restack worker _).requests _
    · exact sound.restack worker stack

/-- A handler runs of a subscription that is live and not a `once`. -/
theorem Sound.rerun {pool : Pool V} (sound : pool.Sound) {token : JSString} {subscription : Subscription}
    (found : pool.state.subscriptions.get token = some subscription) (often : subscription.once = false) :
    ({ pool with runs := token :: pool.runs } : Pool V).Sound := by
  have record : pool.records.get token = some subscription := by
    have recorded := sound.recorded token
    rw [found] at recorded
    split at recorded
    · cases recorded
    · exact recorded.symm
  have other : ∀ once filed, pool.records.get once = some filed → filed.once = true → once ≠ token := by
    intro once filed there single same
    rw [same, record] at there
    rw [← Option.some.inj there, often] at single
    cases single
  refine ⟨sound.indexed, sound.recorded, sound.known, sound.removed, sound.cancelled, sound.cancelOnce, ?_, ?_, ?_,
    sound.workers⟩
  · intro ran member
    rcases List.mem_cons.mp member with rfl | before
    · exact Option.isSome_iff_exists.mpr ⟨subscription, record⟩
    · exact sound.ran ran before
  · intro once filed there single member
    rcases List.mem_cons.mp member with same | before
    · exact absurd same (other once filed there single)
    · exact sound.spent once filed there single before
  · intro once filed there single
    show (token :: pool.runs).count once ≤ 1
    rw [List.count_cons_of_ne (Ne.symm (other once filed there single))]
    exact sound.runOnce once filed there single

theorem Sound.serve {pool : Pool V} (sound : pool.Sound) (ops : ValueOps V) {worker : Nat}
    (idle : (pool.workers worker).change = none) (token : JSString) (args : List V) (stack : List (PoolFrame V)) :
    (pool.serve ops worker token args stack).Sound := by
  unfold Pool.serve
  simp only
  split
  · exact sound.restack worker stack
  · split
    · rename_i gone
      refine sound.setWorker ⟨(sound.workers worker).attempt, (sound.workers worker).filed, ?_⟩
      intro live subscription found mine
      have other : live ≠ token := by
        intro same
        have there : pool.state.subscriptions.get live = some subscription := found
        rw [same, gone] at there
        cases there
      refine Or.inl ?_
      rw [Record.get_erase, if_neg other]
      exact sound.holds idle found mine
    · rename_i subscription found
      split
      · split
        · exact sound.begin idle stack fun _ _ same => by cases same
        · rename_i often
          exact (sound.restack worker _).rerun found (by simpa using often)
      · exact sound.restack worker stack

theorem Sound.step {ops : ValueOps V} {before after : Pool V} (sound : before.Sound) (step : PoolStep ops before after) :
    after.Sound := by
  cases step with
  | begin worker change scripted begun =>
    refine sound.begin scripted.1 _ fun subscription held same => ?_
    rw [same] at begun
    exact begun
  | read busy => exact sound.read busy
  | write busy => exact sound.write busy
  | emit worker id args scripted => exact sound.restack worker _
  | deliver idle top => exact sound.deliver _ _ _ _
  | serve idle top => exact sound.serve ops idle _ _ _
  | take args serving queued => exact (sound.restack _ _).requests _
  | leave idle top leaves => exact sound.restack _ _

end Pool

theorem PoolReach.sound {ops : ValueOps V} {pool : Pool V} (reach : PoolReach ops pool) : pool.Sound := by
  induction reach with
  | start => exact .start
  | next _ step ih => exact ih.step step

/-- What the workers of a pool agree on. -/
structure PoolAgreement (pool : Pool V) : Prop where
  once : ∀ token subscription, pool.records.get token = some subscription → subscription.once = true →
    pool.runs.count token ≤ 1
  exclusive : ∀ token subscription, pool.records.get token = some subscription → subscription.once = true →
    ¬ (token ∈ pool.cancels ∧ token ∈ pool.runs)
  cancelled : ∀ token, pool.cancels.count token ≤ 1
  committed : ∀ token, pool.state.subscriptions.get token =
    if token ∈ pool.removed then none else pool.records.get token
  held : ∀ worker token subscription, (pool.workers worker).change = none →
    pool.state.subscriptions.get token = some subscription → subscription.worker = some worker →
    ((pool.workers worker).handlers.get token).isSome

/-- Over every interleaving of reads and writes, a `once` runs at most once and never beside a `cancel` that
answered for it, a subscription is cancelled at most once, no committed change is lost, and a worker that is in no change
of its own holds the handlers of its live subscriptions. -/
theorem pool_agreement {ops : ValueOps V} {pool : Pool V} (reach : PoolReach ops pool) : PoolAgreement pool where
  once := reach.sound.runOnce
  exclusive := fun token subscription record once both =>
    (reach.sound.spent token subscription record once both.2).2 both.1
  cancelled := List.nodup_iff_count_le_one.mp reach.sound.cancelOnce
  committed := reach.sound.recorded
  held := fun _ _ _ idle found mine => reach.sound.holds idle found mine

/-- Two workers cancel one subscription: both read it, one commits, the other is refused. -/
theorem pool_agreement_race : ∃ pool : Pool Unit, pool.cancels = [issuedToken 1] ∧ PoolAgreement pool := by
  let ops : ValueOps Unit := ⟨fun _ => none, fun _ _ => (), fun _ _ => true, ()⟩
  let subscription : Subscription := ⟨js "tick", none, true, some 1⟩
  let cancel : BusChange Unit := .cancel true none (issuedToken 1)
  have subscribed : PoolReach ops ((((Pool.start.setWorker 1 ⟨[], [], some (.subscribe subscription ⟨0, none⟩, none)⟩).read 1
      (.subscribe subscription ⟨0, none⟩)).write 1 (.subscribe subscription ⟨0, none⟩)
      ⟨0, blankState, (blankState.subscribeIn subscription).1, .issued (issuedToken 1)⟩)) :=
    .next (.next (.next .start (.begin 1 (.subscribe subscription ⟨0, none⟩) ⟨rfl, Or.inl rfl⟩ rfl)) (.read rfl)) (.write rfl)
  have first := PoolReach.next subscribed (.begin 1 cancel ⟨rfl, Or.inl rfl⟩ trivial)
  have second := PoolReach.next first (.begin 2 cancel ⟨rfl, Or.inl rfl⟩ trivial)
  have readFirst := PoolReach.next second (@PoolStep.read _ ops _ 1 cancel rfl)
  have readSecond := PoolReach.next readFirst (@PoolStep.read _ ops _ 2 cancel rfl)
  have committed := PoolReach.next readSecond (@PoolStep.write _ ops _ 1 cancel _ rfl)
  have refused := PoolReach.next committed (@PoolStep.write _ ops _ 2 cancel _ rfl)
  exact ⟨_, by decide +kernel, pool_agreement refused⟩

end Xript
