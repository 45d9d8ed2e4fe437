import Xript.Bus.Calls

namespace Xript

variable {V : Type}

namespace BusMachine

/-- The indexes agree, and the tokens issued are those of the numbers up to the sequence, in order. -/
structure Sound (machine : BusMachine V) : Prop where
  indexed : machine.bus.Indexed
  tokens : machine.tokens = (List.range machine.bus.sequence).map fun number => issuedToken (number + 1)

theorem Sound.start (events : List EventEntry) : (start events : BusMachine V).Sound :=
  ⟨BusState.Indexed.blank.same rfl rfl rfl rfl, rfl⟩

/-- A step that leaves tokens and sequence alone. -/
theorem Sound.keep {machine next : BusMachine V} (sound : machine.Sound) (indexed : next.bus.Indexed)
    (tokens : next.tokens = machine.tokens) (sequence : next.bus.sequence = machine.bus.sequence) : next.Sound :=
  ⟨indexed, by rw [tokens, sequence, sound.tokens]⟩

theorem Sound.declare {machine next : BusMachine V} (sound : machine.Sound) {binding party : JSString} {entry : Json}
    (done : ((machine.bus.declareIn binding entry party).map fun bus => { machine with bus := bus }) = .ok next) :
    next.Sound := by
  cases outcome : machine.bus.declareIn binding entry party with
  | error error =>
    rw [outcome] at done
    cases done
  | ok bus =>
    rw [outcome] at done
    cases done
    refine sound.keep (sound.indexed.declare outcome) rfl ?_
    unfold BusState.declareIn at outcome
    cases found : Xript.declare binding entry party machine.bus.catalogue with
    | error error =>
      rw [found] at outcome
      cases outcome
    | ok catalogue =>
      rw [found] at outcome
      cases outcome
      rfl

theorem Sound.cancelOwned {machine : BusMachine V} (sound : machine.Sound) (owner : Option JSString) :
    (machine.detached (machine.bus.cancelOwnedIn owner).1).Sound :=
  sound.keep (sound.indexed.cancelOwned owner) rfl (BusState.detachWhere_sequence ..)

theorem Sound.beginDispatch {machine : BusMachine V} (sound : machine.Sound) (id : JSString) (args : List V) :
    (machine.beginDispatch id args).Sound :=
  sound.keep sound.indexed rfl rfl

theorem Sound.call {machine next : BusMachine V} (sound : machine.Sound) {context : CallContext} {call : BusCall V}
    (done : machine.call context call = .ok next) : next.Sound := by
  cases call with
  | subscribe once id handler options =>
    rw [BusMachine.call] at done
    cases guarded : subscribeGuard context (subscribeName once) machine.bus.catalogue id handler options with
    | error error =>
      rw [guarded] at done
      cases done
    | ok held =>
      rw [guarded] at done
      cases done
      refine ⟨sound.indexed.subscribe _, ?_⟩
      simp only [BusState.subscribeIn, sound.tokens, List.range_succ, List.map_append, List.map_cons, List.map_nil]
  | cancel key =>
    rw [BusMachine.call] at done
    cases outcome : machine.bus.cancelIn (context.satisfies (js "events.off")) context.caller key with
    | error error =>
      rw [outcome] at done
      cases done
    | ok answer =>
      rw [outcome] at done
      cases done
      exact sound.keep (sound.indexed.cancel outcome) rfl (BusState.cancelIn_sequence outcome)
  | off id =>
    rw [BusMachine.call] at done
    split at done
    · cases done
    · cases done
      exact sound.keep (sound.indexed.off _ _ _) rfl (BusState.detachWhere_sequence ..)
  | cancelOwned owner =>
    cases owner with
    | none =>
      cases done
      exact sound.cancelOwned context.caller
    | some owner =>
      rw [BusMachine.call] at done
      split at done
      · cases done
      · cases done
        exact sound.cancelOwned owner
  | emit id data =>
    rw [BusMachine.call] at done
    cases allowed : requireModEmit (js "events.emit") machine.bus.catalogue id with
    | error error =>
      rw [allowed] at done
      cases done
    | ok value =>
      rw [allowed] at done
      cases done
      exact sound.beginDispatch id _
  | declare entry =>
    rw [BusMachine.call] at done
    split at done
    · exact sound.declare done
    · cases done
  | claim claimPrefix =>
    rw [BusMachine.call] at done
    split at done
    · cases done
    · split at done
      · cases done
      · split at done
        · rename_i caller
          cases done
          refine sound.keep (sound.indexed.claim _ _) rfl ?_
          simp only [BusState.claimIn]
          split <;> rfl
        · cases done
  | hostEmit id args =>
    rw [BusMachine.call] at done
    split at done
    · cases done
      exact sound
    · cases done
      exact sound.beginDispatch id args
  | hostCancelOwned owner =>
    cases done
    exact sound.cancelOwned owner
  | hostDeclare entry => exact sound.declare done

theorem Sound.deliver {machine : BusMachine V} (sound : machine.Sound) (ops : ValueOps V) (token : JSString)
    (args : List V) (stack : List (BusFrame V)) : (machine.deliver ops token args stack).Sound := by
  unfold BusMachine.deliver
  split
  · split
    · simp only
      split
      · exact sound.keep (sound.indexed.claimOnce token) rfl (BusState.claimOnceIn_sequence machine.bus token)
      · exact sound.keep sound.indexed rfl rfl
    · exact sound.keep sound.indexed rfl rfl
  · exact sound.keep sound.indexed rfl rfl

theorem Sound.step {ops : ValueOps V} {before after : BusMachine V} (sound : before.Sound)
    (step : BusStep ops before after) : after.Sound := by
  cases step with
  | call context call _ done => exact sound.call done
  | deliver _ => exact sound.deliver ops _ _ _
  | leave value _ => exact sound.keep sound.indexed rfl rfl
  | finish _ => exact sound.keep sound.indexed rfl rfl

end BusMachine

theorem BusReach.sound {ops : ValueOps V} {events : List EventEntry} {machine : BusMachine V}
    (reach : BusReach ops events machine) : machine.Sound := by
  induction reach with
  | start => exact .start events
  | next _ step ih => exact ih.step step

/-- The tables of the bus describe one set of live subscriptions. -/
structure BusRepresentation (machine : BusMachine V) : Prop where
  listed : ∀ event token, token ∈ machine.bus.listeners event ↔
    ∃ subscription, machine.bus.subscriptions.get token = some subscription ∧ subscription.event = event
  filled : ∀ event list, machine.bus.byEvent.get event = some list → list ≠ [] ∧ list.Nodup
  ordered : ∀ event, ∃ numbers : List Nat, machine.bus.listeners event = numbers.map issuedToken ∧
    numbers.Pairwise (· < ·)
  unspent : ∀ token, machine.bus.live token = true → machine.bus.spent.get token = none
  fresh : machine.tokens.Nodup
  total : machine.bus.listenerTotal = (machine.bus.names.map machine.bus.listenerCount).sum

/-- The representation invariant of the bus holds in every state of every run, at every depth of calls made from
handlers. -/
theorem bus_representation {ops : ValueOps V} {events : List EventEntry} {machine : BusMachine V}
    (reach : BusReach ops events machine) : BusRepresentation machine where
  listed := reach.sound.indexed.listed
  filled := by
    intro event list found
    have distinct := reach.sound.indexed.nodup event
    rw [BusState.listeners, found] at distinct
    exact ⟨reach.sound.indexed.filled event list found, distinct⟩
  ordered := reach.sound.indexed.ordered
  unspent := by
    intro token alive
    cases spent : machine.bus.spent.get token with
    | none => rfl
    | some mark =>
      have dead := reach.sound.indexed.unspent token (by rw [spent]; rfl)
      rw [alive] at dead
      cases dead
  fresh := by
    rw [reach.sound.tokens]
    refine List.Nodup.map (fun first second same => ?_) List.nodup_range
    exact Nat.succ.inj (issuedToken_injective same)
  total := reach.sound.indexed.total

def unitOps : ValueOps Unit := ⟨fun _ => none, fun _ _ => (), fun _ _ => true, ()⟩

def tickEvent : EventEntry := ⟨js "tick", js "Fired on every tick.", none, none, none, none, none, none⟩

def anyContext : CallContext := ⟨some (js "alpha"), fun _ => true⟩

/-- A `once` that is subscribed and spent by an emit of the host. -/
theorem bus_representation_once : ∃ machine : BusMachine Unit,
    machine.bus.spent = [(js "sub-1", true)] ∧ BusRepresentation machine := by
  have script : ∀ machine : BusMachine Unit, machine.stack = [] → machine.scripted := by
    intro machine empty args rest results stack same
    rw [empty] at same
    cases same
  have subscribed : ∃ next, (BusMachine.start [tickEvent]).call anyContext
      (.subscribe true (js "tick") (some 0) (.absent : SubscribeOptions Unit)) = .ok next ∧
      next.stack = [] ∧ next.handlers = [(js "sub-1", ⟨0, none⟩)] ∧
      next.bus.catalogue = seedCatalogue [tickEvent] ∧ next.bus.byEvent = [(js "tick", [js "sub-1"])] ∧
      next.bus.subscriptions = [(js "sub-1", ⟨js "tick", some (js "alpha"), true, none⟩)] ∧ next.bus.spent = [] :=
    ⟨_, rfl, rfl, rfl, rfl, rfl, rfl, rfl⟩
  obtain ⟨machine, called, idle, handlers, catalogue, byEvent, subscriptions, spent⟩ := subscribed
  have first : BusReach unitOps [tickEvent] machine :=
    .next .start (.call anyContext _ (script _ rfl) called)
  have declared : (resolveEvent (seedCatalogue [tickEvent]) (js "tick")).isNone = false := by decide +kernel
  have emitted : machine.call anyContext (.hostEmit (js "tick") []) = .ok (machine.beginDispatch (js "tick") []) := by
    rw [BusMachine.call, if_neg]
    rw [catalogue, declared]
    decide +kernel
  have second := BusReach.next first (.call anyContext _ (script _ idle) emitted)
  have listed : (machine.beginDispatch (js "tick") []).stack = [.dispatch [] [js "sub-1"] []] := by
    simp only [BusMachine.beginDispatch, idle, BusState.listeners, byEvent]
    rfl
  have third := BusReach.next second (.deliver listed)
  refine ⟨_, ?_, bus_representation third⟩
  simp only [BusMachine.deliver, BusMachine.beginDispatch, subscriptions, handlers]
  have found : Record.get [(js "sub-1", (⟨js "tick", some (js "alpha"), true, none⟩ : Subscription))] (js "sub-1") =
      some ⟨js "tick", some (js "alpha"), true, none⟩ := by decide +kernel
  have held : Record.get [(js "sub-1", (⟨0, none⟩ : HeldHandler Unit))] (js "sub-1") = some ⟨0, none⟩ := rfl
  simp only [found, held, HeldHandler.accepts, if_true, BusMachine.detached, BusState.claimOnceIn, BusState.live,
    subscriptions, Option.isSome_some, (BusState.detachIn_fields machine.bus (js "sub-1")).1, spent]
  rfl

end Xript
