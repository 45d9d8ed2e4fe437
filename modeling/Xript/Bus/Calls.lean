import Xript.Bus.Index

namespace Xript

variable {V : Type}

/-- The `options` of a subscription, as far as its checks tell them apart. -/
inductive SubscribeOptions (V : Type) where
  | absent
  | notObject
  | badMatch
  | wanted (keys : Record V)

/-- Who calls, and what the granted capabilities satisfy. -/
structure CallContext where
  caller : Option JSString
  satisfies : JSString → Bool

/-- `resolveConcrete`. -/
def resolveConcrete (binding : JSString) (catalogue : List CatalogueRecord) (id : JSString) :
    Except BusError CatalogueRecord :=
  if id = [] then .error (.binding binding (js "the event id must be a non-empty string"))
  else if !isConcrete id then
    .error (.binding binding (js "'" ++ id ++
      js "' is a family shape, not an event; use a concrete id such as one with every <segment> filled in"))
  else
    match resolveEvent catalogue id with
    | some record => .ok record
    | none => .error (.binding binding (js "event '" ++ id ++ js "' is not declared by the host"))

/-- The match a subscription stores, once its keys are checked against those the event declares. -/
def readMatch (binding id : JSString) (entry : EventEntry) : SubscribeOptions V → Except BusError (Option (Record V))
  | .absent => .ok none
  | .notObject => .error (.binding binding (js "options must be an object"))
  | .badMatch => .error (.binding binding (js "options.match must be an object of payload keys to values"))
  | .wanted fields =>
    match entry.keys with
    | none => .ok (some fields)
    | some declared =>
      match fields.keys.find? fun key => key ∉ declared with
      | some key =>
        .error (.binding binding (js "match key '" ++ key ++ js "' is not one of the payload keys event '" ++ id ++
          js "' declares"))
      | none => .ok (some fields)

/-- The checks of `events.on` and `events.once`; a handler that is no function is `none`. -/
def subscribeGuard (context : CallContext) (binding : JSString) (catalogue : List CatalogueRecord) (id : JSString)
    (handler : Option Nat) (options : SubscribeOptions V) : Except BusError (HeldHandler V) := do
  let record ← resolveConcrete binding catalogue id
  let handler ← match handler with
    | some handler => .ok handler
    | none => .error (.binding binding (js "expected a handler function"))
  match record.entry.capability with
  | some capability =>
    if context.satisfies capability then pure () else .error (.capability binding capability)
  | none => pure ()
  let wanted ← readMatch binding id record.entry options
  return ⟨handler, wanted⟩

def requireModEmit (binding : JSString) (catalogue : List CatalogueRecord) (id : JSString) : Except BusError Unit := do
  let record ← resolveConcrete binding catalogue id
  if record.entry.emit = some .mods then return ()
  else .error (.binding binding (js "event '" ++ id ++
    js "' is emitted by the host only; a mod may emit an event declared with \"emit\": \"mods\""))

/-- What is on the stack above the script that called: a dispatch with the tokens still to come, or a handler. -/
inductive BusFrame (V : Type) where
  | dispatch (args : List V) (rest : List JSString) (results : List (Option JSString × V))
  | handler (owner : Option JSString)

/-- One runtime's bus at a moment of a run, with every token it has issued. -/
structure BusMachine (V : Type) where
  bus : BusState
  handlers : Record (HeldHandler V)
  stack : List (BusFrame V)
  tokens : List JSString

/-- A call a script or the host makes. -/
inductive BusCall (V : Type) where
  | subscribe (once : Bool) (id : JSString) (handler : Option Nat) (options : SubscribeOptions V)
  | cancel (key : JSString)
  | off (id : JSString)
  | cancelOwned (owner : Option (Option JSString))
  | emit (id : JSString) (data : Option V)
  | declare (entry : Json)
  | claim (claimPrefix : JSString)
  | hostEmit (id : JSString) (args : List V)
  | hostCancelOwned (owner : Option JSString)
  | hostDeclare (entry : Json)

namespace BusMachine

def start (events : List EventEntry) : BusMachine V := ⟨blankState.seed events, [], [], []⟩

/-- Commits a change that only detaches: the handlers of the tokens it detached are dropped. -/
def detached (machine : BusMachine V) (next : BusState) : BusMachine V :=
  { machine with
    bus := next
    handlers := machine.handlers.filter fun entry => next.live entry.1 || !machine.bus.live entry.1 }

/-- A dispatch begins with a snapshot of the listeners. -/
def beginDispatch (machine : BusMachine V) (id : JSString) (args : List V) : BusMachine V :=
  { machine with stack := .dispatch args (machine.bus.listeners id) [] :: machine.stack }

def subscribeName (once : Bool) : JSString := if once then js "events.once" else js "events.on"

/-- A call, up to its answer or to the start of a dispatch; a call that throws changes nothing. -/
def call (machine : BusMachine V) (context : CallContext) : BusCall V → Except BusError (BusMachine V)
  | .subscribe once id handler options => do
    let held ← subscribeGuard context (subscribeName once) machine.bus.catalogue id handler options
    let subscribed := machine.bus.subscribeIn ⟨id, context.caller, once, none⟩
    return { machine with
      bus := subscribed.1
      handlers := machine.handlers.set subscribed.2 held
      tokens := machine.tokens ++ [subscribed.2] }
  | .cancel key => do
    let answer ← machine.bus.cancelIn (context.satisfies (js "events.off")) context.caller key
    return machine.detached answer.1
  | .off id =>
    if id = [] then .error (.binding (js "events.off") (js "the event id must be a non-empty string"))
    else .ok (machine.detached (machine.bus.offIn (context.satisfies (js "events.off")) context.caller id).1)
  | .cancelOwned none => .ok (machine.detached (machine.bus.cancelOwnedIn context.caller).1)
  | .cancelOwned (some owner) =>
    if owner ≠ context.caller ∧ !context.satisfies (js "events.off") then
      .error (.capability (js "events.cancelOwned") (js "events.off"))
    else .ok (machine.detached (machine.bus.cancelOwnedIn owner).1)
  | .emit id data => do
    requireModEmit (js "events.emit") machine.bus.catalogue id
    return machine.beginDispatch id data.toList
  | .declare entry =>
    if context.satisfies (js "events.declare") then
      (machine.bus.declareIn (js "events.declare") entry (modParty context.caller)).map fun bus =>
        { machine with bus := bus }
    else .error (.capability (js "events.declare") (js "events.declare"))
  | .claim claimPrefix =>
    if claimPrefix = [] then .error (.binding (js "events.claim") (js "the prefix must be a non-empty string"))
    else if !context.satisfies (js "events.claim") then .error (.capability (js "events.claim") (js "events.claim"))
    else
      match context.caller with
      | some caller => .ok { machine with bus := (machine.bus.claimIn caller claimPrefix).1 }
      | none =>
        .error (.binding (js "events.claim")
          (js "only a mod can hold a namespace, and this code is not attributed to one"))
  | .hostEmit id args =>
    if id = [] ∨ !isConcrete id ∨ (resolveEvent machine.bus.catalogue id).isNone then .ok machine
    else .ok (machine.beginDispatch id args)
  | .hostCancelOwned owner => .ok (machine.detached (machine.bus.cancelOwnedIn owner).1)
  | .hostDeclare entry =>
    (machine.bus.declareIn (js "declareEvent") entry (js "host")).map fun bus => { machine with bus := bus }

/-- The turn of one token of a snapshot: `deliver` and `serve` up to the call of the handler. `stack` is the stack
once the token's turn is over. -/
def deliver (ops : ValueOps V) (machine : BusMachine V) (token : JSString) (args : List V) (stack : List (BusFrame V)) :
    BusMachine V :=
  match machine.bus.subscriptions.get token, machine.handlers.get token with
  | some subscription, some held =>
    if held.accepts ops args then
      let entered := BusFrame.handler subscription.owner :: stack
      if subscription.once then
        { machine.detached (machine.bus.claimOnceIn token).1 with stack := entered }
      else { machine with stack := entered }
    else { machine with stack := stack }
  | _, _ => { machine with stack := stack }

/-- A script runs: no dispatch is on top of the stack. -/
def scripted (machine : BusMachine V) : Prop := ∀ args rest results stack,
  machine.stack ≠ .dispatch args rest results :: stack

end BusMachine

/-- One step of a run. A script that runs, at the top or inside a handler, makes any call it likes and a handler ends
when it likes, with a value or by throwing. -/
inductive BusStep (ops : ValueOps V) : BusMachine V → BusMachine V → Prop
  | call {machine next : BusMachine V} (context : CallContext) (call : BusCall V) :
      machine.scripted → machine.call context call = .ok next → BusStep ops machine next
  | deliver {machine : BusMachine V} {args : List V} {token : JSString} {rest : List JSString}
      {results : List (Option JSString × V)} {stack : List (BusFrame V)} :
      machine.stack = .dispatch args (token :: rest) results :: stack →
      BusStep ops machine (machine.deliver ops token args (.dispatch args rest results :: stack))
  | leave {machine : BusMachine V} {owner : Option JSString} {args : List V} {rest : List JSString}
      {results : List (Option JSString × V)} {stack : List (BusFrame V)} (value : Option V) :
      machine.stack = .handler owner :: .dispatch args rest results :: stack →
      BusStep ops machine { machine with
        stack := .dispatch args rest (results ++ [(owner, value.getD ops.undefined)]) :: stack }
  | finish {machine : BusMachine V} {args : List V} {results : List (Option JSString × V)}
      {stack : List (BusFrame V)} :
      machine.stack = .dispatch args [] results :: stack → BusStep ops machine { machine with stack := stack }

/-- The machines that runs reach from a bus that has just been installed. -/
inductive BusReach (ops : ValueOps V) (events : List EventEntry) : BusMachine V → Prop
  | start : BusReach ops events (.start events)
  | next {before after : BusMachine V} : BusReach ops events before → BusStep ops before after →
      BusReach ops events after

end Xript
