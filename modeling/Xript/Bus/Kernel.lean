import Mathlib.Data.List.Lex
import Xript.Bus.Catalogue

namespace Xript

/-- A subscription record; its token is the key it is filed under. `worker` is `peer.self`, or `none` without a
peer. -/
structure Subscription where
  event : JSString
  owner : Option JSString
  once : Bool
  worker : Option Nat
  deriving DecidableEq, Repr

structure NamespaceClaim where
  claimPrefix : JSString
  owner : JSString
  deriving DecidableEq, Repr

/-- The state every change of the bus is committed to. -/
structure BusState where
  catalogue : List CatalogueRecord
  byEvent : Record (List JSString)
  subscriptions : Record Subscription
  spent : Record Bool
  claims : List NamespaceClaim
  sequence : Nat
  seeded : Bool

def blankState : BusState := ⟨[], [], [], [], [], 0, false⟩

structure CancelAnswer where
  cancelled : Bool
  spent : Bool
  deriving DecidableEq, Repr

/-- The token a subscription is issued. -/
def issuedToken (sequence : Nat) : JSString := js "sub-" ++ decimal sequence

/-- Takes a token from the list of an event; an empty list is deleted. -/
def unlist (byEvent : Record (List JSString)) (event token : JSString) : Record (List JSString) :=
  match byEvent.get event with
  | none => byEvent
  | some list =>
    if list.erase token = [] then byEvent.erase event else byEvent.set event (list.erase token)

namespace BusState

/-- Whether a token is live. -/
def live (state : BusState) (token : JSString) : Bool := (state.subscriptions.get token).isSome

def listeners (state : BusState) (id : JSString) : List JSString := (state.byEvent.get id).getD []

/-- The manifest's entries, once. -/
def seed (state : BusState) (events : List EventEntry) : BusState :=
  if state.seeded then state
  else { state with seeded := true, catalogue := state.catalogue ++ seedCatalogue events }

/-- What `detachIn` does to the state; the handler is dropped by the sandbox that holds it. -/
def detachIn (state : BusState) (token : JSString) : BusState :=
  match state.subscriptions.get token with
  | none => state
  | some subscription =>
    { state with
      subscriptions := state.subscriptions.erase token
      byEvent := unlist state.byEvent subscription.event token }

/-- The closure `subscribe` commits, with the token it issues. -/
def subscribeIn (state : BusState) (subscription : Subscription) : BusState × JSString :=
  let issued := issuedToken (state.sequence + 1)
  ({ state with
    sequence := state.sequence + 1
    subscriptions := state.subscriptions.set issued subscription
    byEvent := state.byEvent.set subscription.event (state.listeners subscription.event ++ [issued]) }, issued)

/-- The closure `serve` commits for a `once` subscription: it is claimed by the one that detaches it. -/
def claimOnceIn (state : BusState) (token : JSString) : BusState × Bool :=
  if state.live token then
    let detached := state.detachIn token
    ({ detached with spent := detached.spent.set token true }, true)
  else (state, false)

/-- The closure `cancelToken` commits. -/
def cancelIn (state : BusState) (mayCancelOthers : Bool) (caller : Option JSString) (key : JSString) :
    Except BusError (BusState × CancelAnswer) :=
  match state.subscriptions.get key with
  | some subscription =>
    if subscription.owner ≠ caller ∧ !mayCancelOthers then
      .error (.capability (js "events.cancel") (js "events.off"))
    else .ok (state.detachIn key, ⟨true, false⟩)
  | none => .ok (state, ⟨false, state.spent.get key = some true⟩)

/-- The loop that detaches the tokens whose record is picked at their turn, and counts them. -/
def detachWhere (state : BusState) (picks : Option Subscription → Bool) : List JSString → BusState × Nat
  | [] => (state, 0)
  | token :: tokens =>
    if picks (state.subscriptions.get token) then
      let rest := (state.detachIn token).detachWhere picks tokens
      (rest.1, rest.2 + 1)
    else state.detachWhere picks tokens

/-- `subscription.owner === owner`. -/
def ownedBy (owner : Option JSString) : Option Subscription → Bool
  | some subscription => subscription.owner = owner
  | none => false

/-- The closure `events.off` commits. A listed token is always live. -/
def offIn (state : BusState) (everyone : Bool) (caller : Option JSString) (id : JSString) : BusState × Nat :=
  state.detachWhere (fun record => everyone || ownedBy caller record) (state.listeners id)

/-- The closure `cancelOwnedBy` commits. -/
def cancelOwnedIn (state : BusState) (owner : Option JSString) : BusState × Nat :=
  state.detachWhere (ownedBy owner) state.subscriptions.keys

/-- The closure `events.claim` commits. -/
def claimIn (state : BusState) (caller claimPrefix : JSString) : BusState × Bool :=
  match state.claims.find? fun claim => claim.claimPrefix = claimPrefix with
  | some claim => (state, claim.owner = caller)
  | none => ({ state with claims := state.claims ++ [⟨claimPrefix, caller⟩] }, true)

/-- The closure `events.declare` commits. -/
def declareIn (state : BusState) (binding : JSString) (entry : Json) (party : JSString) : Except BusError BusState :=
  (declare binding entry party state.catalogue).map fun catalogue => { state with catalogue := catalogue }

/-- `events.names()`, in the order of code units. -/
def names (state : BusState) : List JSString := state.byEvent.keys.mergeSort fun a b => decide (a ≤ b)

/-- `events.listenerCount(id)`. -/
def listenerCount (state : BusState) (id : JSString) : Nat := (state.listeners id).length

/-- `events.listenerCount()`. -/
def listenerTotal (state : BusState) : Nat := state.subscriptions.keys.length

end BusState

/-- What the kernel asks of the values of the engine: the own enumerable fields of a plain object, a property read,
strict equality, and `undefined`. -/
structure ValueOps (V : Type) where
  fields : V → Option (Record V)
  read : V → JSString → V
  strictEqual : V → V → Bool
  undefined : V

variable {V : Type}

/-- A handler as it is held by the sandbox that subscribed it, with its `match`. The function is a name for the code
of a script. -/
structure HeldHandler (V : Type) where
  handler : Nat
  wanted : Option (Record V)

/-- The arguments a handler is called with: an object payload is spread to the values of its keys. -/
def argsFor (ops : ValueOps V) (args : List V) : List V :=
  match args with
  | [payload] =>
    match ops.fields payload with
    | some fields => fields.map Prod.snd
    | none => args
  | _ => args

def matchesPayload (ops : ValueOps V) (wanted : Record V) (args : List V) : Bool :=
  wanted.isEmpty ||
    match args with
    | [payload] =>
      (ops.fields payload).isSome && wanted.all fun entry => ops.strictEqual (ops.read payload entry.1) entry.2
    | _ => false

/-- Whether a held handler's `match` lets a payload through. -/
def HeldHandler.accepts (ops : ValueOps V) (held : HeldHandler V) (args : List V) : Bool :=
  match held.wanted with
  | some wanted => matchesPayload ops wanted args
  | none => true

end Xript
