import Xript.Bus.Kernel

namespace Xript

variable {V S T : Type}

/-- What a dispatch can see and change: the bus, the handlers each runtime holds, and the rest of what scripts can
reach. A bus without a peer is the runtime `none`. -/
structure BusWorld (V S : Type) where
  bus : BusState
  held : Option Nat → Record (HeldHandler V)
  rest : S

/-- The outcome of serving one subscription. -/
inductive Outcome (V : Type) where
  | skipped
  | ran (owner : Option JSString) (value : V)

/-- The code around a dispatch. `body` runs a handler, which may subscribe, cancel and emit as it likes, and is `none`
where it throws; `T` is the text that crosses between runtimes; `remote` asks another runtime and waits for the answer. -/
structure BusCode (V S T : Type) where
  ops : ValueOps V
  body : Nat → BusWorld V S → List V → BusWorld V S × Option V
  requestText : JSString → List V → T
  remote : Nat → T → BusWorld V S → BusWorld V S × T
  decodeOutcome : T → Outcome V

namespace BusWorld

def dropHandler (world : BusWorld V S) (self : Option Nat) (token : JSString) : BusWorld V S :=
  { world with held := Function.update world.held self ((world.held self).erase token) }

/-- The claim of a `once` in `serve`; the handler goes with it. -/
def claimOnce (world : BusWorld V S) (self : Option Nat) (token : JSString) : BusWorld V S × Bool :=
  let claimed := world.bus.claimOnceIn token
  ({ world.dropHandler self token with bus := claimed.1 }, claimed.2)

end BusWorld

namespace BusCode

variable (code : BusCode V S T)

/-- The call of the handler in `serve`: a throwing one contributes `undefined`. -/
def runHandler (world : BusWorld V S) (owner : Option JSString) (held : HeldHandler V) (args : List V) :
    BusWorld V S × Outcome V :=
  let result := code.body held.handler world (argsFor code.ops args)
  (result.1, .ran owner (result.2.getD code.ops.undefined))

def serve (self : Option Nat) (world : BusWorld V S) (token : JSString) (args : List V) :
    BusWorld V S × Outcome V :=
  match (world.held self).get token with
  | none => (world, .skipped)
  | some held =>
    match world.bus.subscriptions.get token with
    | none => (world.dropHandler self token, .skipped)
    | some subscription =>
      if held.accepts code.ops args then
        if subscription.once then
          match world.claimOnce self token with
          | (world, true) => code.runHandler world subscription.owner held args
          | (world, false) => (world, .skipped)
        else code.runHandler world subscription.owner held args
      else (world, .skipped)

/-- The other runtime a live subscription is held by, as `isMine` tells it. -/
def elsewhere (self : Option Nat) (subscription : Subscription) : Option Nat :=
  match self with
  | none => none
  | some _ => if subscription.worker = self then none else some (subscription.worker.getD 0)

def deliverRemote (worker : Nat) (world : BusWorld V S) (token : JSString) (args : List V) :
    BusWorld V S × Outcome V :=
  let answer := code.remote worker (code.requestText token args) world
  (answer.1, code.decodeOutcome answer.2)

def deliver (self : Option Nat) (world : BusWorld V S) (token : JSString) (args : List V) : BusWorld V S × Outcome V :=
  match world.bus.subscriptions.get token with
  | none => (world, .skipped)
  | some subscription =>
    match elsewhere self subscription with
    | none => code.serve self world token args
    | some worker => code.deliverRemote worker world token args

end BusCode

/-- `results[results.length] = { owner, value }` where the handler ran. -/
def pushOutcome (results : List (Option JSString × V)) : Outcome V → List (Option JSString × V)
  | .skipped => results
  | .ran owner value => results ++ [(owner, value)]

/-- A resumable dispatch. -/
structure BusSession (V : Type) where
  snapshot : List JSString
  args : List V
  index : Nat
  results : List (Option JSString × V)

def BusSession.push (session : BusSession V) (outcome : Outcome V) : BusSession V :=
  { session with index := session.index + 1, results := pushOutcome session.results outcome }

/-- What `stepSession` answers. -/
inductive SessionStep (T : Type) where
  | done
  | remote (worker : Nat) (request : T)

namespace BusCode

variable (code : BusCode V S T) (self : Option Nat)

/-- The loop of `dispatch` over what is left of the snapshot. -/
def dispatchFrom (args : List V) : BusWorld V S → List JSString → List (Option JSString × V) →
    BusWorld V S × List (Option JSString × V)
  | world, [], results => (world, results)
  | world, token :: tokens, results =>
    let served := code.deliver self world token args
    dispatchFrom args served.1 tokens (pushOutcome results served.2)

def dispatch (world : BusWorld V S) (id : JSString) (args : List V) : BusWorld V S × List (Option JSString × V) :=
  code.dispatchFrom self args world (world.bus.listeners id) []

def stepSession (world : BusWorld V S) (session : BusSession V) : BusWorld V S × BusSession V × SessionStep T :=
  match _next : session.snapshot[session.index]? with
  | none => (world, session, .done)
  | some token =>
    match world.bus.subscriptions.get token with
    | none => stepSession world (session.push .skipped)
    | some subscription =>
      match elsewhere self subscription with
      | some worker => (world, session, .remote worker (code.requestText token session.args))
      | none =>
        let served := code.serve self world token session.args
        stepSession served.1 (session.push served.2)
termination_by session.snapshot.length - session.index
decreasing_by
  all_goals
    have inside := (List.getElem?_eq_some_iff.mp _next).1
    simp only [BusSession.push]
    omega

/-- `begin` of a host session, or of `dispatchAwaiting`. -/
def beginSession (world : BusWorld V S) (id : JSString) (args : List V) : BusSession V :=
  ⟨world.bus.listeners id, args, 0, []⟩

/-- The host's loop: `step`, and where it names another runtime, ask it and `resume`; then `finish`. -/
def hostLoop : Nat → BusWorld V S → BusSession V → Option (BusWorld V S × List (Option JSString × V))
  | 0, _, _ => none
  | fuel + 1, world, session =>
    match code.stepSession self world session with
    | (world, session, .done) => some (world, session.results)
    | (world, session, .remote worker request) =>
      let answer := code.remote worker request world
      hostLoop fuel answer.1 (session.push (code.decodeOutcome answer.2))

/-- The promise walk of `dispatchAwaiting`: `walk` asks, `answered` takes the answer and walks on. The promise resolves
to the values. -/
def walkSession : Nat → BusWorld V S → BusSession V → Option (BusWorld V S × List V)
  | 0, _, _ => none
  | fuel + 1, world, session =>
    match code.stepSession self world session with
    | (world, session, .done) => some (world, session.results.map Prod.snd)
    | (world, session, .remote worker request) =>
      let answer := code.remote worker request world
      walkSession fuel answer.1 (session.push (code.decodeOutcome answer.2))

/-- The turns of a dispatch: the world and the token of each, with its outcome. -/
def turns (args : List V) : BusWorld V S → List JSString → List (BusWorld V S × JSString × Outcome V)
  | _, [] => []
  | world, token :: tokens =>
    let served := code.deliver self world token args
    (world, token, served.2) :: turns args served.1 tokens

end BusCode

/-- What crosses between runtimes of an outcome is its value. -/
def Outcome.map (f : V → V) : Outcome V → Outcome V
  | .skipped => .skipped
  | .ran owner value => .ran owner (f value)

def Outcome.result : Outcome V → Option (Option JSString × V)
  | .skipped => none
  | .ran owner value => some (owner, value)

/-- Another runtime serves a request as `serve` does, and answers with its encoded outcome. A value that crosses arrives
as `arrive` of it. -/
structure RemoteServes (code : BusCode V S T) (arrive : V → V) (encodeOutcome : Outcome V → T) : Prop where
  serves : ∀ worker token args world, code.remote worker (code.requestText token args) world =
    ((code.serve (some worker) world token (args.map arrive)).1,
      encodeOutcome (code.serve (some worker) world token (args.map arrive)).2)
  decodes : ∀ outcome, code.decodeOutcome (encodeOutcome outcome) = outcome.map arrive

namespace BusCode

variable (code : BusCode V S T) (self : Option Nat)

/-- The live subscription and the handler that a payload reaches at a token's turn, in the runtime `holder` that holds it. -/
def listening (holder : Option Nat) (world : BusWorld V S) (token : JSString) (args : List V) :
    Option (Subscription × HeldHandler V) :=
  match world.bus.subscriptions.get token, (world.held holder).get token with
  | some subscription, some held => if held.accepts code.ops args then some (subscription, held) else none
  | _, _ => none

/-- The outcome of a turn as the payload and the live subscriptions decide it: a listening handler runs, once its `once`
is claimed, and one that throws contributes `undefined`. -/
def turnOutcome (holder : Option Nat) (world : BusWorld V S) (token : JSString) (args : List V) : Outcome V :=
  match code.listening holder world token args with
  | none => .skipped
  | some (subscription, held) =>
    let entered := if subscription.once then (world.claimOnce holder token).1 else world
    .ran subscription.owner ((code.body held.handler entered (argsFor code.ops args)).2.getD code.ops.undefined)

/-- The outcome of a turn where the handler may be held by another runtime. -/
def expected (arrive : V → V) (world : BusWorld V S) (token : JSString) (args : List V) : Outcome V :=
  match world.bus.subscriptions.get token with
  | none => .skipped
  | some subscription =>
    match elsewhere self subscription with
    | none => code.turnOutcome self world token args
    | some worker => (code.turnOutcome (some worker) world token (args.map arrive)).map arrive

theorem serve_outcome (world : BusWorld V S) (token : JSString) (args : List V) :
    (code.serve self world token args).2 = code.turnOutcome self world token args := by
  unfold serve turnOutcome listening
  cases held : (world.held self).get token with
  | none => cases world.bus.subscriptions.get token <;> rfl
  | some handler =>
    cases found : world.bus.subscriptions.get token with
    | none => rfl
    | some subscription =>
      simp only
      by_cases accepted : handler.accepts code.ops args = true
      · rw [if_pos accepted, if_pos accepted]
        by_cases once : subscription.once = true
        · have claimed : (world.claimOnce self token).2 = true := by
            rw [BusWorld.claimOnce, BusState.claimOnceIn, if_pos (by rw [BusState.live, found]; rfl)]
          simp only [if_pos once]
          cases result : world.claimOnce self token with
          | mk entered done =>
            rw [result] at claimed
            simp only at claimed
            rw [claimed]
            rfl
        · simp only [if_neg once]
          rfl
      · rw [if_neg accepted, if_neg accepted]

theorem deliver_outcome {arrive : V → V} {encodeOutcome : Outcome V → T} (remote : RemoteServes code arrive encodeOutcome)
    (world : BusWorld V S) (token : JSString) (args : List V) :
    (code.deliver self world token args).2 = code.expected self arrive world token args := by
  unfold deliver expected
  cases world.bus.subscriptions.get token with
  | none => rfl
  | some subscription =>
    simp only
    cases elsewhere self subscription with
    | none => exact code.serve_outcome self world token args
    | some worker =>
      simp only [deliverRemote]
      rw [remote.serves, remote.decodes, serve_outcome]

theorem pushOutcome_eq (results : List (Option JSString × V)) (outcome : Outcome V) :
    pushOutcome results outcome = results ++ outcome.result.toList := by
  cases outcome with
  | skipped => exact (List.append_nil results).symm
  | ran owner value => rfl

theorem dispatchFrom_results (args : List V) (world : BusWorld V S) (tokens : List JSString)
    (results : List (Option JSString × V)) :
    (code.dispatchFrom self args world tokens results).2 =
      results ++ (code.turns self args world tokens).filterMap fun turn => turn.2.2.result := by
  induction tokens generalizing world results with
  | nil => simp [dispatchFrom, turns]
  | cons token tokens ih =>
    rw [dispatchFrom, turns, ih, pushOutcome_eq, List.filterMap_cons]
    cases (code.deliver self world token args).2 with
    | skipped => simp [Outcome.result]
    | ran owner value => simp [Outcome.result]

theorem turns_tokens (args : List V) (world : BusWorld V S) (tokens : List JSString) :
    (code.turns self args world tokens).map (fun turn => turn.2.1) = tokens := by
  induction tokens generalizing world with
  | nil => rfl
  | cons token tokens ih =>
    rw [turns, List.map_cons, ih]

theorem turns_expected {arrive : V → V} {encodeOutcome : Outcome V → T} (remote : RemoteServes code arrive encodeOutcome)
    (args : List V) (world : BusWorld V S) (tokens : List JSString) :
    ∀ turn ∈ code.turns self args world tokens, turn.2.2 = code.expected self arrive turn.1 turn.2.1 args := by
  induction tokens generalizing world with
  | nil => simp [turns]
  | cons token tokens ih =>
    intro turn member
    rw [turns] at member
    rcases List.mem_cons.mp member with rfl | later
    · exact code.deliver_outcome self remote world token args
    · exact ih _ turn later

/-- A session stops at a token that another runtime holds, and passes every other one as `deliver` does. -/
theorem stepSession_cases (world : BusWorld V S) (session : BusSession V) :
    (session.snapshot.length ≤ session.index ∧ code.stepSession self world session = (world, session, .done)) ∨
    ∃ token, session.snapshot[session.index]? = some token ∧
      ((∃ worker, code.stepSession self world session =
          (world, session, .remote worker (code.requestText token session.args)) ∧
          code.deliver self world token session.args = code.deliverRemote worker world token session.args) ∨
        code.stepSession self world session =
          code.stepSession self (code.deliver self world token session.args).1
            (session.push (code.deliver self world token session.args).2)) := by
  cases next : session.snapshot[session.index]? with
  | none =>
    refine Or.inl ⟨List.getElem?_eq_none_iff.mp next, ?_⟩
    rw [stepSession]
    split
    · rfl
    · rename_i other
      rw [next] at other
      cases other
  | some token =>
    refine Or.inr ⟨token, rfl, ?_⟩
    rw [stepSession]
    split
    · rename_i none
      rw [next] at none
      cases none
    · rename_i other same
      rw [next] at same
      cases same
      cases found : world.bus.subscriptions.get token with
      | none =>
        refine Or.inr ?_
        simp only [deliver, found]
      | some subscription =>
        cases place : elsewhere self subscription with
        | some worker =>
          refine Or.inl ⟨worker, ?_, ?_⟩
          · simp only [place]
          · simp only [deliver, found, place]
        | none =>
          refine Or.inr ?_
          simp only [deliver, found, place]

/-- The host's loop over what a session has left is the loop of `dispatch`. -/
theorem hostLoop_eq (n : Nat) (world : BusWorld V S) (session : BusSession V) (fuel : Nat)
    (left : session.snapshot.length - session.index ≤ n) (enough : n < fuel) :
    code.hostLoop self fuel world session =
      some (code.dispatchFrom self session.args world (session.snapshot.drop session.index) session.results) := by
  induction n generalizing world session fuel with
  | zero =>
    obtain ⟨fuel, rfl⟩ := Nat.exists_eq_succ_of_ne_zero (Nat.ne_of_gt enough)
    rcases code.stepSession_cases self world session with ⟨past, done⟩ | ⟨token, next, -⟩
    · rw [hostLoop, done, List.drop_eq_nil_of_le past]
      rfl
    · have inside := (List.getElem?_eq_some_iff.mp next).1
      omega
  | succ n ih =>
    obtain ⟨fuel, rfl⟩ := Nat.exists_eq_succ_of_ne_zero (Nat.ne_of_gt (Nat.lt_of_le_of_lt (Nat.zero_le _) enough))
    rcases code.stepSession_cases self world session with ⟨past, done⟩ | ⟨token, next, turn⟩
    · rw [hostLoop, done, List.drop_eq_nil_of_le past]
      rfl
    · have inside := (List.getElem?_eq_some_iff.mp next).1
      have split : session.snapshot.drop session.index = token :: session.snapshot.drop (session.index + 1) := by
        rw [List.drop_eq_getElem_cons inside, (List.getElem?_eq_some_iff.mp next).2]
      have less : ∀ outcome, (session.push outcome).snapshot.length - (session.push outcome).index ≤ n := by
        intro outcome
        simp only [BusSession.push]
        omega
      rw [split, dispatchFrom]
      rcases turn with ⟨worker, stopped, asked⟩ | passed
      · rw [hostLoop, stopped, asked]
        exact ih _ _ fuel (less _) (Nat.lt_of_succ_lt_succ enough)
      · have same : code.hostLoop self (fuel + 1) world session =
            code.hostLoop self (fuel + 1) (code.deliver self world token session.args).1
              (session.push (code.deliver self world token session.args).2) := by
          rw [hostLoop, hostLoop, passed]
        rw [same]
        exact ih _ _ (fuel + 1) (less _) (Nat.lt_of_succ_lt enough)

theorem walkSession_eq (fuel : Nat) (world : BusWorld V S) (session : BusSession V) :
    code.walkSession self fuel world session =
      (code.hostLoop self fuel world session).map fun ended => (ended.1, ended.2.map Prod.snd) := by
  induction fuel generalizing world session with
  | zero => rfl
  | succ fuel ih =>
    rw [walkSession, hostLoop]
    split
    · simp [*]
    · simp [*]

/-- The three ways of emitting are one dispatch. With as many turns as the snapshot has tokens the host's loop and the
promise walk end, with the world and the results of `dispatch`; and each turn, in the order of the snapshot, is a result
exactly where its subscription is live at that moment and its `match` accepts the payload. -/
theorem dispatch_ways_agree {arrive : V → V} {encodeOutcome : Outcome V → T}
    (remote : RemoteServes code arrive encodeOutcome) (world : BusWorld V S) (id : JSString) (args : List V) :
    (∀ fuel, (world.bus.listeners id).length < fuel →
      code.hostLoop self fuel world (beginSession world id args) = some (code.dispatch self world id args) ∧
      code.walkSession self fuel world (beginSession world id args) =
        some ((code.dispatch self world id args).1, (code.dispatch self world id args).2.map Prod.snd)) ∧
    (code.dispatch self world id args).2 =
      (code.turns self args world (world.bus.listeners id)).filterMap (fun turn => turn.2.2.result) ∧
    (code.turns self args world (world.bus.listeners id)).map (fun turn => turn.2.1) = world.bus.listeners id ∧
    ∀ turn ∈ code.turns self args world (world.bus.listeners id),
      turn.2.2 = code.expected self arrive turn.1 turn.2.1 args := by
  refine ⟨fun fuel enough => ?_, ?_, code.turns_tokens self args world _, code.turns_expected self remote args world _⟩
  · have looped := code.hostLoop_eq self (world.bus.listeners id).length world (beginSession world id args) fuel
      (Nat.sub_le _ _) enough
    refine ⟨looped, ?_⟩
    rw [walkSession_eq, looped]
    rfl
  · exact (code.dispatchFrom_results self args world _ []).trans (List.nil_append _)

end BusCode

/-- Handlers that answer with their own number, and another runtime that does as it is asked. -/
def echoCode : BusCode Nat Unit ((JSString × List Nat) ⊕ Outcome Nat) :=
  let ops : ValueOps Nat := ⟨fun _ => none, fun _ _ => 0, fun a b => a == b, 0⟩
  let body := fun handler (world : BusWorld Nat Unit) (_ : List Nat) => (world, some handler)
  let alone : BusCode Nat Unit ((JSString × List Nat) ⊕ Outcome Nat) :=
    ⟨ops, body, fun token args => .inl (token, args), fun _ text world => (world, text), fun _ => .skipped⟩
  { alone with
    remote := fun worker text world =>
      match text with
      | .inl (token, args) =>
        let served := alone.serve (some worker) world token args
        (served.1, .inr served.2)
      | .inr outcome => (world, .inr outcome)
    decodeOutcome := fun text =>
      match text with
      | .inl _ => .skipped
      | .inr outcome => outcome }

/-- Two runtimes with a listener each, the second one a `once`. -/
def echoWorld : BusWorld Nat Unit :=
  ⟨((blankState.subscribeIn ⟨js "tick", none, false, some 1⟩).1.subscribeIn ⟨js "tick", none, true, some 2⟩).1,
    fun runtime => if runtime = some 1 then [(issuedToken 1, ⟨7, none⟩)]
      else if runtime = some 2 then [(issuedToken 2, ⟨8, none⟩)] else [], ()⟩

theorem dispatch_ways_agree_echo :
    echoCode.hostLoop (some 1) 3 echoWorld (BusCode.beginSession echoWorld (js "tick") [5]) =
      some (echoCode.dispatch (some 1) echoWorld (js "tick") [5]) ∧
    (echoCode.dispatch (some 1) echoWorld (js "tick") [5]).2 = [(none, 7), (none, 8)] := by
  have remote : RemoteServes echoCode id Sum.inr := by
    refine ⟨fun worker token args world => ?_, fun outcome => ?_⟩
    · rw [List.map_id]
      rfl
    · cases outcome <;> rfl
  have agreed := (echoCode.dispatch_ways_agree (some 1) remote echoWorld (js "tick") [5]).1 3 (by decide +kernel)
  exact ⟨agreed.1, by decide +kernel⟩

end Xript
