import Xript.Pool.Queue

namespace Xript

def Replying.isWon : Replying → Bool
  | .won | .lowered | .retained | .finished true => true
  | _ => false

def Replying.isLowered : Replying → Bool
  | .lowered | .retained | .finished true => true
  | _ => false

def Replying.isRetained : Replying → Bool
  | .retained | .finished true => true
  | _ => false

def Replying.isFinished : Replying → Bool
  | .finished _ => true
  | _ => false

def Shedding.isWon : Shedding → Bool
  | .won | .lowered | .cancelled | .finished => true
  | _ => false

def Shedding.isLowered : Shedding → Bool
  | .lowered | .cancelled | .finished => true
  | _ => false

/-- A pass has the call in hand. -/
def Shedding.inHand : Shedding → Bool
  | .removed | .won | .lowered | .cancelled => true
  | _ => false

def Dispatching.rest : Dispatching → Nat
  | .built => 3
  | .counted => 2
  | .queued => 1
  | .registered => 0

def Replying.rest : Replying → Nat
  | .waiting => 5
  | .called => 4
  | .won => 3
  | .lowered => 2
  | .retained | .lost => 1
  | .finished _ => 0

def Shedding.rest : Shedding → Nat
  | .untouched => 5
  | .removed => 4
  | .won => 3
  | .lowered => 2
  | .cancelled => 1
  | .lost | .finished => 0

/-- What an access adds to the depth of the worker. -/
def CallAccess.delta : CallAccess → Int
  | .count => 1
  | .lower | .lowerShed => -1
  | _ => 0

/-- A call that is so far counts towards the depth of its worker. -/
def countedIn (d : Dispatching) (r : Replying) (h : Shedding) : Bool :=
  d ≠ .built && !r.isLowered && !h.isLowered

/-- A call that is so far is in the queue of its worker. -/
def queuedIn (d : Dispatching) (r : Replying) (h : Shedding) : Bool :=
  (d = .queued || d = .registered) && h = .untouched && !r.isRetained

/-- The steps its threads have left for a call that is so far. -/
def restOf (d : Dispatching) (r : Replying) (h : Shedding) : Nat := d.rest + r.rest + h.rest

/-- How an access moves a call on, and which of its threads has won it by then. -/
inductive Move : CallAccess → Dispatching → Replying → Shedding → Dispatching → Replying → Shedding → Prop
  | count : Move .count .built .waiting .untouched .counted .waiting .untouched
  | push : Move .push .counted .waiting .untouched .queued .waiting .untouched
  | register (h : Shedding) : Move .register .queued .waiting h .registered .waiting h
  | completed (h : Shedding) : Move .register .queued .waiting h .registered .called h
  | ready (d : Dispatching) (h : Shedding) : Move .complete d .waiting h d .waiting h
  | reply (h : Shedding) : Move .complete .registered .waiting h .registered .called h
  | cancel (d : Dispatching) (r : Replying) (h : Shedding) : Move .cancel d r h d r h
  | settle (h : Shedding) (first : h.isWon = false) : Move .settle .registered .called h .registered .won h
  | beaten (h : Shedding) (second : h.isWon = true) : Move .settle .registered .called h .registered .lost h
  | lower (h : Shedding) (first : h.isWon = false) : Move .lower .registered .won h .registered .lowered h
  | retain (h : Shedding) (first : h.isWon = false) : Move .retain .registered .lowered h .registered .retained h
  | deliver (h : Shedding) (first : h.isWon = false) :
    Move .deliver .registered .retained h .registered (.finished true) h
  | refuse (h : Shedding) (second : h.isWon = true) :
    Move .deliver .registered .lost h .registered (.finished false) h
  | remove (d : Dispatching) (r : Replying) (queued : d = .queued ∨ d = .registered) :
    Move .remove d r .untouched d r .removed
  | claim (d : Dispatching) (r : Replying) (queued : d = .queued ∨ d = .registered) (first : r.isWon = false) :
    Move .claim d r .removed d r .won
  | lose (d : Dispatching) (r : Replying) (second : r.isWon = true) : Move .claim d r .removed d r .lost
  | lowerShed (d : Dispatching) (r : Replying) (queued : d = .queued ∨ d = .registered) (first : r.isWon = false) :
    Move .lowerShed d r .won d r .lowered
  | trip (d : Dispatching) (r : Replying) (first : r.isWon = false) : Move .trip d r .lowered d r .cancelled
  | fail (d : Dispatching) (r : Replying) (first : r.isWon = false) : Move .fail d r .cancelled d r .finished

theorem Replying.not_lowered {r : Replying} (first : r.isWon = false) : r.isLowered = false := by
  cases r with
  | finished won =>
    cases won with
    | true => cases first
    | false => rfl
  | _ => first | rfl | cases first

theorem Shedding.not_lowered {h : Shedding} (first : h.isWon = false) : h.isLowered = false := by
  cases h <;> first | rfl | cases first

section

variable {access : CallAccess} {d d' : Dispatching} {r r' : Replying} {h h' : Shedding}

/-- A call counts from `count` on until whoever won it lowers the depth. -/
theorem Move.counted (move : Move access d r h d' r' h') :
    (if countedIn d' r' h' = true then 1 else 0 : Int) = (if countedIn d r h = true then 1 else 0) + access.delta := by
  cases move with
  | lower h first =>
    rw [countedIn, countedIn, Shedding.not_lowered first]
    rfl
  | lowerShed d r queued first =>
    rw [countedIn, countedIn, Replying.not_lowered first]
    rcases queued with rfl | rfl <;> rfl
  | _ => simp [countedIn, CallAccess.delta, Replying.isLowered, Shedding.isLowered]

/-- A call is in the queue from `push` on until its reply takes it out or a pass does. -/
theorem Move.queued (move : Move access d r h d' r' h') :
    (access = .push → queuedIn d r h = false ∧ queuedIn d' r' h' = true) ∧
      (access = .retain ∨ access = .remove → queuedIn d' r' h' = false) ∧
      (access ≠ .push → access ≠ .retain → access ≠ .remove → queuedIn d' r' h' = queuedIn d r h) := by
  cases move with
  | refuse h second =>
    cases h with
    | untouched | removed | lost => cases second
    | _ => simp [queuedIn]
  | _ => simp [queuedIn, Replying.isRetained]

/-- A pass has a call in hand from `remove` on until it loses the call or fails it. -/
theorem Move.inHand (move : Move access d r h d' r' h') :
    (access = .remove → h.inHand = false ∧ h'.inHand = true) ∧
      (access = .claim → h.inHand = true ∧ h'.inHand = !r.isWon) ∧
      (access = .fail → h.inHand = true ∧ h'.inHand = false) ∧
      (access = .lowerShed ∨ access = .trip → h.inHand = true ∧ h'.inHand = true) ∧
      (access ≠ .remove → access ≠ .claim → access ≠ .fail → h'.inHand = h.inHand) := by
  cases move <;> simp_all [Shedding.inHand]

/-- A pass wins a call only by its `claim`. -/
theorem Move.won (move : Move access d r h d' r' h') (won : h'.isWon = true) :
    h.isWon = true ∨ access = .claim ∧ h = .removed ∧ r.isWon = false := by
  cases move with
  | claim d r queued first => exact Or.inr ⟨rfl, rfl, first⟩
  | _ => exact Or.inl won

/-- Every access but those of the runtime and the host leaves its thread less to do. -/
theorem Move.rest (move : Move access d r h d' r' h') :
    restOf d' r' h' < restOf d r h ∨ (access = .complete ∨ access = .cancel) := by
  cases move <;> simp [restOf, Dispatching.rest, Replying.rest, Shedding.rest]

end

namespace AdmittedCall

def counted (x : AdmittedCall) : Bool := countedIn x.dispatching x.replying x.shedding

def queued (x : AdmittedCall) : Bool := queuedIn x.dispatching x.replying x.shedding

/-- No thread is in the middle of something about the call. -/
def quiet (x : AdmittedCall) : Bool :=
  x.dispatching = .registered && (x.replying = .waiting || x.replying.isFinished) && !x.shedding.inHand

def rest (x : AdmittedCall) : Nat := restOf x.dispatching x.replying x.shedding

/-- The flag is set by the reply or by a pass, never by both, and whoever comes last to the completer finds it gone. -/
structure Sound (x : AdmittedCall) : Prop where
  settled : x.settled = (x.replying.isWon || x.shedding.isWon)
  once : ¬ (x.replying.isWon = true ∧ x.shedding.isWon = true)
  lostReply : x.replying = .lost ∨ x.replying = .finished false → x.shedding.isWon = true
  lostPass : x.shedding = .lost → x.replying.isWon = true
  removed : x.shedding ≠ .untouched → x.dispatching = .queued ∨ x.dispatching = .registered
  called : x.replying ≠ .waiting ↔ x.slot = .taken
  registered : x.slot = .taken → x.dispatching = .registered
  ready : x.dispatching = .registered → x.slot ≠ .ready
  held : x.held = !(x.replying.isFinished || decide (x.shedding = .finished))
  unanswered : x.held = true → x.answers = []
  answered : x.held = false → x.answers.length = 1

theorem Sound.built : built.Sound := by
  constructor <;> decide

/-- A thread that has come so far is the one to go on. -/
theorem then_of_ite {c : Prop} [Decidable c] {x y : AdmittedCall} (taken : (if c then some x else none) = some y) :
    c ∧ y = x := by
  obtain ⟨here, same⟩ := Option.ite_none_right_eq_some.mp taken
  exact ⟨here, (Option.some.inj same).symm⟩

/-- A callback that goes on without winning, losing or ending keeps a call sound. -/
theorem Sound.replies {x : AdmittedCall} (sound : x.Sound) {replying : Replying} {slot : ReplySlot}
    {dispatching : Dispatching} (won : replying.isWon = x.replying.isWon)
    (finished : replying.isFinished = x.replying.isFinished) (kept : replying ≠ .lost ∧ replying ≠ .finished false)
    (called : replying ≠ .waiting ↔ slot = .taken)
    (removed : x.shedding ≠ .untouched → dispatching = .queued ∨ dispatching = .registered)
    (registered : slot = .taken → dispatching = .registered) (ready : dispatching = .registered → slot ≠ .ready) :
    Sound { x with replying := replying, slot := slot, dispatching := dispatching } :=
  { sound with
    settled := by rw [sound.settled, won]
    once := by
      rw [won]
      exact sound.once
    lostReply := fun lost => absurd lost (not_or.mpr kept)
    lostPass := fun lost => won.trans (sound.lostPass lost)
    removed := removed
    called := called
    registered := registered
    ready := ready
    held := by rw [sound.held, finished] }

/-- A pass that goes on without winning, losing or ending keeps a call sound. -/
theorem Sound.sheds {x : AdmittedCall} (sound : x.Sound) {shedding : Shedding} {cancelled : Bool}
    (won : shedding.isWon = x.shedding.isWon) (before : x.shedding ≠ .finished) (after : shedding ≠ .finished)
    (kept : shedding ≠ .lost) (removed : x.dispatching = .queued ∨ x.dispatching = .registered) :
    Sound { x with shedding := shedding, cancelled := cancelled } :=
  { sound with
    settled := by rw [sound.settled, won]
    once := by
      rw [won]
      exact sound.once
    lostReply := fun lost => won.trans (sound.lostReply lost)
    lostPass := fun lost => absurd lost kept
    removed := fun _ => removed
    held := by rw [sound.held, decide_eq_false before, decide_eq_false after] }

/-- The last step of whoever answers: the completer is used if it is still there. -/
theorem Sound.answers {x : AdmittedCall} (sound : x.Sound) {answerer : AnsweredBy} {answers : List AnsweredBy}
    (same : answers = if x.held then x.answers ++ [answerer] else x.answers) : answers.length = 1 := by
  cases held : x.held with
  | true => rw [same, held, if_pos rfl, sound.unanswered held, List.nil_append, List.length_singleton]
  | false => rw [same, held, if_neg (by decide), sound.answered held]

theorem queued_iff {x : AdmittedCall} : x.queued = true ↔
    (x.dispatching = .queued ∨ x.dispatching = .registered) ∧ x.shedding = .untouched ∧
      x.replying.isRetained = false := by
  simp [queued, queuedIn, and_assoc]

/-- Each access of a thread that has come that far keeps a call sound; a pass removes only what is in the queue. -/
theorem Sound.access {x y : AdmittedCall} (sound : x.Sound) {access : CallAccess}
    (inQueue : access = .remove → x.queued = true) (taken : x.access access = some y) : y.Sound := by
  have called := sound.called
  cases access with
  | count =>
    obtain ⟨here, rfl⟩ := then_of_ite taken
    exact { sound with
      removed := fun touched => absurd (sound.removed touched) (by simp [here])
      registered := fun slot => absurd (sound.registered slot) (by simp [here])
      ready := nofun }
  | push =>
    obtain ⟨here, rfl⟩ := then_of_ite taken
    exact { sound with
      removed := fun _ => Or.inl rfl
      registered := fun slot => absurd (sound.registered slot) (by simp [here])
      ready := nofun }
  | register =>
    obtain ⟨here, taken⟩ := Option.ite_none_right_eq_some.mp taken
    split at taken
    · rename_i slot
      obtain rfl := Option.some.inj taken
      have waiting : x.replying = .waiting := by simpa [slot] using called
      exact sound.replies (by rw [waiting]; rfl) (by rw [waiting]; rfl) ⟨nofun, nofun⟩ (iff_of_true nofun rfl)
        (fun _ => Or.inr rfl) (fun _ => rfl) nofun
    · rename_i empty
      obtain rfl := Option.some.inj taken
      exact { sound with
        removed := fun _ => Or.inr rfl
        registered := fun _ => rfl
        ready := fun _ => empty }
  | complete =>
    obtain ⟨empty, taken⟩ := Option.ite_none_right_eq_some.mp taken
    have waiting : x.replying = .waiting := by simpa [empty] using called
    split at taken
    · rename_i registered
      obtain rfl := Option.some.inj taken
      exact sound.replies (by rw [waiting]; rfl) (by rw [waiting]; rfl) ⟨nofun, nofun⟩ (iff_of_true nofun rfl)
        sound.removed (fun _ => registered) nofun
    · rename_i apart
      obtain rfl := Option.some.inj taken
      exact { sound with
        called := iff_of_false (not_not_intro waiting) nofun
        registered := nofun
        ready := fun registered => absurd registered apart }
  | cancel =>
    obtain rfl := Option.some.inj taken
    exact { sound with }
  | settle =>
    obtain ⟨here, rfl⟩ := then_of_ite taken
    rw [here] at called
    have taken := called.mp nofun
    have flag := sound.settled
    have held := sound.held
    rw [here] at flag held
    cases set : x.settled with
    | true =>
      rw [set] at flag
      exact { sound with
        settled := flag
        once := nofun
        lostReply := fun _ => flag.symm
        lostPass := fun lost => by
          have won := sound.lostPass lost
          rw [here] at won
          cases won
        called := iff_of_true nofun taken
        held := held }
    | false =>
      rw [set] at flag
      exact { sound with
        settled := rfl
        once := fun both => absurd both.2 (ne_of_eq_of_ne flag.symm (by decide))
        lostReply := nofun
        lostPass := fun _ => rfl
        called := iff_of_true nofun taken
        held := held }
  | lower =>
    obtain ⟨here, rfl⟩ := then_of_ite taken
    rw [here] at called
    exact sound.replies (by rw [here]; rfl) (by rw [here]; rfl) ⟨nofun, nofun⟩ (iff_of_true nofun (called.mp nofun))
      sound.removed sound.registered sound.ready
  | retain =>
    obtain ⟨here, rfl⟩ := then_of_ite taken
    rw [here] at called
    exact sound.replies (by rw [here]; rfl) (by rw [here]; rfl) ⟨nofun, nofun⟩ (iff_of_true nofun (called.mp nofun))
      sound.removed sound.registered sound.ready
  | deliver =>
    have flag := sound.settled
    have once := sound.once
    have lostPass := sound.lostPass
    rw [AdmittedCall.access] at taken
    split at taken
    · rename_i here
      obtain rfl := Option.some.inj taken
      rw [here] at flag once called
      exact { sound with
        settled := flag
        once := once
        lostReply := nofun
        lostPass := fun _ => rfl
        called := iff_of_true nofun (called.mp nofun)
        held := rfl
        unanswered := nofun
        answered := fun _ => sound.answers rfl }
    · rename_i here
      obtain rfl := Option.some.inj taken
      have lost := sound.lostReply (Or.inl here)
      rw [here] at flag once called lostPass
      exact { sound with
        settled := flag
        once := once
        lostReply := fun _ => lost
        lostPass := lostPass
        called := iff_of_true nofun (called.mp nofun)
        held := rfl
        unanswered := nofun
        answered := fun _ => sound.answers rfl }
    · cases taken
  | remove =>
    obtain ⟨here, rfl⟩ := then_of_ite taken
    obtain ⟨queued, -⟩ := queued_iff.1 (inQueue rfl)
    exact sound.sheds (by rw [here]; rfl) (by rw [here]; nofun) nofun nofun queued
  | claim =>
    obtain ⟨here, rfl⟩ := then_of_ite taken
    have removed := sound.removed (by rw [here]; nofun)
    have flag := sound.settled
    have held := sound.held
    have lostReply := sound.lostReply
    rw [here] at flag held lostReply
    replace lostReply : ¬ (x.replying = .lost ∨ x.replying = .finished false) := fun lost => nomatch lostReply lost
    cases set : x.settled with
    | true =>
      rw [set] at flag
      replace flag := flag.trans (Bool.or_false _)
      exact { sound with
        settled := flag.trans (Bool.or_false _).symm
        once := fun both => nomatch both.2
        lostReply := fun lost => absurd lost lostReply
        lostPass := fun _ => flag.symm
        removed := fun _ => removed
        held := held }
    | false =>
      rw [set] at flag
      replace flag := flag.trans (Bool.or_false _)
      exact { sound with
        settled := (Bool.or_true _).symm
        once := fun both => absurd both.1 (ne_of_eq_of_ne flag.symm (by decide))
        lostReply := fun _ => rfl
        lostPass := nofun
        removed := fun _ => removed
        held := held }
  | lowerShed =>
    obtain ⟨here, rfl⟩ := then_of_ite taken
    exact sound.sheds (by rw [here]; rfl) (by rw [here]; nofun) nofun nofun (sound.removed (by rw [here]; nofun))
  | trip =>
    obtain ⟨here, rfl⟩ := then_of_ite taken
    exact sound.sheds (by rw [here]; rfl) (by rw [here]; nofun) nofun nofun (sound.removed (by rw [here]; nofun))
  | fail =>
    obtain ⟨here, rfl⟩ := then_of_ite taken
    have removed := sound.removed (by rw [here]; nofun)
    have flag := sound.settled
    have once := sound.once
    rw [here] at flag once
    exact { sound with
      settled := flag
      once := once
      lostReply := fun _ => rfl
      lostPass := nofun
      removed := fun _ => removed
      held := by simp
      unanswered := nofun
      answered := fun _ => sound.answers rfl }

theorem Sound.unreplied {x : AdmittedCall} (sound : x.Sound) (apart : x.dispatching ≠ .registered) :
    x.replying = .waiting :=
  not_not.mp fun called => apart (sound.registered (sound.called.mp called))

theorem Sound.untouched {x : AdmittedCall} (sound : x.Sound) (early : x.dispatching = .built ∨ x.dispatching = .counted) :
    x.shedding = .untouched := by
  refine not_not.mp fun touched => ?_
  rcases early with here | here <;> rcases sound.removed touched with late | late <;> cases here.symm.trans late

theorem Sound.called_registered {x : AdmittedCall} (sound : x.Sound) (called : x.replying ≠ .waiting) :
    x.dispatching = .registered := sound.registered (sound.called.mp called)

theorem Sound.pass_first {x : AdmittedCall} (sound : x.Sound) (won : x.shedding.isWon = true) : x.replying.isWon = false :=
  Bool.eq_false_iff.mpr fun both => sound.once ⟨both, won⟩

theorem Sound.reply_first {x : AdmittedCall} (sound : x.Sound) (won : x.replying.isWon = true) : x.shedding.isWon = false :=
  Bool.eq_false_iff.mpr fun both => sound.once ⟨won, both⟩

theorem Sound.still_held {x : AdmittedCall} (sound : x.Sound) (apart : x.shedding ≠ .finished)
    (unfinished : ∀ won, x.replying ≠ .finished won) : x.held = true := by
  have reply : x.replying.isFinished = false := by
    cases replying : x.replying with
    | finished won => exact absurd replying (unfinished won)
    | _ => rfl
  rw [sound.held, reply, decide_eq_false apart]
  rfl

/-- An access moves a sound call on in one of the ways there are. -/
theorem Sound.move {x y : AdmittedCall} (sound : x.Sound) {access : CallAccess}
    (inQueue : access = .remove → x.queued = true) (taken : x.access access = some y) :
    Move access x.dispatching x.replying x.shedding y.dispatching y.replying y.shedding := by
  cases access with
  | count =>
    obtain ⟨here, rfl⟩ := then_of_ite taken
    rw [here, sound.unreplied (by rw [here]; nofun), sound.untouched (Or.inl here)]
    exact .count
  | push =>
    obtain ⟨here, rfl⟩ := then_of_ite taken
    rw [here, sound.unreplied (by rw [here]; nofun), sound.untouched (Or.inr here)]
    exact .push
  | register =>
    obtain ⟨here, taken⟩ := Option.ite_none_right_eq_some.mp taken
    have waiting := sound.unreplied (by rw [here]; nofun)
    split at taken <;> obtain rfl := Option.some.inj taken
    · rw [here, waiting]
      exact .completed _
    · rw [here, waiting]
      exact .register _
  | complete =>
    obtain ⟨empty, taken⟩ := Option.ite_none_right_eq_some.mp taken
    have waiting : x.replying = .waiting := by simpa [empty] using sound.called
    split at taken
    · rename_i registered
      obtain rfl := Option.some.inj taken
      rw [registered, waiting]
      exact .reply _
    · obtain rfl := Option.some.inj taken
      rw [waiting]
      exact .ready _ _
  | cancel =>
    obtain rfl := Option.some.inj taken
    exact .cancel _ _ _
  | settle =>
    obtain ⟨here, rfl⟩ := then_of_ite taken
    have flag := sound.settled
    rw [here] at flag
    rw [here, sound.called_registered (by rw [here]; nofun)]
    show Move _ _ _ _ _ (if x.settled = true then .lost else .won) _
    cases won : x.shedding.isWon with
    | true =>
      rw [flag, won]
      exact .beaten _ won
    | false =>
      rw [flag, won]
      exact .settle _ won
  | lower =>
    obtain ⟨here, rfl⟩ := then_of_ite taken
    have first := sound.reply_first (by rw [here]; rfl)
    rw [here, sound.called_registered (by rw [here]; nofun)]
    exact .lower _ first
  | retain =>
    obtain ⟨here, rfl⟩ := then_of_ite taken
    have first := sound.reply_first (by rw [here]; rfl)
    rw [here, sound.called_registered (by rw [here]; nofun)]
    exact .retain _ first
  | deliver =>
    rw [AdmittedCall.access] at taken
    split at taken
    · rename_i here
      obtain rfl := Option.some.inj taken
      have first := sound.reply_first (by rw [here]; rfl)
      rw [here, sound.called_registered (by rw [here]; nofun)]
      exact .deliver _ first
    · rename_i here
      obtain rfl := Option.some.inj taken
      have second := sound.lostReply (Or.inl here)
      rw [here, sound.called_registered (by rw [here]; nofun)]
      exact .refuse _ second
    · cases taken
  | remove =>
    obtain ⟨here, rfl⟩ := then_of_ite taken
    obtain ⟨queued, -⟩ := queued_iff.1 (inQueue rfl)
    rw [here]
    exact .remove _ _ queued
  | claim =>
    obtain ⟨here, rfl⟩ := then_of_ite taken
    have flag := sound.settled
    rw [here] at flag
    have queued := sound.removed (by rw [here]; nofun)
    rw [here]
    show Move _ _ _ _ _ _ (if x.settled = true then .lost else .won)
    cases won : x.replying.isWon with
    | true =>
      rw [flag, won]
      exact .lose _ _ won
    | false =>
      rw [flag, won]
      exact .claim _ _ queued won
  | lowerShed =>
    obtain ⟨here, rfl⟩ := then_of_ite taken
    have queued := sound.removed (by rw [here]; nofun)
    have first := sound.pass_first (by rw [here]; rfl)
    rw [here]
    exact .lowerShed _ _ queued first
  | trip =>
    obtain ⟨here, rfl⟩ := then_of_ite taken
    have first := sound.pass_first (by rw [here]; rfl)
    rw [here]
    exact .trip _ _ first
  | fail =>
    obtain ⟨here, rfl⟩ := then_of_ite taken
    have first := sound.pass_first (by rw [here]; rfl)
    rw [here]
    exact .fail _ _ first

/-- What a pass has done to the call it answered: the token is tripped before the answer is given. -/
structure Traced (x : AdmittedCall) : Prop where
  tripped : x.shedding = .cancelled ∨ x.shedding = .finished → x.cancelled = true
  failed : .pool ∈ x.answers → x.shedding = .finished

theorem Traced.access {x y : AdmittedCall} (traced : x.Traced) {access : CallAccess}
    (taken : x.access access = some y) : y.Traced := by
  have stays : x.shedding ≠ .finished → .pool ∉ x.answers := fun apart inside => apart (traced.failed inside)
  cases access with
  | count | push | lower | retain | settle =>
    obtain ⟨-, rfl⟩ := then_of_ite taken
    exact { traced with }
  | register | complete =>
    obtain ⟨-, taken⟩ := Option.ite_none_right_eq_some.mp taken
    split at taken <;> obtain rfl := Option.some.inj taken <;> exact { traced with }
  | cancel =>
    obtain rfl := Option.some.inj taken
    exact { traced with tripped := fun _ => rfl }
  | deliver =>
    have others : .pool ∈ (if x.held then x.answers ++ [AnsweredBy.runtime] else x.answers) → x.shedding = .finished := by
      intro inside
      refine traced.failed ?_
      split at inside
      · simpa using inside
      · exact inside
    rw [AdmittedCall.access] at taken
    split at taken
    · obtain rfl := Option.some.inj taken
      exact { traced with failed := others }
    · obtain rfl := Option.some.inj taken
      exact { traced with failed := others }
    · cases taken
  | remove =>
    obtain ⟨here, rfl⟩ := then_of_ite taken
    exact ⟨nofun, fun inside => absurd inside (stays (by rw [here]; nofun))⟩
  | claim =>
    obtain ⟨here, rfl⟩ := then_of_ite taken
    refine ⟨fun late => ?_, fun inside => absurd inside (stays (by rw [here]; nofun))⟩
    cases settled : x.settled <;> simp [settled] at late
  | lowerShed =>
    obtain ⟨here, rfl⟩ := then_of_ite taken
    exact ⟨nofun, fun inside => absurd inside (stays (by rw [here]; nofun))⟩
  | trip =>
    obtain ⟨here, rfl⟩ := then_of_ite taken
    exact ⟨fun _ => rfl, fun inside => absurd inside (stays (by rw [here]; nofun))⟩
  | fail =>
    obtain ⟨here, rfl⟩ := then_of_ite taken
    exact ⟨fun _ => traced.tripped (Or.inl here), fun _ => rfl⟩

end AdmittedCall

end Xript
