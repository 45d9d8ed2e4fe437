import Mathlib.Data.List.Nodup
import Xript.Bus.Hub

namespace Xript

/-- A call of the hub that deals with tickets. -/
inductive HubCall where
  | register (worker : Nat)
  | retire (worker : Nat)
  | call (worker : Nat) (request : JSString)
  | poll (worker ticket : Nat)
  | take (worker : Nat)
  | reply (id : Nat) (outcome : JSString)
  | pollAnswer (ticket : Nat)
  | abandon (ticket : Nat)

/-- The hub with its past: the tickets whose answer was returned, and the issued tickets abandoned. -/
structure HubHistory (σ : Type) where
  hub : HubState σ
  delivered : List Nat
  abandoned : List Nat

variable {σ : Type}

namespace HubHistory

def start : HubHistory σ := ⟨.empty, [], []⟩

/-- The answer of a ticket is returned where one is there. -/
def note (history : HubHistory σ) (ticket : Nat) : List Nat :=
  if (history.hub.replies ticket).isSome then ticket :: history.delivered else history.delivered

def issued (history : HubHistory σ) (ticket : Nat) : Prop := 1 ≤ ticket ∧ ticket ≤ history.hub.nextTicket

instance (history : HubHistory σ) (ticket : Nat) : Decidable (history.issued ticket) :=
  inferInstanceAs (Decidable (_ ∧ _))

def step (history : HubHistory σ) : HubCall → HubHistory σ
  | .register worker => { history with hub := history.hub.register worker }
  | .retire worker => { history with hub := history.hub.retire worker }
  | .call worker request => { history with hub := (history.hub.call worker request).1 }
  | .poll worker ticket =>
    { history with hub := (history.hub.poll worker ticket).1, delivered := history.note ticket }
  | .take worker => { history with hub := (history.hub.take worker).1 }
  | .reply id outcome => { history with hub := history.hub.reply id outcome }
  | .pollAnswer ticket =>
    { history with hub := (history.hub.pollAnswer ticket).1, delivered := history.note ticket }
  | .abandon ticket =>
    { history with
      hub := history.hub.abandon ticket
      abandoned := if history.issued ticket then ticket :: history.abandoned else history.abandoned }

def run (history : HubHistory σ) (calls : List HubCall) : HubHistory σ := calls.foldl step history

/-- A request for the ticket is still queued. -/
def queued (history : HubHistory σ) (ticket : Nat) : Prop :=
  ∃ worker, ∃ request ∈ history.hub.inbox worker, requestId request = some ticket

/-- A worker answers only a request that was handed to it, and neither a reply nor the retirement of
a target comes for a ticket that was abandoned while it was awaiting. -/
def Timely (history : HubHistory σ) : HubCall → Prop
  | .reply id _ => ¬ history.queued id ∧ ((history.hub.awaiting id).isSome → id ∉ history.abandoned)
  | .retire worker => ∀ id ∈ history.abandoned, history.hub.awaiting id ≠ some worker
  | _ => True

/-- Every call of a run is timely. -/
def TimelyRun (history : HubHistory σ) : List HubCall → Prop
  | [] => True
  | call :: calls => history.Timely call ∧ (history.step call).TimelyRun calls

/-- What holds of the tickets in every state. -/
structure TicketsKept (history : HubHistory σ) : Prop where
  once : ∀ ticket, history.delivered.count ticket ≤ 1
  target : ∀ ticket worker, history.hub.awaiting ticket = some worker →
    history.hub.wakers worker = true ∧ history.hub.retired worker = false
  settled : ∀ ticket, history.issued ticket → (history.hub.awaiting ticket).isSome ∨
    (history.hub.replies ticket).isSome ∨ ticket ∈ history.delivered ∨ ticket ∈ history.abandoned
  gone : ∀ ticket ∈ history.abandoned, history.hub.replies ticket = none

end HubHistory

/-- A queued text names no ticket but its own. -/
theorem requestId_queuedText {ticket id : Nat} {request : JSString}
    (named : requestId (queuedText ticket request) = some id) : id = ticket := by
  obtain ⟨c, rest, tail, stop⟩ : ∃ c rest, queuedText ticket request =
      js "\x7b\"id\":" ++ (decimal ticket ++ c :: rest) ∧ isDigit c = false := by
    unfold queuedText
    simp only
    split
    · rename_i closes
      cases body : (stripPrefix (js "\x7b") request).getD (js "\x7d") with
      | nil => simp [body] at closes
      | cons c rest =>
        rw [body, List.head?_cons, Option.some.injEq] at closes
        exact ⟨c, rest, by simp, by rw [closes]; rfl⟩
    · exact ⟨44, _, by rw [List.append_assoc, List.append_assoc]; rfl, rfl⟩
  have digits : (decimal ticket ++ c :: rest).takeWhile isDigit = decimal ticket := by
    rw [List.takeWhile_append_of_pos (List.all_eq_true.mp (decimal_digits ticket)),
      List.takeWhile_cons_of_neg (by simp [stop]), List.append_nil]
  have opened : stripPrefix (js "\x7b\"id\":") (queuedText ticket request) = some (decimal ticket ++ c :: rest) := by
    rw [tail, stripPrefix, if_pos (List.prefix_append ..), List.drop_left]
  rw [requestId, opened] at named
  simp only [digits, readDigits_decimal] at named
  split at named
  · exact (Option.some.inj named).symm
  · cases named

namespace HubState

/-- Answering the requests queued for a worker that awaited them. -/
theorem foldl_answerQueued (requests : List JSString) (worker : Nat) (hub : HubState σ)
    (targets : ∀ request ∈ requests, ∀ id, requestId request = some id →
      hub.awaiting id = some worker ∨ hub.replies id = some (doneText skippedOutcome) ∧ hub.awaiting id = none) :
    let answered := requests.foldl answerQueued hub
    (∀ id, answered.awaiting id = hub.awaiting id ∧ answered.replies id = hub.replies id ∨
      hub.awaiting id = some worker ∧ answered.awaiting id = none ∧
        answered.replies id = some (doneText skippedOutcome)) ∧
    answered.inbox = hub.inbox ∧ answered.wakers = hub.wakers ∧ answered.retired = hub.retired ∧
      answered.nextTicket = hub.nextTicket := by
  induction requests generalizing hub with
  | nil => exact ⟨fun id => Or.inl ⟨rfl, rfl⟩, rfl, rfl, rfl, rfl⟩
  | cons request requests ih =>
    cases named : requestId request with
    | none =>
      have same : answerQueued hub request = hub := by simp only [answerQueued, named]
      rw [List.foldl_cons, same]
      exact ih hub fun later member => targets later (List.mem_cons_of_mem _ member)
    | some first =>
      have target := targets request (List.mem_cons_self ..) first named
      have next := ih (answerQueued hub request) (by
        intro later member id known
        by_cases same : id = first
        · exact Or.inr (by simp [answerQueued, named, same])
        · simpa [answerQueued, named, same] using targets later (List.mem_cons_of_mem _ member) id known)
      obtain ⟨entries, inbox, wakers, retired, tickets⟩ := next
      simp only [answerQueued, named] at entries inbox wakers retired tickets
      refine ⟨fun id => ?_, ?_, ?_, ?_, ?_⟩
      · by_cases same : id = first
        · subst same
          have now : (requests.foldl answerQueued (answerQueued hub request)).awaiting id = none ∧
              (requests.foldl answerQueued (answerQueued hub request)).replies id =
                some (doneText skippedOutcome) := by
            simpa [answerQueued, named] using entries id
          rcases target with waits | ⟨answered, waits⟩
          · exact Or.inr ⟨waits, now.1, now.2⟩
          · exact Or.inl ⟨now.1.trans waits.symm, now.2.trans answered.symm⟩
        · simpa [answerQueued, named, same] using entries id
      all_goals simpa [answerQueued, named] using by assumption

/-- Retiring a worker answers every ticket that awaits it, queued or in service. -/
theorem retire_spec {hub : HubState σ} {worker : Nat}
    (targets : ∀ request ∈ hub.inbox worker, ∀ id, requestId request = some id → hub.awaiting id = some worker) :
    (∀ id, (hub.retire worker).awaiting id = if hub.awaiting id = some worker then none else hub.awaiting id) ∧
    (∀ id, (hub.retire worker).replies id =
      if hub.awaiting id = some worker then some (doneText skippedOutcome) else hub.replies id) ∧
    (hub.retire worker).inbox = Function.update hub.inbox worker [] ∧
    (hub.retire worker).wakers = Function.update hub.wakers worker false ∧
    (hub.retire worker).retired = Function.update hub.retired worker true ∧
    (hub.retire worker).nextTicket = hub.nextTicket := by
  have folded := foldl_answerQueued (hub.inbox worker) worker
    { hub with
      retired := Function.update hub.retired worker true
      wakers := Function.update hub.wakers worker false
      inbox := Function.update hub.inbox worker [] }
    fun request member id named => Or.inl (targets request member id named)
  obtain ⟨entries, inbox, wakers, retired, tickets⟩ := folded
  refine ⟨fun id => ?_, fun id => ?_, inbox, wakers, retired, tickets⟩
  · simp only [retire]
    rcases entries id with ⟨waits, -⟩ | ⟨before, after, -⟩
    · simp only [waits]
    · simp only at before
      simp [before, after]
  · simp only [retire]
    rcases entries id with ⟨waits, answer⟩ | ⟨before, after, answer⟩
    · simp only [waits, answer]
    · simp only at before
      simp [before, after, answer]

end HubState

namespace HubHistory

/-- The bookkeeping of tickets: one that is answered or returned awaits nobody, one that is queued
awaits its worker, and each issued ticket is in one of the four places. -/
structure Ledger (history : HubHistory σ) : Prop where
  target : ∀ ticket worker, history.hub.awaiting ticket = some worker →
    history.hub.wakers worker = true ∧ history.hub.retired worker = false
  queue : ∀ worker, ∀ request ∈ history.hub.inbox worker, ∀ id, requestId request = some id →
    history.hub.awaiting id = some worker
  answered : ∀ ticket, (history.hub.replies ticket).isSome → history.hub.awaiting ticket = none ∧
    ticket ∉ history.delivered ∧ ticket ∉ history.abandoned ∧ history.issued ticket
  returned : ∀ ticket ∈ history.delivered, history.hub.awaiting ticket = none ∧ history.issued ticket
  distinct : history.delivered.Nodup
  pending : ∀ ticket, (history.hub.awaiting ticket).isSome → history.issued ticket
  left : ∀ ticket ∈ history.abandoned, history.issued ticket
  settled : ∀ ticket, history.issued ticket → (history.hub.awaiting ticket).isSome ∨
    (history.hub.replies ticket).isSome ∨ ticket ∈ history.delivered ∨ ticket ∈ history.abandoned

theorem Ledger.start : (start : HubHistory σ).Ledger where
  target := by simp [HubHistory.start, HubState.empty]
  queue := by simp [HubHistory.start, HubState.empty]
  answered := by simp [HubHistory.start, HubState.empty]
  returned := by simp [HubHistory.start]
  distinct := List.nodup_nil
  pending := by simp [HubHistory.start, HubState.empty]
  left := by simp [HubHistory.start]
  settled := by
    intro ticket issued
    obtain ⟨low, high⟩ := issued
    simp only [HubHistory.start, HubState.empty] at high
    omega

theorem Ledger.kept {history : HubHistory σ} (ledger : history.Ledger) : history.TicketsKept where
  once := List.nodup_iff_count_le_one.mp ledger.distinct
  target := ledger.target
  settled := ledger.settled
  gone := by
    intro ticket member
    cases answer : history.hub.replies ticket with
    | none => rfl
    | some text => exact absurd member (ledger.answered ticket (by simp [answer])).2.2.1

/-- Handing out the first queued request. -/
theorem Ledger.take {history : HubHistory σ} (ledger : history.Ledger) (worker : Nat) :
    (⟨(history.hub.take worker).1, history.delivered, history.abandoned⟩ : HubHistory σ).Ledger := by
  cases queue : history.hub.inbox worker with
  | nil =>
    have same : (history.hub.take worker).1 = history.hub := by simp only [HubState.take, queue]
    rw [same]
    exact ledger
  | cons request requests =>
    have next : (history.hub.take worker).1 =
        { history.hub with inbox := Function.update history.hub.inbox worker requests } := by
      simp only [HubState.take, queue]
    rw [next]
    refine ⟨ledger.target, ?_, ledger.answered, ledger.returned, ledger.distinct, ledger.pending, ledger.left,
      ledger.settled⟩
    intro other later member id named
    refine ledger.queue other later ?_ id named
    by_cases same : other = worker
    · subst same
      simp only [Function.update_self] at member
      rw [queue]
      exact List.mem_cons_of_mem _ member
    · simpa only [Function.update_of_ne same] using member

/-- Returning the answer of a ticket; the wakers of replies do not matter. -/
theorem Ledger.deliver {history : HubHistory σ} (ledger : history.Ledger) {ticket : Nat} {answer : JSString}
    (answered : history.hub.replies ticket = some answer) (replyWakers : Nat → Bool) :
    (⟨{ history.hub with
        replies := Function.update history.hub.replies ticket none
        replyWakers := replyWakers },
      ticket :: history.delivered, history.abandoned⟩ : HubHistory σ).Ledger := by
  obtain ⟨idle, fresh, kept, issued⟩ := ledger.answered ticket (by simp [answered])
  refine ⟨ledger.target, ledger.queue, ?_, ?_, List.nodup_cons.mpr ⟨fresh, ledger.distinct⟩, ledger.pending,
    ledger.left, ?_⟩
  · intro other some
    by_cases same : other = ticket
    · simp [same] at some
    · simp only [Function.update_of_ne same] at some
      obtain ⟨waits, absent, rest⟩ := ledger.answered other some
      exact ⟨waits, by simp [same, absent], rest⟩
  · intro other member
    rcases List.mem_cons.mp member with rfl | earlier
    · exact ⟨idle, issued⟩
    · exact ledger.returned other earlier
  · intro other known
    by_cases same : other = ticket
    · exact Or.inr (Or.inr (Or.inl (by simp [same])))
    · simpa [Function.update_of_ne same, same] using ledger.settled other known

theorem Ledger.register {history : HubHistory σ} (ledger : history.Ledger) (worker : Nat) :
    (history.step (.register worker)).Ledger := by
  refine ⟨?_, ledger.queue, ledger.answered, ledger.returned, ledger.distinct, ledger.pending, ledger.left,
    ledger.settled⟩
  intro ticket other waits
  have before := ledger.target ticket other waits
  by_cases same : other = worker
  · simp [step, HubState.register, same]
  · simpa [step, HubState.register, same] using before

theorem Ledger.retire {history : HubHistory σ} (ledger : history.Ledger) {worker : Nat}
    (timely : history.Timely (.retire worker)) : (history.step (.retire worker)).Ledger := by
  obtain ⟨awaiting, replies, inbox, wakers, retired, tickets⟩ :=
    HubState.retire_spec (fun request member id named => ledger.queue worker request member id named)
  have issued : ∀ ticket, (history.step (.retire worker)).issued ticket ↔ history.issued ticket := by
    intro ticket
    simp only [HubHistory.issued, step, tickets]
  refine ⟨?_, ?_, ?_, ?_, ledger.distinct, ?_, ?_, ?_⟩
  · intro ticket other waits
    simp only [step, awaiting] at waits
    split at waits
    · cases waits
    · rename_i elsewhere
      have different : other ≠ worker := fun same => elsewhere (same ▸ waits)
      simpa [step, wakers, retired, different] using ledger.target ticket other waits
  · intro other request member id named
    simp only [step, inbox] at member
    by_cases same : other = worker
    · simp [same] at member
    · rw [Function.update_of_ne same] at member
      have waits := ledger.queue other request member id named
      have elsewhere : history.hub.awaiting id ≠ some worker := by
        rw [waits]
        exact fun equal => same (Option.some.inj equal)
      simp only [step, awaiting]
      rw [if_neg elsewhere, waits]
  · intro ticket some
    rw [issued]
    simp only [step, replies, awaiting] at some ⊢
    split at some
    · rename_i waits
      rw [if_pos waits]
      exact ⟨rfl, fun member => by simp [(ledger.returned ticket member).1] at waits,
        fun member => timely ticket member waits, ledger.pending ticket (by simp [waits])⟩
    · rename_i elsewhere
      rw [if_neg elsewhere]
      exact ledger.answered ticket some
  · intro ticket member
    rw [issued]
    have before := ledger.returned ticket member
    refine ⟨?_, before.2⟩
    simp only [step, awaiting, before.1]
    simp
  · intro ticket some
    rw [issued]
    simp only [step, awaiting] at some
    split at some
    · cases some
    · exact ledger.pending ticket some
  · exact fun ticket member => (issued ticket).mpr (ledger.left ticket member)
  · intro ticket known
    simp only [step, awaiting, replies]
    by_cases waits : history.hub.awaiting ticket = some worker
    · simp [waits]
    · simpa [waits] using ledger.settled ticket ((issued ticket).mp known)

theorem Ledger.call {history : HubHistory σ} (ledger : history.Ledger) (worker : Nat) (request : JSString) :
    (history.step (.call worker request)).Ledger := by
  have unissued : ¬ history.issued (history.hub.nextTicket + 1) := fun issued => by
    have := issued.2
    omega
  have later : ∀ ticket, history.issued ticket → ticket ≠ history.hub.nextTicket + 1 ∧
      1 ≤ ticket ∧ ticket ≤ history.hub.nextTicket + 1 := by
    intro ticket issued
    obtain ⟨low, high⟩ := issued
    omega
  have idle : history.hub.awaiting (history.hub.nextTicket + 1) = none := by
    cases waits : history.hub.awaiting (history.hub.nextTicket + 1) with
    | none => rfl
    | some target => exact absurd (ledger.pending _ (by simp [waits])) unissued
  have fresh : history.hub.nextTicket + 1 ∉ history.delivered := fun member =>
    unissued (ledger.returned _ member).2
  have kept : history.hub.nextTicket + 1 ∉ history.abandoned := fun member => unissued (ledger.left _ member)
  have earlier : ∀ ticket, ticket ≠ history.hub.nextTicket + 1 → 1 ≤ ticket →
      ticket ≤ history.hub.nextTicket + 1 → history.issued ticket := by
    intro ticket different low high
    exact ⟨low, by omega⟩
  simp only [step, HubState.call]
  split
  · -- nobody serves the worker's requests: the ticket is answered at once
    refine ⟨ledger.target, ledger.queue, ?_, ?_, ledger.distinct, ?_, ?_, ?_⟩
    · intro ticket some
      by_cases same : ticket = history.hub.nextTicket + 1
      · subst same
        exact ⟨idle, fresh, kept, by simp [issued]⟩
      · simp only [Function.update_of_ne same] at some
        obtain ⟨waits, absent, stays, known⟩ := ledger.answered ticket some
        exact ⟨waits, absent, stays, (later ticket known).2⟩
    · exact fun ticket member => ⟨(ledger.returned ticket member).1, (later ticket (ledger.returned ticket member).2).2⟩
    · exact fun ticket some => (later ticket (ledger.pending ticket some)).2
    · exact fun ticket member => (later ticket (ledger.left ticket member)).2
    · intro ticket known
      by_cases same : ticket = history.hub.nextTicket + 1
      · exact Or.inr (Or.inl (by simp [same]))
      · simpa [Function.update_of_ne same] using ledger.settled ticket (earlier ticket same known.1 known.2)
  · rename_i serves
    have live : history.hub.wakers worker = true ∧ history.hub.retired worker = false := by
      simpa [and_comm] using serves
    refine ⟨?_, ?_, ?_, ?_, ledger.distinct, ?_, ?_, ?_⟩
    · intro ticket target waits
      by_cases same : ticket = history.hub.nextTicket + 1
      · simp only [same, Function.update_self, Option.some.injEq] at waits
        exact waits ▸ live
      · simp only [Function.update_of_ne same] at waits
        exact ledger.target ticket target waits
    · intro other queued member id named
      by_cases own : other = worker ∧ queued = queuedText (history.hub.nextTicket + 1) request
      · obtain ⟨rfl, rfl⟩ := own
        rw [requestId_queuedText named]
        simp
      · have before : queued ∈ history.hub.inbox other := by
          by_cases same : other = worker
          · subst same
            simp only [Function.update_self, List.mem_append, List.mem_singleton] at member
            exact member.resolve_right fun text => own ⟨rfl, text⟩
          · simpa only [Function.update_of_ne same] using member
        have waits := ledger.queue other queued before id named
        have different : id ≠ history.hub.nextTicket + 1 := fun same => by simp [same, idle] at waits
        simpa [Function.update_of_ne different] using waits
    · intro ticket some
      obtain ⟨waits, absent, stays, known⟩ := ledger.answered ticket some
      refine ⟨?_, absent, stays, (later ticket known).2⟩
      simpa [Function.update_of_ne (later ticket known).1] using waits
    · intro ticket member
      obtain ⟨waits, known⟩ := ledger.returned ticket member
      refine ⟨?_, (later ticket known).2⟩
      simpa [Function.update_of_ne (later ticket known).1] using waits
    · intro ticket some
      by_cases same : ticket = history.hub.nextTicket + 1
      · simp [issued, same]
      · simp only [Function.update_of_ne same] at some
        exact (later ticket (ledger.pending ticket some)).2
    · exact fun ticket member => (later ticket (ledger.left ticket member)).2
    · intro ticket known
      by_cases same : ticket = history.hub.nextTicket + 1
      · exact Or.inl (by simp [same])
      · simpa [Function.update_of_ne same] using ledger.settled ticket (earlier ticket same known.1 known.2)

theorem Ledger.reply {history : HubHistory σ} (ledger : history.Ledger) {id : Nat} (outcome : JSString)
    (timely : history.Timely (.reply id outcome)) : (history.step (.reply id outcome)).Ledger := by
  by_cases waits : (history.hub.awaiting id).isSome
  · simp only [step, HubState.reply, if_pos waits]
    refine ⟨?_, ?_, ?_, ?_, ledger.distinct, ?_, ledger.left, ?_⟩
    · intro ticket worker target
      by_cases same : ticket = id
      · simp [same] at target
      · simp only [Function.update_of_ne same] at target
        exact ledger.target ticket worker target
    · intro worker request member other named
      have different : other ≠ id := by
        intro same
        exact timely.1 ⟨worker, request, member, same ▸ named⟩
      simpa [Function.update_of_ne different] using ledger.queue worker request member other named
    · intro ticket some
      by_cases same : ticket = id
      · subst same
        have fresh : ticket ∉ history.delivered := fun member => by
          simp [(ledger.returned ticket member).1] at waits
        exact ⟨by simp, fresh, timely.2 waits, ledger.pending ticket waits⟩
      · simp only [Function.update_of_ne same] at some
        obtain ⟨idle, rest⟩ := ledger.answered ticket some
        exact ⟨by simpa [Function.update_of_ne same] using idle, rest⟩
    · intro ticket member
      have before := ledger.returned ticket member
      have different : ticket ≠ id := fun same => by simp [← same, before.1] at waits
      exact ⟨by simpa [Function.update_of_ne different] using before.1, before.2⟩
    · intro ticket some
      by_cases same : ticket = id
      · exact same ▸ ledger.pending id waits
      · simp only [Function.update_of_ne same] at some
        exact ledger.pending ticket some
    · intro ticket known
      by_cases same : ticket = id
      · exact Or.inr (Or.inl (by simp [same]))
      · simpa [Function.update_of_ne same] using ledger.settled ticket known
  · have same : history.step (.reply id outcome) = history := by
      simp only [step, HubState.reply, if_neg waits]
    rw [same]
    exact ledger

theorem Ledger.abandon {history : HubHistory σ} (ledger : history.Ledger) (ticket : Nat) :
    (history.step (.abandon ticket)).Ledger := by
  have members : ∀ other, other ∈ (history.step (.abandon ticket)).abandoned ↔
      other = ticket ∧ history.issued ticket ∨ other ∈ history.abandoned := by
    intro other
    simp only [step]
    split
    · rename_i known
      simp [known]
    · rename_i unknown
      simp [unknown]
  refine ⟨ledger.target, ledger.queue, ?_, ledger.returned, ledger.distinct, ledger.pending, ?_, ?_⟩
  · intro other some
    by_cases same : other = ticket
    · simp [step, HubState.abandon, same] at some
    · simp only [step, HubState.abandon, Function.update_of_ne same] at some
      obtain ⟨waits, absent, stays, known⟩ := ledger.answered other some
      refine ⟨waits, absent, fun member => ?_, known⟩
      rcases (members other).mp member with ⟨equal, -⟩ | earlier
      · exact same equal
      · exact stays earlier
  · intro other member
    rcases (members other).mp member with ⟨rfl, known⟩ | earlier
    · exact known
    · exact ledger.left other earlier
  · intro other known
    rw [members]
    by_cases same : other = ticket
    · exact Or.inr (Or.inr (Or.inr (Or.inl ⟨same, same ▸ known⟩)))
    · have before := ledger.settled other known
      simp only [step, HubState.abandon, Function.update_of_ne same, same, false_and, false_or]
      exact before

/-- A timely call keeps the ledger. -/
theorem Ledger.step {history : HubHistory σ} (ledger : history.Ledger) {call : HubCall}
    (timely : history.Timely call) : (history.step call).Ledger := by
  cases call with
  | register worker => exact ledger.register worker
  | retire worker => exact ledger.retire timely
  | call worker request => exact ledger.call worker request
  | take worker => exact ledger.take worker
  | reply id outcome => exact ledger.reply outcome timely
  | abandon ticket => exact ledger.abandon ticket
  | poll worker ticket =>
    cases answer : history.hub.replies ticket with
    | none =>
      simp only [HubHistory.step, HubState.poll, note, answer]
      exact ledger.take worker
    | some text =>
      simp only [HubHistory.step, HubState.poll, note, answer]
      exact ledger.deliver answer _
  | pollAnswer ticket =>
    cases answer : history.hub.replies ticket with
    | none =>
      simp only [HubHistory.step, HubState.pollAnswer, note, answer]
      exact ⟨ledger.target, ledger.queue, ledger.answered, ledger.returned, ledger.distinct, ledger.pending,
        ledger.left, ledger.settled⟩
    | some text =>
      simp only [HubHistory.step, HubState.pollAnswer, note, answer]
      exact ledger.deliver answer _

theorem Ledger.run {history : HubHistory σ} (ledger : history.Ledger) {calls : List HubCall}
    (timely : history.TimelyRun calls) : (history.run calls).Ledger := by
  induction calls generalizing history with
  | nil => exact ledger
  | cons call calls ih => exact ih (ledger.step timely.1) timely.2

end HubHistory

end Xript
