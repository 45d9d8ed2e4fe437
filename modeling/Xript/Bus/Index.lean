import Xript.Bus.Kernel
import Xript.Number.Decimal

namespace Xript

theorem issuedToken_injective {m n : Nat} (same : issuedToken m = issuedToken n) : m = n :=
  decimal_injective (List.append_cancel_left same)

namespace BusState

/-- The two indexes agree, no listed event is empty, each list is in the order of issue, and a spent token is not
live. -/
structure Indexed (state : BusState) : Prop where
  subscribed : state.subscriptions.keys.Nodup
  events : state.byEvent.keys.Nodup
  listed : ∀ event token, token ∈ state.listeners event ↔
    ∃ subscription, state.subscriptions.get token = some subscription ∧ subscription.event = event
  filled : ∀ event list, state.byEvent.get event = some list → list ≠ []
  ordered : ∀ event, ∃ numbers : List Nat, state.listeners event = numbers.map issuedToken ∧
    numbers.Pairwise (· < ·)
  unspent : ∀ token, (state.spent.get token).isSome → state.live token = false
  issued : ∀ token, state.live token = true ∨ (state.spent.get token).isSome →
    ∃ number, number ≤ state.sequence ∧ token = issuedToken number

theorem Indexed.blank : blankState.Indexed where
  subscribed := List.nodup_nil
  events := List.nodup_nil
  listed := by simp [blankState, listeners]
  filled := by simp [blankState]
  ordered := fun event => ⟨[], by simp [blankState, listeners], .nil⟩
  unspent := by simp [blankState]
  issued := by simp [blankState, live]

theorem Indexed.nodup {state : BusState} (indexed : state.Indexed) (event : JSString) :
    (state.listeners event).Nodup := by
  obtain ⟨numbers, list, order⟩ := indexed.ordered event
  rw [list]
  exact List.Nodup.map (fun _ _ same => issuedToken_injective same) (order.imp Nat.ne_of_lt)

/-- A change to none of the indexes. -/
theorem Indexed.same {state next : BusState} (indexed : state.Indexed) (events : next.byEvent = state.byEvent)
    (subscriptions : next.subscriptions = state.subscriptions) (spent : next.spent = state.spent)
    (sequence : next.sequence = state.sequence) : next.Indexed := by
  refine ⟨?_, ?_, ?_, ?_, ?_, ?_, ?_⟩
  · exact subscriptions ▸ indexed.subscribed
  · exact events ▸ indexed.events
  · simpa only [listeners, events, subscriptions] using indexed.listed
  · simpa only [events] using indexed.filled
  · simpa only [listeners, events] using indexed.ordered
  · simpa only [live, spent, subscriptions] using indexed.unspent
  · simpa only [live, spent, subscriptions, sequence] using indexed.issued

theorem detachIn_get (state : BusState) (token other : JSString) :
    (state.detachIn token).subscriptions.get other =
      if other = token then none else state.subscriptions.get other := by
  unfold detachIn
  split
  · rename_i absent
    split
    · rename_i same
      rw [same, absent]
    · rfl
  · exact Record.get_erase ..

theorem detachIn_fields (state : BusState) (token : JSString) :
    (state.detachIn token).spent = state.spent ∧ (state.detachIn token).sequence = state.sequence ∧
      (state.detachIn token).claims = state.claims ∧ (state.detachIn token).catalogue = state.catalogue := by
  unfold detachIn
  split <;> exact ⟨rfl, rfl, rfl, rfl⟩

theorem detachIn_live (state : BusState) (token other : JSString) :
    (state.detachIn token).live other = if other = token then false else state.live other := by
  rw [live, detachIn_get]
  split <;> rfl

theorem get_unlist (byEvent : Record (List JSString)) (event token other : JSString) :
    ((unlist byEvent event token).get other).getD [] =
      if other = event then ((byEvent.get event).getD []).erase token else (byEvent.get other).getD [] := by
  unfold unlist
  split
  · rename_i absent
    split
    · rename_i same
      simp [same, absent]
    · rfl
  · rename_i list found
    split
    · rename_i empty
      rw [Record.get_erase]
      split
      · rw [found, Option.getD_some, empty]
        rfl
      · rfl
    · rw [Record.get_set]
      split
      · rw [found]
        rfl
      · rfl

theorem nodup_keys_unlist {byEvent : Record (List JSString)} (distinct : byEvent.keys.Nodup) (event token : JSString) :
    (unlist byEvent event token).keys.Nodup := by
  unfold unlist
  split
  · exact distinct
  · split
    · exact Record.nodup_keys_erase distinct event
    · exact Record.nodup_keys_set distinct event _

theorem filled_unlist {byEvent : Record (List JSString)} (filled : ∀ event list, byEvent.get event = some list → list ≠ [])
    (event token other : JSString) {list : List JSString} (found : (unlist byEvent event token).get other = some list) :
    list ≠ [] := by
  unfold unlist at found
  split at found
  · exact filled other list found
  · split at found
    · rw [Record.get_erase] at found
      split at found
      · cases found
      · exact filled other list found
    · rename_i left
      rw [Record.get_set] at found
      split at found
      · exact Option.some.inj found ▸ left
      · exact filled other list found

/-- The token leaves every list it is in. -/
theorem detachIn_listeners {state : BusState} (indexed : state.Indexed) (token event : JSString) :
    (state.detachIn token).listeners event = (state.listeners event).erase token := by
  have outside : (∀ subscription, state.subscriptions.get token = some subscription →
      subscription.event ≠ event) → (state.listeners event).erase token = state.listeners event := by
    intro elsewhere
    refine List.erase_of_not_mem fun member => ?_
    obtain ⟨subscription, found, filed⟩ := (indexed.listed event token).mp member
    exact elsewhere subscription found filed
  unfold detachIn
  split
  · rename_i absent
    exact (outside fun subscription found => by simp [absent] at found).symm
  · rename_i subscription found
    rw [listeners, get_unlist]
    split
    · rename_i same
      rw [same]
      rfl
    · rename_i other
      refine (outside fun filed known => ?_).symm
      rw [found] at known
      exact Option.some.inj known ▸ Ne.symm other

theorem Indexed.detach {state : BusState} (indexed : state.Indexed) (token : JSString) :
    (state.detachIn token).Indexed := by
  obtain ⟨spent, sequence, -, -⟩ := detachIn_fields state token
  refine ⟨?_, ?_, ?_, ?_, ?_, ?_, ?_⟩
  · unfold detachIn
    split
    · exact indexed.subscribed
    · exact Record.nodup_keys_erase indexed.subscribed token
  · unfold detachIn
    split
    · exact indexed.events
    · exact nodup_keys_unlist indexed.events _ token
  · intro event other
    rw [detachIn_listeners indexed, (indexed.nodup event).mem_erase_iff, detachIn_get, indexed.listed]
    by_cases same : other = token
    · simp [same]
    · simp [same]
  · intro event list found
    unfold detachIn at found
    split at found
    · exact indexed.filled event list found
    · exact filled_unlist indexed.filled _ token event found
  · intro event
    obtain ⟨numbers, list, order⟩ := indexed.ordered event
    refine ⟨numbers.filter fun number => issuedToken number ≠ token, ?_, order.filter _⟩
    rw [detachIn_listeners indexed, (indexed.nodup event).erase_eq_filter, list, List.filter_map]
    congr 1
    refine List.filter_congr fun number _ => ?_
    rw [Function.comp_apply, bne, Bool.beq_eq_decide_eq, decide_not]
  · intro other known
    rw [spent] at known
    rw [detachIn_live]
    split
    · rfl
    · exact indexed.unspent other known
  · intro other known
    rw [spent, detachIn_live] at known
    rw [sequence]
    refine indexed.issued other (known.imp_left fun alive => ?_)
    split at alive
    · cases alive
    · exact alive

/-- A number past those issued stands in no list. -/
theorem Indexed.fresh {state : BusState} (indexed : state.Indexed) {number : Nat} (past : state.sequence < number) :
    state.live (issuedToken number) = false ∧ state.spent.get (issuedToken number) = none := by
  have known : ¬ (state.live (issuedToken number) = true ∨ (state.spent.get (issuedToken number)).isSome) := by
    intro either
    obtain ⟨earlier, bound, same⟩ := indexed.issued _ either
    have := issuedToken_injective same
    omega
  rw [not_or] at known
  exact ⟨by simpa using known.1, by simpa using known.2⟩

theorem Indexed.subscribe {state : BusState} (indexed : state.Indexed) (subscription : Subscription) :
    (state.subscribeIn subscription).1.Indexed := by
  obtain ⟨dead, unspent⟩ := indexed.fresh (Nat.lt_succ_self state.sequence)
  have free : state.subscriptions.get (issuedToken (state.sequence + 1)) = none := by simpa [live] using dead
  have lists : ∀ event, (state.subscribeIn subscription).1.listeners event =
      if event = subscription.event then state.listeners event ++ [issuedToken (state.sequence + 1)]
      else state.listeners event := by
    intro event
    simp only [subscribeIn, listeners, Record.get_set]
    split
    · rename_i same
      rw [same]
      rfl
    · rfl
  have found : ∀ token, (state.subscribeIn subscription).1.subscriptions.get token =
      if token = issuedToken (state.sequence + 1) then some subscription else state.subscriptions.get token :=
    fun token => Record.get_set ..
  have absent : ∀ event, issuedToken (state.sequence + 1) ∉ state.listeners event := by
    intro event member
    obtain ⟨filed, known, -⟩ := (indexed.listed event _).mp member
    simp [free] at known
  refine ⟨Record.nodup_keys_set indexed.subscribed _ _, Record.nodup_keys_set indexed.events _ _, ?_, ?_, ?_, ?_, ?_⟩
  · intro event token
    rw [lists, found]
    by_cases same : token = issuedToken (state.sequence + 1)
    · subst same
      rw [if_pos rfl]
      split
      · rename_i own
        simp [own]
      · rename_i other
        simp [absent, Ne.symm other]
    · rw [if_neg same, ← indexed.listed]
      split <;> simp [same]
  · intro event list known
    simp only [subscribeIn, Record.get_set] at known
    split at known
    · rw [← Option.some.inj known]
      simp
    · exact indexed.filled event list known
  · intro event
    obtain ⟨numbers, list, order⟩ := indexed.ordered event
    rw [lists]
    split
    · refine ⟨numbers ++ [state.sequence + 1], by rw [list, List.map_append]; rfl, ?_⟩
      rw [List.pairwise_append]
      refine ⟨order, List.pairwise_singleton .., ?_⟩
      intro earlier member later last
      rw [List.mem_singleton.mp last]
      have filed : issuedToken earlier ∈ state.listeners event := list ▸ List.mem_map_of_mem member
      obtain ⟨known, at_, -⟩ := (indexed.listed event _).mp filed
      obtain ⟨number, bound, same⟩ := indexed.issued (issuedToken earlier) (Or.inl (by simp [live, at_]))
      have := issuedToken_injective same
      omega
    · exact ⟨numbers, list, order⟩
  · intro token known
    have other : token ≠ issuedToken (state.sequence + 1) := by
      intro same
      have gone : state.spent.get token = none := same ▸ unspent
      simp [subscribeIn, gone] at known
    rw [live, found, if_neg other]
    exact indexed.unspent token known
  · intro token known
    by_cases same : token = issuedToken (state.sequence + 1)
    · exact ⟨state.sequence + 1, Nat.le_refl _, same⟩
    · rw [live, found, if_neg same] at known
      obtain ⟨number, bound, named⟩ := indexed.issued token known
      exact ⟨number, Nat.le_succ_of_le bound, named⟩

theorem Indexed.claimOnce {state : BusState} (indexed : state.Indexed) (token : JSString) :
    (state.claimOnceIn token).1.Indexed := by
  unfold claimOnceIn
  split
  · rename_i alive
    have detached := indexed.detach token
    obtain ⟨spent, sequence, -, -⟩ := detachIn_fields state token
    refine ⟨detached.subscribed, detached.events, detached.listed, detached.filled, detached.ordered, ?_, ?_⟩
    · intro other known
      by_cases same : other = token
      · exact (detachIn_live state token other).trans (if_pos same)
      · simp only [Record.get_set, if_neg same] at known
        exact detached.unspent other known
    · intro other known
      by_cases same : other = token
      · have before := indexed.issued token (Or.inl alive)
        rw [same]
        exact sequence ▸ before
      · simp only [Record.get_set, if_neg same] at known
        exact detached.issued other known
  · exact indexed

theorem Indexed.cancel {state : BusState} (indexed : state.Indexed) {mayCancelOthers : Bool} {caller : Option JSString}
    {key : JSString} {answer : BusState × CancelAnswer} (done : state.cancelIn mayCancelOthers caller key = .ok answer) :
    answer.1.Indexed := by
  unfold cancelIn at done
  split at done
  · split at done
    · cases done
    · cases done
      exact indexed.detach key
  · cases done
    exact indexed

/-- A loop that only detaches keeps the indexes. -/
theorem Indexed.detachWhere {state : BusState} (indexed : state.Indexed) (picks : Option Subscription → Bool)
    (tokens : List JSString) : (state.detachWhere picks tokens).1.Indexed := by
  induction tokens generalizing state with
  | nil => exact indexed
  | cons token tokens ih =>
    rw [BusState.detachWhere]
    split
    · exact ih (indexed.detach token)
    · exact ih indexed

theorem detachWhere_sequence (state : BusState) (picks : Option Subscription → Bool) (tokens : List JSString) :
    (state.detachWhere picks tokens).1.sequence = state.sequence := by
  induction tokens generalizing state with
  | nil => rfl
  | cons token tokens ih =>
    rw [detachWhere]
    split
    · exact (ih _).trans (detachIn_fields state token).2.1
    · exact ih state

/-- What a token's record is once the loop is through. -/
theorem detachWhere_get (state : BusState) (picks : Option Subscription → Bool) (tokens : List JSString)
    (other : JSString) :
    (state.detachWhere picks tokens).1.subscriptions.get other =
      if other ∈ tokens ∧ picks (state.subscriptions.get other) = true then none
      else state.subscriptions.get other := by
  induction tokens generalizing state with
  | nil => simp [detachWhere]
  | cons token tokens ih =>
    rw [detachWhere]
    by_cases same : other = token
    · subst same
      split
      · rename_i picked
        simp only [ih, detachIn_get, picked]
        simp
      · rename_i passed
        simp [ih, passed]
    · split
      · simp [ih, detachIn_get, same]
      · simp [ih, same]

theorem Indexed.off {state : BusState} (indexed : state.Indexed) (everyone : Bool) (caller : Option JSString)
    (id : JSString) : (state.offIn everyone caller id).1.Indexed :=
  indexed.detachWhere _ _

theorem Indexed.cancelOwned {state : BusState} (indexed : state.Indexed) (owner : Option JSString) :
    (state.cancelOwnedIn owner).1.Indexed :=
  indexed.detachWhere _ _

theorem Indexed.claim {state : BusState} (indexed : state.Indexed) (caller claimPrefix : JSString) :
    (state.claimIn caller claimPrefix).1.Indexed := by
  unfold claimIn
  split
  · exact indexed
  · exact indexed.same rfl rfl rfl rfl

theorem Indexed.declare {state next : BusState} (indexed : state.Indexed) {binding party : JSString} {entry : Json}
    (done : state.declareIn binding entry party = .ok next) : next.Indexed := by
  unfold BusState.declareIn at done
  cases outcome : Xript.declare binding entry party state.catalogue with
  | error error =>
    rw [outcome] at done
    cases done
  | ok catalogue =>
    rw [outcome] at done
    cases done
    exact indexed.same rfl rfl rfl rfl

theorem cancelIn_sequence {state : BusState} {mayCancelOthers : Bool} {caller : Option JSString} {key : JSString}
    {answer : BusState × CancelAnswer} (done : state.cancelIn mayCancelOthers caller key = .ok answer) :
    answer.1.sequence = state.sequence := by
  unfold cancelIn at done
  split at done
  · split at done
    · cases done
    · cases done
      exact (detachIn_fields state key).2.1
  · cases done
    rfl

theorem claimOnceIn_sequence (state : BusState) (token : JSString) :
    (state.claimOnceIn token).1.sequence = state.sequence := by
  unfold claimOnceIn
  split
  · exact (detachIn_fields state token).2.1
  · rfl

/-- The listeners of all events are the live tokens. -/
theorem Indexed.perm {state : BusState} (indexed : state.Indexed) :
    (state.byEvent.keys.flatMap state.listeners).Perm state.subscriptions.keys := by
  refine (List.perm_ext_iff_of_nodup ?_ indexed.subscribed).mpr fun token => ?_
  · rw [List.nodup_flatMap]
    refine ⟨fun event _ => indexed.nodup event, indexed.events.imp fun {first second} different => ?_⟩
    intro token here there
    obtain ⟨subscription, found, filed⟩ := (indexed.listed first token).mp here
    obtain ⟨other, known, elsewhere⟩ := (indexed.listed second token).mp there
    rw [found] at known
    obtain rfl := Option.some.inj known
    exact different (filed.symm.trans elsewhere)
  · rw [List.mem_flatMap, ← Record.get_isSome]
    constructor
    · rintro ⟨event, -, member⟩
      obtain ⟨subscription, found, -⟩ := (indexed.listed event token).mp member
      simp [found]
    · intro known
      obtain ⟨subscription, found⟩ := Option.isSome_iff_exists.mp known
      have member := (indexed.listed subscription.event token).mpr ⟨subscription, found, rfl⟩
      refine ⟨subscription.event, Record.get_isSome.mp ?_, member⟩
      cases filed : state.byEvent.get subscription.event with
      | none => simp [listeners, filed] at member
      | some list => rfl

theorem Indexed.total {state : BusState} (indexed : state.Indexed) :
    state.listenerTotal = (state.names.map state.listenerCount).sum := by
  rw [listenerTotal, ← indexed.perm.length_eq, List.length_flatMap]
  exact ((List.mergeSort_perm _ _).map state.listenerCount).sum_eq.symm

end BusState

end Xript
