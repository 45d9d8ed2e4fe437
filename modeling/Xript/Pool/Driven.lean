import Xript.Pool.Drivers

namespace Xript

variable {A R : Type}

/-- Every worker is one of the pool's, and without workers there is nothing to merge. -/
structure FanPlan.Proper (plan : FanPlan A R) : Prop where
  known : ∀ id ∈ plan.targets, plan.known id = true
  nothing : plan.nothing = plan.merge []

/-- The answers of all the workers, merged. -/
def FanPlan.outcome (plan : FanPlan A R) : R := plan.merge (plan.targets.map fun id => some (plan.answer id))

namespace Concurrent

variable {plan : FanPlan A R} {s t : Concurrent A R}

/-- No callback has merged the answers. -/
def untaken (s : Concurrent A R) : Prop := s.callbacks.countP Callback.isMerged + s.completed.length = 0

structure Sound (plan : FanPlan A R) (s : Concurrent A R) : Prop where
  size : s.callbacks.length = plan.targets.length
  unsent : ∀ slot < plan.targets.length, s.callbacks[slot]? = some .unsent ↔ s.sent ≤ slot
  counted : s.remaining = s.callbacks.countP Callback.pending
  finishing : s.callbacks.countP Callback.isLast + s.callbacks.countP Callback.isMerged + s.completed.length =
    if s.remaining = 0 then 1 else 0
  segments : s.untaken → s.segments.length = plan.targets.length
  stored : s.untaken → ∀ (slot : Nat) id callback, plan.targets[slot]? = some id → s.callbacks[slot]? = some callback →
    callback.answered = true → s.segments[slot]? = some (some (plan.answer id))
  merged : ∀ (slot : Nat) result, s.callbacks[slot]? = some (.merged result) → result = plan.outcome
  results : ∀ result ∈ s.completed, result = plan.outcome
  completer : s.completer = s.completed.isEmpty

theorem start_sound (proper : plan.Proper) : (start plan).Sound plan := by
  have none : ∀ counts : Callback R → Bool, counts .unsent = false →
      (List.replicate plan.targets.length (Callback.unsent (R := R))).countP counts = 0 :=
    fun counts uncounted => List.countP_eq_zero.mpr fun callback member => by
      rw [List.eq_of_mem_replicate member, uncounted]
      nofun
  have only : ∀ (slot : Nat) callback, (List.replicate plan.targets.length (Callback.unsent (R := R)))[slot]? = some callback →
      callback = .unsent := fun slot callback is => List.eq_of_mem_replicate (List.mem_of_getElem? is)
  refine ⟨List.length_replicate, fun slot bound => ?_, ?_, ?_, fun _ => List.length_replicate,
    fun _ slot id callback _ is answered => ?_, fun slot result is => ?_, fun result inside => ?_, ?_⟩
  · exact iff_of_true (List.getElem?_replicate_of_lt bound) (Nat.zero_le _)
  · show plan.targets.length = List.countP _ (List.replicate ..)
    rw [List.countP_replicate]
    rfl
  · show List.countP _ (List.replicate ..) + List.countP _ (List.replicate ..) + List.length (if _ then _ else _) = _
    rw [none _ rfl, none _ rfl]
    show 0 + 0 + List.length (if plan.targets.isEmpty then [plan.nothing] else []) = if plan.targets.length = 0 then 1 else 0
    cases plan.targets <;> rfl
  · rw [only slot callback is] at answered
    cases answered
  · cases only slot _ is
  · change result ∈ (if plan.targets.isEmpty then [plan.nothing] else []) at inside
    rw [FanPlan.outcome]
    cases targets : plan.targets with
    | nil =>
      rw [targets] at inside
      exact (List.mem_singleton.mp inside).trans proper.nothing
    | cons id ids =>
      rw [targets] at inside
      cases inside
  · show (!plan.targets.isEmpty) = List.isEmpty (if plan.targets.isEmpty then [plan.nothing] else [])
    cases plan.targets <;> rfl

/-- A count of callbacks after one of them has moved on. -/
theorem count_set (counts : Callback R → Bool) {callbacks : List (Callback R)} {slot : Nat} {old : Callback R}
    (here : callbacks[slot]? = some old) (next : Callback R) :
    (callbacks.set slot next).countP counts + (if counts old then 1 else 0) =
      callbacks.countP counts + if counts next then 1 else 0 := by
  have moved := countP_set_eq counts here (y := next)
  split at moved <;> split at moved <;> simp_all <;> omega

theorem count_pos {counts : Callback R → Bool} {callbacks : List (Callback R)} {slot : Nat} {callback : Callback R}
    (here : callbacks[slot]? = some callback) (counted : counts callback = true) : 0 < callbacks.countP counts :=
  List.countP_pos_iff.mpr ⟨callback, List.mem_of_getElem? here, counted⟩

theorem set_other {callbacks : List (Callback R)} {slot other : Nat} {old next callback : Callback R}
    (here : callbacks[slot]? = some old) (at_ : (callbacks.set slot next)[other]? = some callback) :
    other = slot ∧ callback = next ∨ callbacks[other]? = some callback := by
  rw [getElem?_set_cases here] at at_
  split at at_
  · exact Or.inl ⟨‹_›, at_⟩
  · exact Or.inr at_

theorem dispatch_sound (proper : plan.Proper) (sound : s.Sound plan) {id : WorkerId}
    (target : plan.targets[s.sent]? = some id) :
    Sound plan { s with sent := s.sent + 1, callbacks := s.callbacks.set s.sent (if plan.known id then .waiting else .done) } := by
  rw [if_pos (proper.known id (List.mem_of_getElem? target))]
  have bound := (List.getElem?_eq_some_iff.mp target).1
  have here := (sound.unsent s.sent bound).mpr le_rfl
  have pending := count_set Callback.pending here .waiting
  have last : (s.callbacks.set s.sent .waiting).countP Callback.isLast = _ := count_set Callback.isLast here .waiting
  have merged : (s.callbacks.set s.sent .waiting).countP Callback.isMerged = _ := count_set Callback.isMerged here .waiting
  have same : untaken { s with sent := s.sent + 1, callbacks := s.callbacks.set s.sent .waiting } ↔ s.untaken := by
    rw [untaken, untaken, merged]
    rfl
  refine ⟨(List.length_set ..).trans sound.size, fun slot within => ?_, ?_, ?_, fun fresh => sound.segments (same.mp fresh),
    fun fresh slot id callback is at_ answered => ?_, fun slot result at_ => ?_, sound.results, sound.completer⟩
  · show (s.callbacks.set _ _)[slot]? = _ ↔ s.sent + 1 ≤ slot
    rw [getElem?_set_cases here]
    split
    · exact iff_of_false nofun (by omega)
    · rw [sound.unsent slot within]
      omega
  · exact sound.counted.trans (Nat.add_right_cancel pending).symm
  · show List.countP _ (s.callbacks.set _ _) + List.countP _ (s.callbacks.set _ _) + _ = _
    rw [last, merged]
    exact sound.finishing
  · rcases set_other here at_ with ⟨-, rfl⟩ | before
    · cases answered
    · exact sound.stored (same.mp fresh) slot id callback is before answered
  · rcases set_other here at_ with ⟨-, none⟩ | before
    · cases none
    · exact sound.merged slot result before

/-- The callbacks that are sent stay so. -/
theorem Sound.unsent_set (sound : s.Sound plan) {slot : Nat} {old next : Callback R} (here : s.callbacks[slot]? = some old)
    (wasSent : old ≠ .unsent) (isSent : next ≠ .unsent) (other : Nat) (within : other < plan.targets.length) :
    (s.callbacks.set slot next)[other]? = some .unsent ↔ s.sent ≤ other := by
  rw [getElem?_set_cases here]
  split
  · rename_i same
    refine iff_of_false isSent.symm fun after => wasSent ?_
    have unsent := (sound.unsent other within).mpr after
    exact Option.some.inj (here.symm.trans (same ▸ unsent))
  · exact sound.unsent other within

theorem reply_sound (sound : s.Sound plan) {slot : Nat} {id : WorkerId} (here : s.callbacks[slot]? = some .waiting)
    (target : plan.targets[slot]? = some id) :
    Sound plan { s with
      segments := s.segments.set slot (some (plan.answer id)), callbacks := s.callbacks.set slot .stored } := by
  have pending := count_set Callback.pending here .stored
  have last : (s.callbacks.set slot .stored).countP Callback.isLast = _ := count_set Callback.isLast here .stored
  have merged : (s.callbacks.set slot .stored).countP Callback.isMerged = _ := count_set Callback.isMerged here .stored
  have same : untaken { s with
      segments := s.segments.set slot (some (plan.answer id)), callbacks := s.callbacks.set slot .stored } ↔ s.untaken := by
    rw [untaken, untaken, merged]
    rfl
  refine ⟨(List.length_set ..).trans sound.size, sound.unsent_set here nofun nofun, ?_, ?_,
    fun fresh => (List.length_set ..).trans (sound.segments (same.mp fresh)),
    fun fresh other id' callback is at_ answered => ?_, fun other result at_ => ?_, sound.results, sound.completer⟩
  · exact sound.counted.trans (Nat.add_right_cancel pending).symm
  · show List.countP _ (s.callbacks.set _ _) + List.countP _ (s.callbacks.set _ _) + _ = _
    rw [last, merged]
    exact sound.finishing
  · have bound : slot < s.segments.length :=
      sound.segments (same.mp fresh) ▸ (List.getElem?_eq_some_iff.mp target).1
    show (s.segments.set _ _)[other]? = _
    rcases set_other here at_ with ⟨rfl, -⟩ | before
    · rw [List.getElem?_set_self bound, Option.some.inj (target.symm.trans is)]
    · have apart : slot ≠ other := by
        rintro rfl
        rw [Option.some.inj (before.symm.trans here)] at answered
        cases answered
      rw [List.getElem?_set_ne apart]
      exact sound.stored (same.mp fresh) other id' callback is before answered
  · rcases set_other here at_ with ⟨-, none⟩ | before
    · cases none
    · exact sound.merged other result before

/-- A callback that has stored its answer counts it, and goes on where it is the last. -/
theorem count_sound (sound : s.Sound plan) {slot : Nat} (here : s.callbacks[slot]? = some .stored) {next : Callback R}
    (counted : next.pending = false) (unmerged : next.isMerged = false) (last : next.isLast = decide (s.remaining = 1)) :
    Sound plan { s with remaining := s.remaining - 1, callbacks := s.callbacks.set slot next } := by
  have some_ : 0 < s.remaining := sound.counted ▸ count_pos here rfl
  have finishing := sound.finishing
  have pending := count_set Callback.pending here next
  have lasts := count_set Callback.isLast here next
  have merged : (s.callbacks.set slot next).countP Callback.isMerged = s.callbacks.countP Callback.isMerged := by
    have counts := count_set Callback.isMerged here next
    rw [unmerged] at counts
    exact counts
  have same : untaken { s with remaining := s.remaining - 1, callbacks := s.callbacks.set slot next } ↔ s.untaken := by
    rw [untaken, untaken, merged]
  have sent : next ≠ .unsent := by
    rintro rfl
    cases counted
  refine ⟨(List.length_set ..).trans sound.size, sound.unsent_set here nofun sent, ?_, ?_,
    fun fresh => sound.segments (same.mp fresh), fun fresh other id callback is at_ answered => ?_,
    fun other result at_ => ?_, sound.results, sound.completer⟩
  · show s.remaining - 1 = (s.callbacks.set slot next).countP _
    rw [counted] at pending
    simp only [Callback.pending, if_true, Bool.false_eq_true, if_false, Nat.add_zero] at pending
    rw [sound.counted]
    omega
  · show (s.callbacks.set slot next).countP _ + (s.callbacks.set slot next).countP _ + s.completed.length =
      if s.remaining - 1 = 0 then 1 else 0
    rw [if_neg (by omega)] at finishing
    rw [last] at lasts
    simp only [Callback.isLast, Bool.false_eq_true, if_false, Nat.add_zero, decide_eq_true_eq] at lasts
    rw [merged, lasts]
    by_cases only : s.remaining = 1
    · rw [if_pos only, if_pos (by omega)]
      omega
    · rw [if_neg only, if_neg (by omega)]
      omega
  · rcases set_other here at_ with ⟨rfl, -⟩ | before
    · exact sound.stored (same.mp fresh) other id .stored is here rfl
    · exact sound.stored (same.mp fresh) other id callback is before answered
  · rcases set_other here at_ with ⟨-, rfl⟩ | before
    · cases unmerged
    · exact sound.merged other result before

/-- Once a callback is the last, every worker has answered and nothing has been merged. -/
theorem Sound.all_stored (sound : s.Sound plan) {slot : Nat} (here : s.callbacks[slot]? = some .last) :
    s.untaken ∧ s.remaining = 0 ∧ s.segments = plan.targets.map fun id => some (plan.answer id) := by
  have finishing := sound.finishing
  have some_ : 0 < s.callbacks.countP Callback.isLast := count_pos here rfl
  have spent : s.remaining = 0 := by
    by_contra more
    rw [if_neg more] at finishing
    omega
  have fresh : s.untaken := by
    rw [if_pos spent] at finishing
    rw [untaken]
    omega
  refine ⟨fresh, spent, List.ext_getElem? fun other => ?_⟩
  rw [List.getElem?_map]
  cases target : plan.targets[other]? with
  | none =>
    rw [List.getElem?_eq_none_iff] at target
    exact List.getElem?_eq_none (sound.segments fresh ▸ target)
  | some id =>
    have bound : other < s.callbacks.length := sound.size ▸ (List.getElem?_eq_some_iff.mp target).1
    have at_ := List.getElem?_eq_getElem bound
    refine sound.stored fresh other id s.callbacks[other] target at_ ?_
    have settled : ¬ s.callbacks[other].pending = true := fun waits => by
      have pending := count_pos at_ waits
      rw [← sound.counted, spent] at pending
      exact absurd pending (Nat.lt_irrefl 0)
    have unmerged : ¬ s.callbacks[other].isMerged = true := fun took => by
      have merged := count_pos at_ took
      rw [untaken] at fresh
      omega
    cases is : s.callbacks[other] with
    | unsent | waiting => exact absurd (by rw [is]; rfl) settled
    | merged _ => exact absurd (by rw [is]; rfl) unmerged
    | stored | last | done => rfl

theorem take_sound (sound : s.Sound plan) {slot : Nat} (here : s.callbacks[slot]? = some .last) :
    Sound plan { s with segments := [], callbacks := s.callbacks.set slot (.merged (plan.merge s.segments)) } := by
  obtain ⟨-, spent, all⟩ := sound.all_stored here
  have finishing := sound.finishing
  have pending := count_set Callback.pending here (.merged (plan.merge s.segments))
  have last := count_set Callback.isLast here (.merged (plan.merge s.segments))
  have merged := count_set Callback.isMerged here (.merged (plan.merge s.segments))
  have taken : ¬ untaken (A := A) { s with segments := [], callbacks := s.callbacks.set slot (.merged (plan.merge s.segments)) } := by
    rw [untaken]
    show ¬ List.countP _ (s.callbacks.set slot _) + _ = 0
    simp only [Callback.isMerged, Bool.false_eq_true, if_false, if_true, Nat.add_zero] at merged
    omega
  refine ⟨(List.length_set ..).trans sound.size, sound.unsent_set here nofun nofun, ?_, ?_, fun fresh => absurd fresh taken,
    fun fresh => absurd fresh taken, fun other result at_ => ?_, sound.results, sound.completer⟩
  · exact sound.counted.trans pending.symm
  · show List.countP _ (s.callbacks.set _ _) + List.countP _ (s.callbacks.set _ _) + s.completed.length = _
    simp only [Callback.isLast, Callback.isMerged, Bool.false_eq_true, if_false, if_true, Nat.add_zero] at last merged
    rw [merged, ← finishing]
    omega
  · rcases set_other here at_ with ⟨-, is⟩ | before
    · rw [Callback.merged.inj is, FanPlan.outcome, all]
    · exact sound.merged other result before

theorem complete_sound (sound : s.Sound plan) {slot : Nat} {result : R} (here : s.callbacks[slot]? = some (.merged result)) :
    Sound plan { s with
      callbacks := s.callbacks.set slot .done, completer := false,
      completed := if s.completer then s.completed ++ [result] else s.completed } := by
  have finishing := sound.finishing
  have some_ : 0 < s.callbacks.countP Callback.isMerged := count_pos here rfl
  have spent : s.remaining = 0 := by
    by_contra more
    rw [if_neg more] at finishing
    omega
  rw [if_pos spent] at finishing
  have first : s.completed = [] := List.length_eq_zero_iff.mp (by omega)
  have whole : s.completer = true := by rw [sound.completer, first]; rfl
  rw [whole, if_pos rfl, first, List.nil_append]
  have pending := count_set Callback.pending here .done
  have last := count_set Callback.isLast here .done
  have merged := count_set Callback.isMerged here .done
  have taken : ¬ untaken (A := A) { s with callbacks := s.callbacks.set slot .done, completer := false, completed := [result] } := by
    rw [untaken]
    show ¬ _ + 1 = 0
    omega
  refine ⟨(List.length_set ..).trans sound.size, sound.unsent_set here nofun nofun, ?_, ?_, fun fresh => absurd fresh taken,
    fun fresh => absurd fresh taken, fun other result at_ => ?_, fun other inside => ?_, rfl⟩
  · exact sound.counted.trans pending.symm
  · show List.countP _ (s.callbacks.set _ _) + List.countP _ (s.callbacks.set _ _) + 1 = if s.remaining = 0 then 1 else 0
    simp only [Callback.isLast, Callback.isMerged, Bool.false_eq_true, if_false, if_true, Nat.add_zero] at last merged
    rw [if_pos spent]
    omega
  · rcases set_other here at_ with ⟨-, none⟩ | before
    · cases none
    · exact sound.merged other result before
  · rw [List.mem_singleton.mp inside]
    exact sound.merged slot result here

/-- What is left to do. -/
def work (s : Concurrent A R) : Nat := (s.callbacks.map Callback.work).sum

theorem work_set {s t : Concurrent A R} {slot : Nat} {old next : Callback R} (here : s.callbacks[slot]? = some old)
    (moved : t.callbacks = s.callbacks.set slot next) (less : next.work < old.work) : t.work < s.work := by
  have sum := sum_set Callback.work here (y := next)
  rw [work, work, moved]
  omega

/-- Every step keeps the order of things, and does some of the work. -/
theorem Sound.step (proper : plan.Proper) (sound : s.Sound plan) {event : ConcurrentEvent}
    (taken : Concurrent.step plan s event = some t) : t.Sound plan ∧ t.work < s.work := by
  cases event with
  | dispatch =>
    rw [Concurrent.step] at taken
    split at taken
    · rename_i id target
      obtain rfl := Option.some.inj taken
      refine ⟨dispatch_sound proper sound target, ?_⟩
      have here := (sound.unsent s.sent (List.getElem?_eq_some_iff.mp target).1).mpr le_rfl
      refine work_set here rfl ?_
      split
      · exact Nat.lt_succ_self 4
      · exact Nat.succ_pos 4
    · cases taken
  | reply slot =>
    rw [Concurrent.step] at taken
    split at taken
    · rename_i id here target
      obtain rfl := Option.some.inj taken
      exact ⟨reply_sound sound here target, work_set here rfl (Nat.lt_succ_self 3)⟩
    · cases taken
  | count slot =>
    rw [Concurrent.step] at taken
    split at taken
    · rename_i here
      obtain rfl := Option.some.inj taken
      by_cases only : s.remaining = 1
      · refine ⟨count_sound sound here ?_ ?_ ?_, work_set here rfl ?_⟩ <;> simp [only, Callback.pending, Callback.isMerged,
          Callback.isLast, Callback.work]
      · refine ⟨count_sound sound here ?_ ?_ ?_, work_set here rfl ?_⟩ <;> simp [only, Callback.pending, Callback.isMerged,
          Callback.isLast, Callback.work]
    · cases taken
  | take slot =>
    rw [Concurrent.step] at taken
    split at taken
    · rename_i here
      obtain rfl := Option.some.inj taken
      exact ⟨take_sound sound here, work_set here rfl Nat.one_lt_two⟩
    · cases taken
  | complete slot =>
    rw [Concurrent.step] at taken
    split at taken
    · rename_i result here
      obtain rfl := Option.some.inj taken
      exact ⟨complete_sound sound here, work_set here rfl Nat.zero_lt_one⟩
    · cases taken

theorem Sound.once (sound : s.Sound plan) : s.completed = [] ∨ s.completed = [plan.outcome] := by
  have finishing := sound.finishing
  have few : s.completed.length ≤ 1 := by split at finishing <;> omega
  match is : s.completed with
  | [] => exact Or.inl rfl
  | [result] =>
    exact Or.inr (congrArg (List.cons · []) (sound.results result (is ▸ List.mem_singleton_self result)))
  | _ :: _ :: _ =>
    rw [is] at few
    exact absurd few (by simp)

/-- As long as it has not completed, some callback can go on or some worker can be fired on or answer. -/
theorem Sound.goes_on (sound : s.Sound plan) (open_ : s.completed = []) : ∃ event, Concurrent.step plan s event ≠ none := by
  have busy : ∃ callback ∈ s.callbacks, callback.pending || callback.isLast || callback.isMerged := by
    have finishing := sound.finishing
    rw [open_, List.length_nil, Nat.add_zero] at finishing
    by_cases spent : s.remaining = 0
    · rw [if_pos spent] at finishing
      rcases Nat.lt_or_ge 0 (s.callbacks.countP Callback.isLast) with some_ | none
      · obtain ⟨callback, member, is⟩ := List.countP_pos_iff.mp some_
        exact ⟨callback, member, by simp [is]⟩
      · obtain ⟨callback, member, is⟩ := List.countP_pos_iff.mp (show 0 < s.callbacks.countP Callback.isMerged by omega)
        exact ⟨callback, member, by simp [is]⟩
    · obtain ⟨callback, member, is⟩ :=
        List.countP_pos_iff.mp (show 0 < s.callbacks.countP Callback.pending from sound.counted ▸ Nat.pos_of_ne_zero spent)
      exact ⟨callback, member, by simp [is]⟩
  obtain ⟨callback, member, is⟩ := busy
  obtain ⟨slot, bound, here⟩ := List.getElem_of_mem member
  have at_ : s.callbacks[slot]? = some callback := List.getElem?_eq_some_iff.mpr ⟨bound, here⟩
  rw [sound.size] at bound
  have target := List.getElem?_eq_getElem bound
  cases callback with
  | unsent =>
    have sent := Nat.lt_of_le_of_lt ((sound.unsent slot bound).mp at_) bound
    refine ⟨.dispatch, ?_⟩
    rw [Concurrent.step, List.getElem?_eq_getElem sent]
    nofun
  | waiting =>
    refine ⟨.reply slot, ?_⟩
    rw [Concurrent.step, at_, target]
    nofun
  | stored =>
    refine ⟨.count slot, ?_⟩
    rw [Concurrent.step, at_]
    nofun
  | last =>
    refine ⟨.take slot, ?_⟩
    rw [Concurrent.step, at_]
    nofun
  | merged result =>
    refine ⟨.complete slot, ?_⟩
    rw [Concurrent.step, at_]
    nofun
  | done => cases is

theorem settles (proper : plan.Proper) : Settles (step plan) (start plan) completed plan.outcome :=
  .of_invariant (I := fun s => s.Sound plan) work (start_sound proper) (fun _ _ _ sound taken => sound.step proper taken)
    (fun _ sound => sound.once) fun _ sound => sound.goes_on

end Concurrent

namespace Sequential

variable {plan : FanPlan A R} {s t : Sequential A R}

/-- The first workers have answered, and the result is out once all have. -/
structure Sound (plan : FanPlan A R) (s : Sequential A R) : Prop where
  within : s.position ≤ plan.targets.length
  waits : s.waiting = true → s.position < plan.targets.length
  collected : s.collected = (plan.targets.take s.position).map fun id => some (plan.answer id)
  unfinished : s.ended = false → s.completed = []
  finished : s.ended = true → plan.targets.length ≤ s.position ∧ s.completed = [plan.outcome]

theorem start_sound (proper : plan.Proper) : (start plan).Sound plan := by
  refine ⟨Nat.zero_le _, nofun, rfl, fun unfinished => ?_, fun finished => ?_⟩
  · change plan.targets.isEmpty = false at unfinished
    show (if plan.targets.isEmpty then [plan.nothing] else []) = []
    rw [unfinished]
    rfl
  · change plan.targets.isEmpty = true at finished
    have none := List.isEmpty_iff.mp finished
    refine ⟨by rw [none]; exact Nat.zero_le _, ?_⟩
    show (if plan.targets.isEmpty then [plan.nothing] else []) = [plan.outcome]
    rw [finished, if_pos rfl, proper.nothing, FanPlan.outcome, none]
    rfl

def work (plan : FanPlan A R) (s : Sequential A R) : Nat :=
  2 * (plan.targets.length - s.position) + (if s.waiting then 0 else 1) + if s.ended then 0 else 2

theorem Sound.step (proper : plan.Proper) (sound : s.Sound plan) {event : SequentialEvent}
    (taken : Sequential.step plan s event = some t) : t.Sound plan ∧ t.work plan < s.work plan := by
  cases event with
  | dispatch =>
    rw [Sequential.step] at taken
    split at taken
    · rename_i id target
      have bound := (List.getElem?_eq_some_iff.mp target).1
      rw [if_pos (proper.known id (List.mem_of_getElem? target))] at taken
      split at taken
      · cases taken
      · rename_i idle
        obtain rfl := Option.some.inj taken
        refine ⟨⟨sound.within, fun _ => bound, sound.collected, sound.unfinished, sound.finished⟩, ?_⟩
        rw [work, work, if_neg idle]
        show 2 * (plan.targets.length - s.position) + 0 + (if s.ended then 0 else 2) < _
        omega
    · cases taken
  | reply =>
    rw [Sequential.step] at taken
    split at taken
    · rename_i id target
      have bound := (List.getElem?_eq_some_iff.mp target).1
      split at taken
      · obtain rfl := Option.some.inj taken
        refine ⟨⟨bound, nofun, ?_, sound.unfinished, fun finished => ?_⟩, ?_⟩
        · show s.collected ++ _ = _
          rw [List.take_add_one, target, List.map_append, sound.collected]
          rfl
        · exact absurd (sound.finished finished).1 (Nat.not_le.mpr bound)
        · rename_i waiting
          rw [work, work, if_pos waiting]
          show 2 * (plan.targets.length - (s.position + 1)) + 1 + (if s.ended then 0 else 2) < _
          omega
      · cases taken
    · cases taken
  | complete =>
    rw [Sequential.step] at taken
    split at taken
    · rename_i ready
      obtain rfl := Option.some.inj taken
      refine ⟨⟨sound.within, sound.waits, sound.collected, nofun, fun _ => ⟨ready.1, ?_⟩⟩, ?_⟩
      · show s.completed ++ _ = _
        rw [sound.unfinished ready.2, sound.collected, List.take_of_length_le ready.1]
        rfl
      · rw [work, work, ready.2]
        show 2 * (plan.targets.length - s.position) + (if s.waiting then 0 else 1) + 0 < _ + 2
        omega
    · cases taken

theorem Sound.once (sound : s.Sound plan) : s.completed = [] ∨ s.completed = [plan.outcome] := by
  cases spent : s.ended with
  | false => exact Or.inl (sound.unfinished spent)
  | true => exact Or.inr (sound.finished spent).2

theorem Sound.goes_on (sound : s.Sound plan) (open_ : s.completed = []) : ∃ event, Sequential.step plan s event ≠ none := by
  have unfinished : s.ended = false := by
    cases spent : s.ended with
    | false => rfl
    | true => cases open_.symm.trans (sound.finished spent).2
  rcases Nat.lt_or_ge s.position plan.targets.length with bound | ready
  · have target := List.getElem?_eq_getElem bound
    cases waiting : s.waiting with
    | true =>
      refine ⟨.reply, ?_⟩
      rw [Sequential.step, target, waiting]
      nofun
    | false =>
      refine ⟨.dispatch, ?_⟩
      rw [Sequential.step, target, waiting]
      show (if plan.known _ then _ else _) ≠ none
      split <;> nofun
  · refine ⟨.complete, ?_⟩
    rw [Sequential.step, if_pos ⟨ready, unfinished⟩]
    nofun

theorem settles (proper : plan.Proper) : Settles (step plan) (start plan) completed plan.outcome :=
  .of_invariant (I := fun s => s.Sound plan) (work plan) (start_sound proper)
    (fun _ _ _ sound taken => sound.step proper taken) (fun _ sound => sound.once) fun _ sound => sound.goes_on

end Sequential

namespace HookPool

variable {V E : Type} (pool : HookPool V) (phase : Option JSString) (failure : WorkerId → Option E)

/-- What a fire of the hook works from. -/
def plan : FanPlan (Except E (List (OrderedResult V))) (Except E (List V)) where
  targets := pool.targets
  known id := (pool.worker id).isSome
  answer := pool.answer phase failure
  merge segments := mergeSegments segments pool.seqOf
  nothing := .ok []

theorem plan_proper : (pool.plan phase failure).Proper where
  known id target := by
    obtain ⟨worker, -, found⟩ := worker_of_target target
    show (pool.worker id).isSome = true
    rw [found]
    rfl
  nothing := by
    show Except.ok [] = mergeSegments [] pool.seqOf
    rw [mergeSegments, collectSegments]
    simp [Except.map]

theorem plan_outcome : (pool.plan phase failure).outcome = pool.outcome phase failure :=
  pool.mergeSegments_answers phase failure

/-- A runtime that has all the handlers and all the fills. -/
def single : HookWorker V := ⟨.worker 0, pool.registered, pool.loadedFills⟩

/-- One runtime fired with all of them returns the same values. -/
theorem single_fires :
    (fireHookOrdered pool.definition phase pool.single).map OrderedResult.value = pool.inOrder phase := by
  have values : ∀ first counters (results : List (Option Nat × JSString × V)), (tagResults first counters results).map OrderedResult.value =
      results.map fun result => result.2.2 :=
    fun first counters results => map_tagResults (fun result => result.2.2) first counters results
  rw [fireHookOrdered, List.map_append, handlerResults, fillResults, values, values, List.map_map, List.map_map]
  rfl

end HookPool

end Xript
