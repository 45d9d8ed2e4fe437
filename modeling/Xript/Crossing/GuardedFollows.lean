import Xript.Crossing.GuardedJson

namespace Xript

namespace GuardedJson

section

variable (world : World)

/-- Whether a member is written: what its `toJSON` answers is no undefined, symbol or function. -/
def World.emits (key : JSString) (value : GraphValue) : Bool :=
  match world.afterToJson key value with
  | .prim .undefined | .symbol _ | .func _ => false
  | _ => true

/-- The keys the guarded serialisation of an ordinary object goes through, in their order. -/
def offeredKeys (items : List GraphValue) (tag : JSString) (keys : List JSString) (get : JSString → GraphValue) :
    List JSString :=
  if isPlainTag tag then (picked get (propertyList world items)).keys else keys

/-- The objects a property list is applied to as the engine applies it: no boxed primitive is taken for a container, and
what is written of an ordinary object has the list's order. -/
def Replacer.alike : Replacer → ObjectInfo → Prop
  | .list _, .boxed tag _ _ => isPlainTag tag = false
  | .list items, .ordinary tag keys get =>
    (offeredKeys world items tag keys get).filter (fun key => world.emits key (get key)) =
      (nativeKeys world items).filter fun key => world.emits key (get key)
  | _, _ => True

def Replacer.isList : Replacer → Bool
  | .list _ => true
  | _ => false

/-- The objects a serialisation meets before the first that is inside as many containers as are allowed. -/
def reached (objects : List (Nat × Nat)) : List (Nat × Nat) := objects.takeWhile fun met => met.2 < nativeStringifyDepth

/-- `members` and `members'` are the same but for silent members, of which there are none unless `skip`. -/
inductive Alongside (skip : Bool) : List (JSString × GraphValue) → List (JSString × GraphValue) → Prop
  | nil : Alongside skip [] []
  | both (member) {members members'} : Alongside skip members members' →
      Alongside skip (member :: members) (member :: members')
  | left (member) {members members'} : skip = true → world.emits member.1 member.2 = false →
      Alongside skip members members' → Alongside skip (member :: members) members'
  | right (member) {members members'} : skip = true → world.emits member.1 member.2 = false →
      Alongside skip members members' → Alongside skip members (member :: members')

theorem Alongside.refl {skip : Bool} (members : List (JSString × GraphValue)) : Alongside world skip members members := by
  induction members with
  | nil => exact .nil
  | cons member members ih => exact .both member ih

variable {world}

theorem Alongside.of_filter {members members' : List (JSString × GraphValue)}
    (same : members.filter (fun member => world.emits member.1 member.2) =
      members'.filter fun member => world.emits member.1 member.2) : Alongside world true members members' := by
  induction members generalizing members' with
  | nil =>
    induction members' with
    | nil => exact .nil
    | cons member' members' ih' =>
      cases emitted : world.emits member'.1 member'.2 with
      | false =>
        rw [List.filter_cons, emitted] at same
        exact .right member' rfl emitted (ih' same)
      | true =>
        rw [List.filter_cons, emitted] at same
        cases same
  | cons member members ih =>
    cases emitted : world.emits member.1 member.2 with
    | false =>
      rw [List.filter_cons, emitted] at same
      exact .left member rfl emitted (ih same)
    | true =>
      induction members' with
      | nil =>
        rw [List.filter_cons, emitted] at same
        cases same
      | cons member' members' ih' =>
        cases emitted' : world.emits member'.1 member'.2 with
        | false =>
          rw [@List.filter_cons _ member', emitted'] at same
          exact .right member' rfl emitted' (ih' same)
        | true =>
          rw [List.filter_cons, List.filter_cons, emitted, emitted'] at same
          obtain ⟨head, tail⟩ := List.cons.inj same
          rw [head]
          exact .both member' (ih tail)

theorem picked_get {get : JSString → GraphValue} {keys : List JSString} {key : JSString}
    (member : key ∈ (picked get keys).keys) : (picked get keys).get key = some (get key) := by
  have reads : ∀ (keys : List JSString) (copy : Record GraphValue),
      (∀ key value, Record.get copy key = some value → value = get key) → ∀ key value,
        Record.get (keys.foldl (fun copy key => copy.set key (get key)) copy) key = some value → value = get key := by
    intro keys
    induction keys with
    | nil => exact fun copy read => read
    | cons first keys ih =>
      intro copy read
      refine ih _ ?_
      intro key value found
      rw [Record.get_set] at found
      split at found
      · rename_i same
        rw [← Option.some.inj found, ← same]
      · exact read key value found
  obtain ⟨value, found⟩ := Option.isSome_iff_exists.mp (Record.get_isSome.mpr member)
  rw [found, reads keys [] (fun _ _ absent => by cases absent) key value found]

end

/-- The holder of the members of the innermost container entered. -/
def holderOf (entered : List Identity) : Identity := entered.head?.getD .wrapper

/-- The guard's stack ends with the containers entered, and its top is the innermost it knows of. -/
structure Settled (entered : List Identity) (st : Guard) : Prop where
  stack : entered <:+ st.stack
  nodup : st.stack.Nodup
  inner : .wrapper ∉ st.stack
  top : st.top = some (holderOf st.stack)
  opened : ∀ identity, st.opened = some identity → identity ≠ .wrapper ∧ (identity ∈ entered → st.top = some identity)
  numbered : ∀ serial, .copy serial ∈ st.stack → serial < st.serial

/-- Following the holder leaves on the stack exactly the containers entered. -/
def Ready (entered : List Identity) (st : Guard) : Prop :=
  Settled entered (st.follow (holderOf entered)) ∧ (st.follow (holderOf entered)).stack = entered

namespace Settled

variable {entered : List Identity} {st : Guard}

/-- The innermost container entered is not among those the stack holds beyond it. -/
theorem split (settled : Settled entered st) :
    ∃ deeper, st.stack = deeper ++ entered ∧ ∀ identity ∈ deeper, identity ≠ holderOf entered := by
  obtain ⟨deeper, stack⟩ := settled.stack
  refine ⟨deeper, stack.symm, ?_⟩
  intro identity member same
  have nodup := settled.nodup
  rw [← stack, List.nodup_append] at nodup
  cases entered with
  | nil =>
    refine settled.inner ?_
    rw [← stack, List.append_nil]
    rw [same] at member
    exact member
  | cons first rest => exact nodup.2.2 identity member first (List.mem_cons_self ..) same

theorem follow (settled : Settled entered st) :
    st.follow (holderOf entered) = { st with top := some (holderOf entered), stack := entered } := by
  obtain ⟨deeper, stack, apart⟩ := settled.split
  have empty : holderOf st.stack = holderOf entered → deeper = [] := by
    intro same
    cases deeper with
    | nil => rfl
    | cons first deeper =>
      rw [stack] at same
      exact absurd same (apart first (List.mem_cons_self ..))
  have exact : st.top = some (holderOf entered) → st.stack = entered := by
    intro top
    rw [settled.top] at top
    rw [stack, empty (Option.some.inj top), List.nil_append]
  rw [Guard.follow]
  split
  · rename_i top
    rw [← top, ← exact top]
  split
  · rename_i top opened
    cases entered with
    | nil => exact absurd rfl (settled.opened _ opened).1
    | cons first rest => exact absurd ((settled.opened _ opened).2 (List.mem_cons_self ..)) top
  · congr 1
    rw [stack, List.dropWhile_append_of_pos (by
      intro identity member
      simpa using apart identity member)]
    cases entered with
    | nil => rfl
    | cons first rest => simp [holderOf]

theorem ready (settled : Settled entered st) : Ready entered st := by
  rw [Ready, settled.follow]
  refine ⟨⟨List.suffix_refl _, settled.nodup.sublist settled.stack.sublist, ?_, rfl, ?_, ?_⟩, rfl⟩
  · exact fun member => settled.inner (settled.stack.subset member)
  · intro identity opened
    obtain ⟨proper, top⟩ := settled.opened identity opened
    refine ⟨proper, ?_⟩
    intro member
    have last := top member
    rw [settled.top] at last
    obtain ⟨deeper, stack, -⟩ := settled.split
    have nodup := settled.nodup
    cases deeper with
    | nil =>
      rw [stack, List.nil_append] at last
      exact last
    | cons first deeper =>
      rw [stack, List.cons_append, List.nodup_cons] at nodup
      rw [stack] at last
      have same : first = identity := Option.some.inj last
      rw [same] at nodup
      exact absurd (List.mem_append_right deeper member) nodup.1
  · exact fun serial member => settled.numbered serial (settled.stack.subset member)

/-- What is settled inside a container is settled outside it. -/
theorem leave {identity : Identity} (settled : Settled (identity :: entered) st) : Settled entered st where
  stack := (List.suffix_cons identity entered).trans settled.stack
  nodup := settled.nodup
  inner := settled.inner
  top := settled.top
  opened := fun other opened =>
    ⟨(settled.opened other opened).1, fun member => (settled.opened other opened).2 (List.mem_cons_of_mem _ member)⟩
  numbered := settled.numbered

theorem stays (settled : Settled entered st) {identity : Identity} {serial : Nat} (proper : identity ≠ .wrapper)
    (fresh : identity ∉ entered) (later : st.serial ≤ serial) :
    Settled entered { st with opened := some identity, serial := serial } where
  stack := settled.stack
  nodup := settled.nodup
  inner := settled.inner
  top := settled.top
  opened := by
    intro other opened
    obtain rfl := Option.some.inj opened
    exact ⟨proper, fun member => absurd member fresh⟩
  numbered := fun number member => (settled.numbered number member).trans_le later

/-- The container just opened is what the guard is called with next as a holder. -/
theorem opens (settled : Settled entered st) (exact : st.stack = entered) {identity : Identity} {serial : Nat}
    (proper : identity ≠ .wrapper) (fresh : identity ∉ entered) (later : st.serial ≤ serial)
    (numbered : ∀ number, identity = .copy number → number < serial) :
    Ready (identity :: entered) { st with opened := some identity, serial := serial } := by
  have other : st.top ≠ some identity := by
    rw [settled.top, exact]
    intro same
    have holder : holderOf entered = identity := Option.some.inj same
    cases entered with
    | nil => exact proper holder.symm
    | cons first rest => exact fresh (holder ▸ List.mem_cons_self ..)
  have followed : Guard.follow { st with opened := some identity, serial := serial } identity =
      { stack := identity :: st.stack, top := some identity, opened := some identity, serial := serial } := by
    rw [Guard.follow, if_neg other, if_pos rfl]
  have holder : holderOf (identity :: entered) = identity := rfl
  rw [Ready, holder, followed, exact]
  refine ⟨⟨List.suffix_refl _, ?_, ?_, rfl, ?_, ?_⟩, rfl⟩
  · exact List.nodup_cons.mpr ⟨fresh, exact ▸ settled.nodup⟩
  · intro member
    rcases List.mem_cons.mp member with same | inside
    · exact proper same.symm
    · exact settled.inner (exact ▸ inside)
  · intro next opened
    obtain rfl := Option.some.inj opened
    exact ⟨proper, fun _ => rfl⟩
  · intro number member
    rcases List.mem_cons.mp member with same | inside
    · exact numbered number same.symm
    · exact (settled.numbered number (exact ▸ inside)).trans_le later

end Settled

theorem ready_start : Ready [] ⟨[], none, none, 0⟩ :=
  ⟨⟨List.suffix_refl _, .nil, by simp [Guard.follow], rfl, by simp [Guard.follow, holderOf], by simp [Guard.follow]⟩, rfl⟩

theorem reached_append {first rest : List (Nat × Nat)} (within : ∀ met ∈ first, met.2 < nativeStringifyDepth) :
    reached (first ++ rest) = first ++ reached rest := by
  rw [reached, List.takeWhile_append_of_pos fun met member => decide_eq_true (within met member)]
  rfl

theorem mem_reached_append {first rest : List (Nat × Nat)} {met : Nat × Nat} (member : met ∈ reached first) :
    met ∈ reached (first ++ rest) := by
  rw [reached, List.takeWhile_append]
  split
  · exact List.mem_append_left _ ((List.takeWhile_prefix _).subset member)
  · exact member

/-- A serialisation that no unlike object and no cycle sets apart from the guard's. -/
def Clear (world : World) (replacer : Replacer) {α : Type} (run : Trace × Except Stop α) : Prop :=
  (∀ met ∈ reached run.1.objects, replacer.alike world (world.info met.1)) ∧
    (replacer.isList = true → run.2 ≠ .error .circular)

/-- The guard's serialisation does what the engine's does until it meets an object inside as many containers as are
allowed, and there it overflows. -/
structure Follows {α β : Type} (settled : Guard → Prop) (same : α → β → Prop) (run : Trace × Except Stop (α × Unit))
    (followed : Trace × Except Stop (β × Guard)) : Prop where
  within : (∀ met ∈ run.1.objects, met.2 < nativeStringifyDepth) →
    (∃ written written' st, run.2 = .ok (written, ()) ∧ followed.2 = .ok (written', st) ∧ same written written' ∧
      settled st) ∨ ∃ stop, run.2 = .error stop ∧ followed.2 = .error stop
  beyond : (∃ met ∈ run.1.objects, nativeStringifyDepth ≤ met.2) → followed.2 = .error .overflow
  entered : followed.1.entered ≤ nativeStringifyDepth

/-- Two lists of written members that make the same object, and the same array unless members were left out. -/
def Written (skip : Bool) (written written' : List (JSString × Option Json)) : Prop :=
  (skip = false → written = written') ∧
    written.filterMap (fun member => member.2.map (member.1, ·)) =
      written'.filterMap fun member => member.2.map (member.1, ·)

theorem Written.cons {skip : Bool} {written written' : List (JSString × Option Json)} (same : Written skip written written')
    (member : JSString × Option Json) : Written skip (member :: written) (member :: written') := by
  refine ⟨fun all => by rw [same.1 all], ?_⟩
  rw [List.filterMap_cons, List.filterMap_cons, same.2]

section

variable {σ : Type} {visit : JSString → GraphValue → σ → Trace × Except Stop (Option Json × σ)} {inside : Nat}
  {member : JSString × GraphValue} {members : List (JSString × GraphValue)} {st : σ}

theorem each_error {stop : Stop} (failed : (visit member.1 member.2 st).2 = .error stop) :
    each visit inside (member :: members) st = ((visit member.1 member.2 st).1, .error stop) := by
  simp only [each, failed]

theorem each_ok {written : Option Json} {next : σ} (done : (visit member.1 member.2 st).2 = .ok (written, next)) :
    each visit inside (member :: members) st =
      ((visit member.1 member.2 st).1.join (each visit inside members next).1,
        (each visit inside members next).2.map fun others => ((member.1, written) :: others.1, others.2)) := by
  simp only [each, done]

end

theorem map_error {α β : Type} {run : Except Stop α} {f : α → β} {stop : Stop} :
    run.map f = .error stop ↔ run = .error stop := by
  cases run <;> simp [Except.map]

section

variable {world : World} {replacer : Replacer} {skip : Bool} {inside : Nat} {inner outer : List Identity}
  {visit : JSString → GraphValue → Unit → Trace × Except Stop (Option Json × Unit)}
  {visit' : JSString → GraphValue → Guard → Trace × Except Stop (Option Json × Guard)}

theorem Clear.first {member : JSString × GraphValue} {members : List (JSString × GraphValue)}
    (clear : Clear world replacer (each visit inside (member :: members) ())) :
    Clear world replacer (visit member.1 member.2 ()) := by
  cases result : (visit member.1 member.2 ()).2 with
  | error stop =>
    rw [each_error result] at clear
    refine ⟨clear.1, fun list circular => clear.2 list ?_⟩
    rw [result] at circular
    cases circular
    rfl
  | ok made =>
    rw [each_ok result] at clear
    refine ⟨fun met member => clear.1 met (mem_reached_append member), fun _ circular => ?_⟩
    rw [result] at circular
    cases circular

theorem Clear.rest {member : JSString × GraphValue} {members : List (JSString × GraphValue)} {written : Option Json}
    (clear : Clear world replacer (each visit inside (member :: members) ()))
    (done : (visit member.1 member.2 ()).2 = .ok (written, ()))
    (within : ∀ met ∈ (visit member.1 member.2 ()).1.objects, met.2 < nativeStringifyDepth) :
    Clear world replacer (each visit inside members ()) := by
  rw [each_ok done] at clear
  refine ⟨fun met member => clear.1 met ?_, fun list circular => clear.2 list (map_error.mpr circular)⟩
  rw [Trace.join, reached_append within]
  exact List.mem_append_right _ member

/-- The members of a container, one after another, the silent ones left out of either list where they may be. -/
theorem each_follows (shallow : inside ≤ nativeStringifyDepth)
    (follows : ∀ key value st, Ready inner st → Clear world replacer (visit key value ()) →
      Follows (Settled inner) Eq (visit key value ()) (visit' key value st))
    (silent : skip = true → ∀ key value, world.emits key value = false →
      visit key value () = (.still inside, .ok (none, ())) ∧
        ∀ st, Ready inner st → ∃ st', visit' key value st = (.still inside, .ok (none, st')) ∧ Settled inner st')
    (leave : ∀ st, Settled inner st → Settled outer st) {members members' : List (JSString × GraphValue)}
    (alongside : Alongside world skip members members') {st : Guard} (ready : Ready inner st) (settled : Settled outer st)
    (clear : Clear world replacer (each visit inside members ())) :
    Follows (Settled outer) (Written skip) (each visit inside members ()) (each visit' inside members' st) := by
  induction alongside generalizing st with
  | nil => exact ⟨fun _ => .inl ⟨[], [], st, rfl, rfl, ⟨fun _ => rfl, rfl⟩, settled⟩, by simp [each, Trace.still], shallow⟩
  | @both member members members' _ ih =>
    have first := follows member.1 member.2 st ready clear.first
    by_cases within : ∀ met ∈ (visit member.1 member.2 ()).1.objects, met.2 < nativeStringifyDepth
    · rcases first.within within with ⟨written, _, next, done, done', rfl, kept⟩ | ⟨stop, failed, failed'⟩
      · have rest := ih kept.ready (leave next kept) (clear.rest done within)
        rw [each_ok done, each_ok done']
        refine ⟨?_, ?_, max_le first.entered rest.entered⟩
        · intro all
          rcases rest.within fun met member => all met (List.mem_append_right _ member) with
            ⟨others, others', last, ran, ran', same, kept⟩ | ⟨stop, failed, failed'⟩
          · exact .inl ⟨_, _, last, by rw [ran]; rfl, by rw [ran']; rfl, same.cons (member.1, written), kept⟩
          · exact .inr ⟨stop, map_error.mpr failed, map_error.mpr failed'⟩
        · rintro ⟨met, inObjects, deep⟩
          rcases List.mem_append.mp inObjects with here | later
          · exact absurd (within met here) (not_lt.mpr deep)
          · exact map_error.mpr (rest.beyond ⟨met, later, deep⟩)
      · rw [each_error failed, each_error failed']
        refine ⟨fun _ => .inr ⟨stop, rfl, rfl⟩, fun deep => ?_, first.entered⟩
        have overflow := first.beyond deep
        rw [failed'] at overflow
        cases overflow
        rfl
    · have deep : ∃ met ∈ (visit member.1 member.2 ()).1.objects, nativeStringifyDepth ≤ met.2 := by
        simpa using within
      have overflow := first.beyond deep
      have objects : ∀ met ∈ (visit member.1 member.2 ()).1.objects,
          met ∈ (each visit inside (member :: members) ()).1.objects := by
        intro met here
        cases result : (visit member.1 member.2 ()).2 with
        | error stop =>
          rw [each_error result]
          exact here
        | ok made =>
          rw [each_ok result]
          exact List.mem_append_left _ here
      rw [each_error overflow]
      exact ⟨fun all => absurd (fun met here => all met (objects met here)) within, fun _ => rfl, first.entered⟩
  | @left member members members' skips quiet _ ih =>
    have still := (silent skips member.1 member.2 quiet).1
    have done : (visit member.1 member.2 ()).2 = .ok (none, ()) := by rw [still]
    have rest := ih ready settled (clear.rest done (by rw [still]; simp [Trace.still]))
    rw [each_ok done, still]
    refine ⟨?_, rest.beyond ∘ id, rest.entered⟩
    intro all
    rcases rest.within all with ⟨others, others', last, ran, ran', same, kept⟩ | ⟨stop, failed, failed'⟩
    · refine .inl ⟨(member.1, none) :: others, others', last, by rw [ran]; rfl, ran', ⟨fun all => ?_, same.2⟩, kept⟩
      rw [skips] at all
      cases all
    · exact .inr ⟨stop, map_error.mpr failed, failed'⟩
  | @right member members members' skips quiet _ ih =>
    obtain ⟨next, still, kept⟩ := (silent skips member.1 member.2 quiet).2 st ready
    have done : (visit' member.1 member.2 st).2 = .ok (none, next) := by rw [still]
    have rest := ih kept.ready (leave next kept) clear
    rw [each_ok done, still]
    refine ⟨?_, fun deep => map_error.mpr (rest.beyond deep), max_le shallow rest.entered⟩
    intro all
    rcases rest.within all with ⟨others, others', last, ran, ran', same, kept⟩ | ⟨stop, failed, failed'⟩
    · refine .inl ⟨others, (member.1, none) :: others', last, ran, by rw [ran']; rfl, ⟨fun all => ?_, same.2⟩, kept⟩
      rw [skips] at all
      cases all
    · exact .inr ⟨stop, failed, map_error.mpr failed'⟩

end

def World.isBoxed (world : World) (ref : Nat) : Bool :=
  match world.info ref with
  | .boxed _ _ _ => true
  | _ => false

/-- What the engine writes of an object and what the guard has it write, with the identity it is then known by and the
number of the next copy. -/
inductive Offer (world : World) (skip : Bool) (ref number : Nat) : Identity → Nat → Form → Form → Prop
  | boxed (raw) : world.isBoxed ref = true → Offer world skip ref number (.object ref) number (.boxed ref raw) (.boxed ref raw)
  | array (members) : world.isBoxed ref = false →
      Offer world skip ref number (.object ref) number (.array ref members) (.array ref members)
  | itself {members members'} : world.isBoxed ref = false → Alongside world skip members members' →
      Offer world skip ref number (.object ref) number (.object (.object ref) members) (.object (.object ref) members')
  | copied {members members'} : skip = true → Alongside world skip members members' →
      Offer world skip ref number (.copy number) (number + 1) (.object (.object ref) members)
        (.object (.copy number) members')

section

variable {world : World} {replacer : Replacer}

theorem Offer.given (ref number : Nat) :
    Offer world replacer.isList ref number (.object ref) number (world.form none (.given (.object ref)))
      (world.form none (.given (.object ref))) := by
  simp only [World.form]
  cases info : world.info ref with
  | array tag items => exact .array _ (by rw [World.isBoxed, info])
  | boxed tag raw get => exact .boxed raw (by rw [World.isBoxed, info])
  | ordinary tag keys get => exact .itself (by rw [World.isBoxed, info]) (.refl world _)

theorem alongside_keys {keys keys' : List JSString} {get : JSString → GraphValue}
    (same : keys.filter (fun key => world.emits key (get key)) = keys'.filter fun key => world.emits key (get key)) :
    Alongside world true (keys'.map fun key => (key, get key)) (keys.map fun key => (key, get key)) := by
  apply Alongside.of_filter
  rw [List.filter_map, List.filter_map]
  exact congrArg _ same.symm

/-- An object on its way in is offered as the engine takes it, if the list applies to it alike. -/
theorem receive_offers {st : Guard} {ref : Nat} (room : st.stack.length < nativeStringifyDepth)
    (alike : replacer.alike world (world.info ref)) :
    ∃ answer identity serial,
      st.receive world (replacer.keys? world) ref = .ok (answer, { st with opened := some identity, serial := serial }) ∧
        Offer world replacer.isList ref st.serial identity serial
          (world.form (replacer.list? world) (.given (.object ref))) (world.form none answer) := by
  unfold Guard.receive
  rw [if_neg (not_le.mpr room)]
  cases replacer with
  | absent => exact ⟨_, .object ref, st.serial, rfl, Offer.given ref st.serial⟩
  | function answer => exact ⟨_, .object ref, st.serial, rfl, Offer.given ref st.serial⟩
  | list items =>
    simp only [Replacer.keys?, Replacer.list?, World.form]
    cases info : world.info ref with
    | array tag members =>
      refine ⟨_, .object ref, st.serial, rfl, ?_⟩
      simp only [info]
      exact .array _ (by rw [World.isBoxed, info])
    | boxed tag raw get =>
      rw [info] at alike
      have tagged : isPlainTag tag = false := alike
      simp only [plainContainer, tagged]
      refine ⟨_, .object ref, st.serial, rfl, ?_⟩
      simp only [info]
      exact .boxed raw (by rw [World.isBoxed, info])
    | ordinary tag keys get =>
      rw [info] at alike
      have order : (offeredKeys world items tag keys get).filter (fun key => world.emits key (get key)) =
        (nativeKeys world items).filter fun key => world.emits key (get key) := alike
      simp only [plainContainer]
      cases plain : isPlainTag tag with
      | false =>
        rw [offeredKeys, plain, if_neg Bool.false_ne_true] at order
        refine ⟨_, .object ref, st.serial, rfl, ?_⟩
        simp only [info]
        exact .itself (by rw [World.isBoxed, info]) (alongside_keys order)
      | true =>
        rw [offeredKeys, plain, if_pos rfl] at order
        refine ⟨_, .copy st.serial, st.serial + 1, rfl, ?_⟩
        have members : ((picked get (propertyList world items)).keys.map fun key =>
            (key, ((picked get (propertyList world items)).get key).getD (.prim .undefined))) =
            (picked get (propertyList world items)).keys.map fun key => (key, get key) := by
          apply List.map_congr_left
          intro key member
          rw [picked_get member, Option.getD_some]
        simp only [Option.getD_none, members]
        exact .copied rfl (alongside_keys order)

end

theorem Clear.members {world : World} {replacer : Replacer} {ref : Nat} {entered : List Identity}
    {visit : Identity → JSString → GraphValue → Unit → Trace × Except Stop (Option Json × Unit)}
    {members : List (JSString × GraphValue)} {made : List (JSString × Option Json) → Json}
    (shallow : entered.length < nativeStringifyDepth) (outside : .object ref ∉ entered)
    (clear : Clear world replacer (enter (some visit) entered (.object ref) members made ())) :
    Clear world replacer (each (visit (.object ref)) (entered.length + 1) members ()) := by
  simp only [enter, if_neg outside] at clear
  refine ⟨fun met member => clear.1 met ?_, fun list circular => clear.2 list (map_error.mpr circular)⟩
  have first : ∀ met ∈ Identity.refs (.object ref) |>.map (·, entered.length), met.2 < nativeStringifyDepth := by
    intro met member
    obtain rfl := List.mem_singleton.mp member
    exact shallow
  rw [Trace.join, reached_append first]
  exact List.mem_append_right _ member

section

variable {world : World} {replacer : Replacer} {ref : Nat} {identity : Identity} {entered entered' : List Identity}
  {members members' : List (JSString × GraphValue)} {made : List (JSString × Option Json) → Json} {st : Guard}
  {skip : Bool}
  {visit : Identity → JSString → GraphValue → Unit → Trace × Except Stop (Option Json × Unit)}
  {visit' : Identity → JSString → GraphValue → Guard → Trace × Except Stop (Option Json × Guard)}

/-- A container, where both know it for one that is entered already or both do not. -/
theorem enter_follows (shallow : entered.length < nativeStringifyDepth) (length : entered'.length = entered.length)
    (circular : identity ∈ entered' ↔ .object ref ∈ entered)
    (opens : identity ∉ entered' → Settled entered' st ∧ Ready (identity :: entered') st)
    (follows : identity ∉ entered' → ∀ key value st, Ready (identity :: entered') st →
      Clear world replacer (visit (.object ref) key value ()) →
        Follows (Settled (identity :: entered')) Eq (visit (.object ref) key value ()) (visit' identity key value st))
    (silent : skip = true → ∀ key value, world.emits key value = false →
      visit (.object ref) key value () = (.still (entered.length + 1), .ok (none, ())) ∧
        ∀ st, Ready (identity :: entered') st → ∃ st', visit' identity key value st =
          (.still (entered.length + 1), .ok (none, st')) ∧ Settled (identity :: entered') st')
    (same : ∀ written written', Written skip written written' → made written = made written')
    (alongside : Alongside world skip members members')
    (clear : Clear world replacer (enter (some visit) entered (.object ref) members made ())) :
    Follows (Settled entered') Eq (enter (some visit) entered (.object ref) members made ())
      (enter (some visit') entered' identity members' made st) := by
  by_cases inside : .object ref ∈ entered
  · simp only [enter, if_pos inside, if_pos (circular.mpr inside)]
    refine ⟨fun _ => .inr ⟨.circular, rfl, rfl⟩, ?_, length ▸ shallow.le⟩
    rintro ⟨met, member, deep⟩
    obtain rfl := List.mem_singleton.mp member
    exact absurd shallow (not_lt.mpr deep)
  · have outside : identity ∉ entered' := fun member => inside (circular.mp member)
    obtain ⟨settled, ready⟩ := opens outside
    have run := each_follows shallow (follows outside) silent (fun _ => Settled.leave) alongside ready settled
      (clear.members shallow inside)
    simp only [enter, if_neg inside, if_neg outside, length]
    refine ⟨?_, ?_, max_le (length ▸ shallow.le) run.entered⟩
    · intro all
      rcases run.within fun met member => all met (List.mem_append_right _ member) with
        ⟨written, written', last, ran, ran', alike, kept⟩ | ⟨stop, failed, failed'⟩
      · exact .inl ⟨_, _, last, by rw [ran]; rfl, by rw [ran']; rfl, congrArg some (same _ _ alike), kept⟩
      · exact .inr ⟨stop, map_error.mpr failed, map_error.mpr failed'⟩
    · rintro ⟨met, member, deep⟩
      rcases List.mem_append.mp member with here | later
      · obtain rfl := List.mem_singleton.mp here
        exact absurd shallow (not_lt.mpr deep)
      · exact map_error.mpr (run.beyond ⟨met, later, deep⟩)

end

/-- The containers entered by the engine and by the guard's engine, which knows some for copies. -/
structure Beside (world : World) (replacer : Replacer) (entered entered' : List Identity) : Prop where
  length : entered'.length = entered.length
  same : replacer.isList = false → entered' = entered
  known : ∀ ref, .object ref ∈ entered' → .object ref ∈ entered
  containers : ∀ ref, .object ref ∈ entered' → world.isBoxed ref = false

def nativeVisit (world : World) (replacer : Replacer) (fuel : Nat) (entered : List Identity) :
    JSString → GraphValue → Unit → Trace × Except Stop (Option Json × Unit) :=
  property world (replacer.list? world)
    (fun _ holder key item => .ok (.given (replacer.answer holder key item), ())) fuel entered

def guardedVisit (world : World) (replacer : Replacer) (fuel : Nat) (entered : List Identity) :
    JSString → GraphValue → Guard → Trace × Except Stop (Option Json × Guard) :=
  property world none (guard world replacer.answer (replacer.keys? world)) fuel entered

section

variable {world : World} {replacer : Replacer} {fuel : Nat} {entered entered' : List Identity} {key : JSString}
  {value : GraphValue} {st : Guard}

theorem nativeVisit_succ : nativeVisit world replacer (fuel + 1) entered key value () =
    write (some fun identity => nativeVisit world replacer fuel (identity :: entered)) entered ()
      (world.form (replacer.list? world)
        (.given (replacer.answer (holderOf entered) key (world.afterToJson key value)))) := rfl

theorem guardedVisit_succ : guardedVisit world replacer (fuel + 1) entered key value st =
    visitWith world none (guard world replacer.answer (replacer.keys? world)) entered
      (some fun identity => guardedVisit world replacer fuel (identity :: entered)) key value st := rfl

theorem guardedVisit_ok {answer : Value} {next : Guard}
    (answered : guard world replacer.answer (replacer.keys? world) st (holderOf entered) key
      (world.afterToJson key value) = .ok (answer, next)) :
    guardedVisit world replacer (fuel + 1) entered key value st =
      write (some fun identity => guardedVisit world replacer fuel (identity :: entered)) entered next
        (world.form none answer) := by
  rw [guardedVisit_succ, visitWith, show entered.head?.getD .wrapper = holderOf entered from rfl, answered]

theorem guardedVisit_error {stop : Stop}
    (refused : guard world replacer.answer (replacer.keys? world) st (holderOf entered) key
      (world.afterToJson key value) = .error stop) :
    guardedVisit world replacer (fuel + 1) entered key value st = (.still entered.length, .error stop) := by
  rw [guardedVisit_succ, visitWith, show entered.head?.getD .wrapper = holderOf entered from rfl, refused]

/-- What is no object is written as it is, or not at all. -/
theorem form_plain (list : Option (List JSString)) {item : GraphValue} (plain : ∀ ref, item ≠ .object ref) :
    world.form list (.given item) = world.form none (.given item) ∧
      (world.form none (.given item) = .silent ∨ ∃ p, world.form none (.given item) = .leaf p) := by
  cases item with
  | prim p => cases p <;> simp [World.form]
  | symbol _ => exact ⟨rfl, .inl rfl⟩
  | func _ => exact ⟨rfl, .inl rfl⟩
  | object ref => exact absurd rfl (plain ref)

theorem form_silent (list : Option (List JSString)) (quiet : world.emits key value = false) :
    world.form list (.given (world.afterToJson key value)) = .silent ∧
      ∀ ref, world.afterToJson key value ≠ .object ref := by
  unfold World.emits at quiet
  cases item : world.afterToJson key value with
  | prim p => cases p <;> simp_all [World.form]
  | symbol _ => exact ⟨rfl, fun _ => GraphValue.noConfusion⟩
  | func _ => exact ⟨rfl, fun _ => GraphValue.noConfusion⟩
  | object ref =>
    rw [item] at quiet
    cases quiet

theorem guard_plain {item : GraphValue} {holder : Identity} {user : Identity → JSString → GraphValue → GraphValue}
    {keys : Option (List JSString)} (plain : ∀ ref, item ≠ .object ref) {before : GraphValue}
    (answered : user holder key before = item) :
    guard world user keys st holder key before = .ok (.given item, st.follow holder) := by
  unfold guard
  rw [answered]
  cases item with
  | object ref => exact absurd rfl (plain ref)
  | _ => rfl

theorem guard_object {holder : Identity} {user : Identity → JSString → GraphValue → GraphValue}
    {keys : Option (List JSString)} {before : GraphValue} {ref : Nat} (answered : user holder key before = .object ref) :
    guard world user keys st holder key before = (st.follow holder).receive world keys ref := by
  unfold guard
  rw [answered]

/-- An object is met where it stands, before anything inside it. -/
theorem write_meets {σ : Type} {visits : Option (Identity → JSString → GraphValue → σ → Trace × Except Stop (Option Json × σ))}
    {list : Option (List JSString)} {ref : Nat} {st : σ} :
    ∃ rest, (write visits entered st (world.form list (.given (.object ref)))).1.objects = (ref, entered.length) :: rest := by
  have entering : ∀ members made, ∃ rest,
      (enter visits entered (.object ref) members made st).1.objects = (ref, entered.length) :: rest := by
    intro members made
    unfold enter
    dsimp only
    split
    · exact ⟨[], rfl⟩
    · cases visits with
      | none => exact ⟨[], rfl⟩
      | some visit => exact ⟨_, rfl⟩
  simp only [World.form]
  cases world.info ref with
  | array tag items => exact entering _ _
  | boxed tag raw get => exact ⟨[], rfl⟩
  | ordinary tag keys get => exact entering _ _

theorem Beside.cons {identity : Identity} {ref : Nat} (beside : Beside world replacer entered entered')
    (same : replacer.isList = false → identity = .object ref) (known : ∀ ref', identity = .object ref' → ref' = ref)
    (container : ∀ ref', identity = .object ref' → world.isBoxed ref' = false) :
    Beside world replacer (.object ref :: entered) (identity :: entered') where
  length := by rw [List.length_cons, List.length_cons, beside.length]
  same := fun plain => by rw [same plain, beside.same plain]
  known := by
    intro ref' member
    rcases List.mem_cons.mp member with here | inside
    · rw [known ref' here.symm]
      exact List.mem_cons_self ..
    · exact List.mem_cons_of_mem _ (beside.known ref' inside)
  containers := by
    intro ref' member
    rcases List.mem_cons.mp member with here | inside
    · exact container ref' here.symm
    · exact beside.containers ref' inside

theorem Beside.answer (beside : Beside world replacer entered entered') :
    replacer.answer (holderOf entered') = replacer.answer (holderOf entered) := by
  cases replacer with
  | list items => rfl
  | absent => rfl
  | function answer => rw [beside.same rfl]

/-- A silent member leaves no trace on either side. -/
theorem visit_silent (list : replacer.isList = true) (quiet : world.emits key value = false) :
    nativeVisit world replacer (fuel + 1) entered key value () = (.still entered.length, .ok (none, ())) ∧
      ∀ st, Ready entered' st → ∃ st', guardedVisit world replacer (fuel + 1) entered' key value st =
        (.still entered'.length, .ok (none, st')) ∧ Settled entered' st' := by
  have answer : ∀ holder, replacer.answer holder key (world.afterToJson key value) = world.afterToJson key value := by
    intro holder
    cases replacer with
    | list items => rfl
    | _ => cases list
  constructor
  · rw [nativeVisit_succ, answer, (form_silent _ quiet).1]
    rfl
  · intro st ready
    rw [guardedVisit_ok (guard_plain (form_silent none quiet).2 (answer (holderOf entered'))), (form_silent _ quiet).1]
    exact ⟨_, rfl, ready.1⟩

theorem visit_silent_inside {fuel : Nat} {identity : Identity} {ref : Nat} (deeper : fuel ≠ 0)
    (length : entered'.length = entered.length) (list : replacer.isList = true) (quiet : world.emits key value = false) :
    nativeVisit world replacer fuel (.object ref :: entered) key value () =
        (.still (entered.length + 1), .ok (none, ())) ∧
      ∀ st, Ready (identity :: entered') st → ∃ st', guardedVisit world replacer fuel (identity :: entered') key value st =
        (.still (entered.length + 1), .ok (none, st')) ∧ Settled (identity :: entered') st' := by
  obtain ⟨fuel, rfl⟩ := Nat.exists_eq_succ_of_ne_zero deeper
  obtain ⟨still, still'⟩ :=
    @visit_silent world replacer fuel (.object ref :: entered) (identity :: entered') key value list quiet
  rw [List.length_cons, length] at still'
  exact ⟨still, still'⟩

theorem leaf_follows (p : Primitive) (settled : Settled entered' st) :
    (∃ written written' last, (leaf p).map (fun written => (written, ())) = .ok (written, ()) ∧
      (leaf p).map (fun written => (written, st)) = .ok (written', last) ∧ written = written' ∧ Settled entered' last) ∨
      ∃ stop, (leaf p).map (fun written => (written, ())) = .error stop ∧
        (leaf p).map (fun written => (written, st)) = .error stop := by
  cases leaf p with
  | ok text => exact .inl ⟨text, text, st, rfl, rfl, rfl, settled⟩
  | error stop => exact .inr ⟨stop, rfl, rfl⟩

theorem receive_overflow {keys : Option (List JSString)} {ref : Nat} (full : nativeStringifyDepth ≤ st.stack.length) :
    st.receive world keys ref = .error .overflow := by
  unfold Guard.receive
  rw [if_pos full]

/-- A container that is offered, as itself or as a copy. -/
theorem container_follows {ref serial : Nat} {identity : Identity} {skip : Bool}
    {members members' : List (JSString × GraphValue)} {made : List (JSString × Option Json) → Json}
    (follows : ∀ key value st, Beside world replacer (.object ref :: entered) (identity :: entered') →
      Ready (identity :: entered') st → Clear world replacer (nativeVisit world replacer fuel (.object ref :: entered) key value ()) →
        Follows (Settled (identity :: entered')) Eq (nativeVisit world replacer fuel (.object ref :: entered) key value ())
          (guardedVisit world replacer fuel (identity :: entered') key value st))
    (room : entered.length < nativeStringifyDepth) (deeper : fuel ≠ 0) (beside : Beside world replacer entered entered')
    (settled : Settled entered' st) (exact : st.stack = entered') (later : st.serial ≤ serial)
    (kind : (identity = .object ref ∧ world.isBoxed ref = false) ∨
      (replacer.isList = true ∧ identity = .copy st.serial ∧ st.serial < serial))
    (skips : skip = true → replacer.isList = true)
    (same : ∀ written written', Written skip written written' → made written = made written')
    (alongside : Alongside world skip members members')
    (clear : Clear world replacer (enter (some fun identity => nativeVisit world replacer fuel (identity :: entered))
      entered (.object ref) members made ())) :
    Follows (Settled entered') Eq
      (enter (some fun identity => nativeVisit world replacer fuel (identity :: entered)) entered (.object ref) members made ())
      (enter (some fun identity => guardedVisit world replacer fuel (identity :: entered')) entered' identity members' made
        { st with opened := some identity, serial := serial }) := by
  have uncopied : .copy st.serial ∉ entered' := by
    intro member
    exact absurd (settled.numbered _ (exact ▸ member)) (lt_irrefl _)
  have acyclic : replacer.isList = true → .object ref ∉ entered := by
    intro list inside
    refine clear.2 list ?_
    simp only [enter, if_pos inside]
  have proper : identity ≠ .wrapper := by
    rcases kind with ⟨rfl, _⟩ | ⟨_, rfl, _⟩ <;> exact Identity.noConfusion
  have circular : identity ∈ entered' ↔ .object ref ∈ entered := by
    cases list : replacer.isList with
    | false =>
      rcases kind with ⟨rfl, _⟩ | ⟨other, _, _⟩
      · rw [beside.same list]
      · rw [list] at other
        cases other
    | true =>
      refine iff_of_false ?_ (acyclic list)
      rcases kind with ⟨rfl, _⟩ | ⟨_, rfl, _⟩
      · exact fun member => acyclic list (beside.known ref member)
      · exact uncopied
  have beside' : Beside world replacer (.object ref :: entered) (identity :: entered') := by
    rcases kind with ⟨rfl, unboxed⟩ | ⟨list, rfl, _⟩
    · exact beside.cons (fun _ => rfl) (fun _ same => (Identity.object.inj same).symm)
        (fun _ same => Identity.object.inj same ▸ unboxed)
    · refine beside.cons (fun plain => ?_) (fun _ same => by cases same) (fun _ same => by cases same)
      rw [list] at plain
      cases plain
  have numbered : ∀ number, identity = .copy number → number < serial := by
    intro number copy
    rcases kind with ⟨rfl, _⟩ | ⟨_, rfl, below⟩
    · cases copy
    · exact Identity.copy.inj copy ▸ below
  exact enter_follows room beside.length circular
    (fun fresh => ⟨settled.stays proper fresh later, settled.opens exact proper fresh later numbered⟩)
    (fun _ key value st ready clear => follows key value st beside' ready clear)
    (fun skip key value quiet => visit_silent_inside deeper beside.length (skips skip) quiet) same alongside clear

theorem visit_follows (enough : nativeStringifyDepth < fuel + entered.length)
    (shallow : entered.length ≤ nativeStringifyDepth) (beside : Beside world replacer entered entered')
    (ready : Ready entered' st) (clear : Clear world replacer (nativeVisit world replacer fuel entered key value ())) :
    Follows (Settled entered') Eq (nativeVisit world replacer fuel entered key value ())
      (guardedVisit world replacer fuel entered' key value st) := by
  induction fuel generalizing entered entered' key value st with
  | zero => omega
  | succ fuel ih =>
    obtain ⟨settled, exact⟩ := ready
    obtain ⟨item, answered⟩ : ∃ item, replacer.answer (holderOf entered) key (world.afterToJson key value) = item :=
      ⟨_, rfl⟩
    have answered' : replacer.answer (holderOf entered') key (world.afterToJson key value) = item := by
      rw [beside.answer, answered]
    rw [nativeVisit_succ, answered] at clear ⊢
    have length : entered'.length ≤ nativeStringifyDepth := beside.length ▸ shallow
    by_cases plain : ∀ ref, item ≠ .object ref
    · obtain ⟨same, silent | ⟨p, written⟩⟩ := @form_plain world (replacer.list? world) _ plain
      · rw [guardedVisit_ok (guard_plain plain answered'), same, silent]
        exact ⟨fun _ => .inl ⟨none, none, _, rfl, rfl, rfl, settled⟩, by simp [write, Trace.still], length⟩
      · rw [guardedVisit_ok (guard_plain plain answered'), same, written]
        exact ⟨fun _ => leaf_follows p settled, by simp [write, Trace.still], length⟩
    · push Not at plain
      obtain ⟨ref, rfl⟩ := plain
      obtain ⟨rest, objects⟩ := @write_meets world entered _
        (some fun identity => nativeVisit world replacer fuel (identity :: entered)) (replacer.list? world) ref ()
      by_cases room : entered.length < nativeStringifyDepth
      · have alike : replacer.alike world (world.info ref) := by
          refine clear.1 (ref, entered.length) ?_
          rw [objects, reached, List.takeWhile_cons, if_pos (decide_eq_true room)]
          exact List.mem_cons_self ..
        have roomy : (st.follow (holderOf entered')).stack.length < nativeStringifyDepth := by
          rw [exact, beside.length]
          exact room
        obtain ⟨answer, identity, serial, received, offer⟩ := receive_offers roomy alike
        rw [guardedVisit_ok ((guard_object answered').trans received)]
        generalize world.form (replacer.list? world) (.given (.object ref)) = form at clear offer ⊢
        generalize world.form none answer = form' at offer ⊢
        generalize st.follow (holderOf entered') = next at settled exact offer ⊢
        have deeper : fuel ≠ 0 := by omega
        have follows := fun identity key value st =>
          @ih (.object ref :: entered) (identity :: entered') key value st (by rw [List.length_cons]; omega)
            (by rw [List.length_cons]; omega)
        have objects' : ∀ skip written written', Written skip written written' → objectOf written = objectOf written' :=
          fun _ _ _ same => congrArg Json.obj same.2
        cases offer with
        | boxed raw boxed =>
          have fresh : .object ref ∉ entered' := by
            intro member
            rw [beside.containers ref member] at boxed
            cases boxed
          have stays := settled.stays Identity.noConfusion fresh le_rfl
          refine ⟨fun _ => leaf_follows raw stays, ?_, length⟩
          rintro ⟨met, member, deep⟩
          obtain rfl := List.mem_singleton.mp member
          exact absurd room (not_lt.mpr deep)
        | array members unboxed =>
          exact container_follows (follows (.object ref)) room deeper beside settled exact le_rfl (.inl ⟨rfl, unboxed⟩)
            (fun skip => absurd skip Bool.false_ne_true) (fun _ _ same => by rw [same.1 rfl]) (.refl world members) clear
        | itself unboxed alongside =>
          exact container_follows (follows (.object ref)) room deeper beside settled exact le_rfl (.inl ⟨rfl, unboxed⟩)
            id (objects' _) alongside clear
        | copied list alongside =>
          exact container_follows (follows (.copy next.serial)) room deeper beside settled exact (Nat.le_succ _)
            (.inr ⟨list, rfl, Nat.lt_succ_self _⟩) id (objects' _) alongside clear
      · have deep : nativeStringifyDepth ≤ entered.length := not_lt.mp room
        have overflow : guard world replacer.answer (replacer.keys? world) st (holderOf entered') key
            (world.afterToJson key value) = .error .overflow := by
          rw [guard_object answered']
          exact receive_overflow (by rw [exact, beside.length]; exact deep)
        rw [guardedVisit_error overflow]
        have met : (ref, entered.length) ∈ (ref, entered.length) :: rest := List.mem_cons_self ..
        exact ⟨fun all => absurd (all _ (objects ▸ met)) room, fun _ => rfl, length⟩

end

section

variable {world : World} {replacer : Replacer} {fuel : Nat} {entered : List Identity}

/-- Who is inside more containers than are allowed has met one inside as many. -/
theorem each_met {visit : JSString → GraphValue → Unit → Trace × Except Stop (Option Json × Unit)} {inside : Nat}
    (shallow : inside ≤ nativeStringifyDepth)
    (met : ∀ key value, (visit key value ()).1.entered ≤ nativeStringifyDepth ∨
      ∃ met ∈ (visit key value ()).1.objects, nativeStringifyDepth ≤ met.2) (members : List (JSString × GraphValue)) :
    (each visit inside members ()).1.entered ≤ nativeStringifyDepth ∨
      ∃ met ∈ (each visit inside members ()).1.objects, nativeStringifyDepth ≤ met.2 := by
  induction members with
  | nil => exact .inl shallow
  | cons member members ih =>
    cases result : (visit member.1 member.2 ()).2 with
    | error stop =>
      rw [each_error result]
      exact met member.1 member.2
    | ok made =>
      rw [each_ok result]
      rcases met member.1 member.2 with within | ⟨deep, here, bound⟩
      · rcases ih with rest | ⟨deep, here, bound⟩
        · exact .inl (max_le within rest)
        · exact .inr ⟨deep, List.mem_append_right _ here, bound⟩
      · exact .inr ⟨deep, List.mem_append_left _ here, bound⟩

theorem write_met {visits : Option (Identity → JSString → GraphValue → Unit → Trace × Except Stop (Option Json × Unit))}
    {list : Option (List JSString)} (shallow : entered.length ≤ nativeStringifyDepth)
    (met : entered.length < nativeStringifyDepth → ∀ visit ∈ visits, ∀ ref key value,
      (visit (.object ref) key value ()).1.entered ≤ nativeStringifyDepth ∨
        ∃ met ∈ (visit (.object ref) key value ()).1.objects, nativeStringifyDepth ≤ met.2) (item : GraphValue) :
    (write visits entered () (world.form list (.given item))).1.entered ≤ nativeStringifyDepth ∨
      ∃ met ∈ (write visits entered () (world.form list (.given item))).1.objects, nativeStringifyDepth ≤ met.2 := by
  by_cases plain : ∀ ref, item ≠ .object ref
  · obtain ⟨same, silent | ⟨p, written⟩⟩ := @form_plain world list _ plain
    · rw [same, silent]
      exact .inl shallow
    · rw [same, written]
      exact .inl shallow
  push Not at plain
  obtain ⟨ref, rfl⟩ := plain
  by_cases room : entered.length < nativeStringifyDepth
  · have entering : ∀ members made, (enter visits entered (.object ref) members made ()).1.entered ≤ nativeStringifyDepth ∨
        ∃ met ∈ (enter visits entered (.object ref) members made ()).1.objects, nativeStringifyDepth ≤ met.2 := by
      intro members made
      unfold enter
      dsimp only
      split
      · exact .inl shallow
      · cases visits with
        | none => exact .inl shallow
        | some visit =>
          rcases each_met room (met room visit rfl ref) members with within | ⟨deep, here, bound⟩
          · exact .inl (max_le shallow within)
          · exact .inr ⟨deep, List.mem_append_right _ here, bound⟩
    simp only [World.form]
    cases world.info ref with
    | array tag items => exact entering _ _
    | boxed tag raw get => exact .inl shallow
    | ordinary tag keys get => exact entering _ _
  · obtain ⟨rest, objects⟩ := @write_meets world entered _ visits list ref ()
    refine .inr ⟨(ref, entered.length), ?_, not_lt.mp room⟩
    rw [objects]
    exact List.mem_cons_self ..

theorem nativeVisit_met (shallow : entered.length ≤ nativeStringifyDepth) (key : JSString) (value : GraphValue) :
    (nativeVisit world replacer fuel entered key value ()).1.entered ≤ nativeStringifyDepth ∨
      ∃ met ∈ (nativeVisit world replacer fuel entered key value ()).1.objects, nativeStringifyDepth ≤ met.2 := by
  induction fuel generalizing entered key value with
  | zero => exact write_met shallow (fun _ _ absent => by cases absent) _
  | succ fuel ih =>
    refine write_met shallow ?_ _
    rintro room _ ⟨⟩ ref key value
    exact @ih (.object ref :: entered) room key value

end

section

variable {world : World} {replacer : Replacer} {fuel : Nat} {entered : List Identity}

theorem each_unstopped {visit : JSString → GraphValue → Unit → Trace × Except Stop (Option Json × Unit)} {inside : Nat}
    (unstopped : ∀ key value, (visit key value ()).2 ≠ .error .overflow) (members : List (JSString × GraphValue)) :
    (each visit inside members ()).2 ≠ .error .overflow := by
  induction members with
  | nil => exact fun stopped => by cases stopped
  | cons member members ih =>
    cases result : (visit member.1 member.2 ()).2 with
    | error stop =>
      rw [each_error result]
      intro stopped
      cases stopped
      exact unstopped _ _ result
    | ok made =>
      rw [each_ok result]
      exact fun stopped => ih (map_error.mp stopped)

theorem write_unstopped
    {visits : Option (Identity → JSString → GraphValue → Unit → Trace × Except Stop (Option Json × Unit))}
    (unstopped : ∀ visit ∈ visits, ∀ identity key value, (visit identity key value ()).2 ≠ .error .overflow) (form : Form) :
    (write visits entered () form).2 ≠ .error .overflow := by
  have leaves : ∀ p, (leaf p).map (fun written => (written, ())) ≠ .error .overflow := by
    intro p stopped
    cases p <;> cases map_error.mp stopped
  have entering : ∀ identity members made, (enter visits entered identity members made ()).2 ≠ .error .overflow := by
    intro identity members made
    unfold enter
    dsimp only
    split
    · exact fun stopped => by cases stopped
    · cases visits with
      | none => exact fun stopped => by cases stopped
      | some visit => exact fun stopped => each_unstopped (unstopped visit rfl identity) members (map_error.mp stopped)
  cases form with
  | silent => exact fun stopped => by cases stopped
  | leaf p => exact leaves p
  | boxed ref raw => exact leaves raw
  | array ref members => exact entering _ _ _
  | object identity members => exact entering _ _ _

/-- The engine's own serialisation knows no overflow. -/
theorem nativeVisit_unstopped (key : JSString) (value : GraphValue) :
    (nativeVisit world replacer fuel entered key value ()).2 ≠ .error .overflow := by
  induction fuel generalizing entered key value with
  | zero => exact write_unstopped (fun _ absent => by cases absent) _
  | succ fuel ih =>
    refine write_unstopped ?_ _
    rintro _ ⟨⟩ identity key value
    exact ih key value

end

/-- What is asked of the guard: the engine's answer under every indent where the containers nest as deep as is allowed at
most, and an overflow before the engine is any deeper where they nest deeper. -/
def Guards (world : World) (replacer : Replacer) (fuel : Nat) (value : GraphValue) : Prop :=
  ((native world replacer fuel value).1.entered ≤ nativeStringifyDepth →
    ∀ gap, returned gap (guarded world replacer fuel value) = returned gap (native world replacer fuel value)) ∧
  (nativeStringifyDepth < (native world replacer fuel value).1.entered →
    (guarded world replacer fuel value).2 = .error .overflow ∧
      (guarded world replacer fuel value).1.entered ≤ nativeStringifyDepth)

/-- The object `{0: false, b: true}`, which no `toJSON` changes. -/
def numberedWorld : World where
  info _ := .ordinary (js "[object Object]") [js "0", js "b"]
    fun key => if key = js "b" then .prim (.bool true) else if key = js "0" then .prim (.bool false) else .prim .undefined
  toJson _ value := value
  text _ := js "[object Object]"

/-- The list that names `b` before `0`. -/
def lettersFirst : Replacer := .list [.prim (.str (js "b")), .prim (.str (js "0"))]

theorem numbered_native : returned [] (native numberedWorld lettersFirst 1001 (.object 0)) =
    .ok (some (js "\x7b\"b\":true,\"0\":false\x7d")) := by decide +kernel

theorem numbered_guarded : returned [] (guarded numberedWorld lettersFirst 1001 (.object 0)) =
    .ok (some (js "\x7b\"0\":false,\"b\":true\x7d")) := by decide +kernel

end GuardedJson

end Xript
