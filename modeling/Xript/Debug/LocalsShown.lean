import Xript.Debug.LocalsText

namespace Xript

open Relation

namespace Locals

variable {size : Nat} {heap : Fin size → LocalCell size}

section Recursion

variable {visit : JSString → Local size → VariableStore → Except ShowStop (Variable × VariableStore)}

theorem mapEntries_visits {entries : List (JSString × Local size)} {store : VariableStore}
    {made : List Variable × VariableStore} (ok : mapEntries visit entries store = .ok made) {entry : JSString × Local size}
    (member : entry ∈ entries) : ∃ before made, visit entry.1 entry.2 before = .ok made := by
  induction entries generalizing store made with
  | nil => cases member
  | cons first entries ih =>
    obtain ⟨one, visited, rest⟩ := bind_ok_iff.mp ok
    obtain ⟨others, further, -⟩ := map_ok_iff.mp rest
    rcases List.mem_cons.mp member with rfl | member
    · exact ⟨store, one, visited⟩
    · exact ih further member

theorem mapEntries_ok {entries : List (JSString × Local size)}
    (each : ∀ entry ∈ entries, ∀ store, ∃ made, visit entry.1 entry.2 store = .ok made) (store : VariableStore) :
    ∃ made, mapEntries visit entries store = .ok made := by
  induction entries generalizing store with
  | nil => exact ⟨_, rfl⟩
  | cons first entries ih =>
    obtain ⟨one, visited⟩ := each first List.mem_cons_self store
    obtain ⟨others, rest⟩ := ih (fun entry member => each entry (List.mem_cons_of_mem first member)) one.2
    refine ⟨(one.1 :: others.1, others.2), ?_⟩
    rw [mapEntries, visited, Except.bind, rest]
    rfl

end Recursion

/-- The containers of a value that shows are accessible, and each displays. -/
theorem toVariable_accessible {fuel : Nat} {name : JSString} {ref : Fin size} {store : VariableStore}
    {made : Variable × VariableStore} (ok : toVariable heap fuel name (.object ref) store = .ok made) :
    Acc (fun child parent => Holds heap parent child) ref ∧ ∀ below, ReflTransGen (Holds heap) ref below →
      ∃ fuel text, displayString heap fuel (.object below) = .ok text := by
  induction fuel generalizing name ref store made with
  | zero => cases ok
  | succ fuel ih =>
    unfold toVariable at ok
    obtain ⟨children, visited, rest⟩ := bind_ok_iff.mp ok
    obtain ⟨text, displayed, -⟩ := map_ok_iff.mp rest
    have inside : ∀ child, Holds heap ref child → Acc (fun child parent => Holds heap parent child) child ∧
        ∀ below, ReflTransGen (Holds heap) child below → ∃ fuel text, displayString heap fuel (.object below) = .ok text := by
      rintro child ⟨key, member⟩
      obtain ⟨before, made, shown⟩ := mapEntries_visits visited member
      exact ih shown
    refine ⟨Acc.intro ref fun child step => (inside child step).1, fun below path => ?_⟩
    rcases ReflTransGen.cases_head path with rfl | ⟨child, step, path⟩
    · exact ⟨fuel + 1, text, displayed⟩
    · exact (inside child step).2 below path

/-- An accessible value shows, given depth enough, where every container below it has a display text. -/
theorem toVariable_settles {ref : Fin size} (accessible : Acc (fun child parent => Holds heap parent child) ref)
    (printable : ∀ below, ReflTransGen (Holds heap) ref below →
      ¬ (HasBigint heap (.object below) ∧ Unprintable heap (.object below))) :
    ∃ need, ∀ fuel, need ≤ fuel → ∀ name store, ∃ made, toVariable heap fuel name (.object ref) store = .ok made := by
  induction accessible with
  | intro ref below ih =>
    have each : ∀ entry ∈ entries (heap ref), ∃ need, ∀ fuel, need ≤ fuel →
        ∀ store, ∃ made, toVariable heap fuel entry.1 entry.2 store = .ok made := by
      rintro ⟨name, value⟩ member
      cases value with
      | prim p =>
        refine ⟨0, fun fuel _ store => ?_⟩
        obtain ⟨text, displayed⟩ := displayString_prim fuel p
        unfold toVariable
        rw [displayed]
        exact ⟨_, rfl⟩
      | object child =>
        have step : Holds heap ref child := ⟨name, member⟩
        obtain ⟨need, settled⟩ := ih child step fun lower path => printable lower (.head step path)
        exact ⟨need, fun fuel enough store => settled fuel enough name store⟩
    obtain ⟨need, settled⟩ := settle_all each
    obtain ⟨need', displays⟩ := displayString_settles (Acc.intro ref below) (printable ref .refl)
    refine ⟨max need need' + 1, fun fuel enough name store => ?_⟩
    obtain ⟨less, rfl⟩ : ∃ less, fuel = less + 1 := ⟨fuel - 1, by omega⟩
    obtain ⟨children, visited⟩ := mapEntries_ok (settled less (by omega)) { store with counter := store.counter + 1 }
    obtain ⟨text, displayed⟩ := displays (less + 1) (by omega)
    unfold toVariable
    rw [visited, Except.bind, displayed]
    exact ⟨_, rfl⟩

/-- What a variable shows of a value by itself. -/
structure Describes (heap : Fin size → LocalCell size) (value : Local size) (v : Variable) : Prop where
  type : v.type = typeOf heap value
  text : ∃ fuel, displayString heap fuel value = .ok v.value
  leaf : v.variablesReference = 0 ↔ ∃ p, value = .prim p

/-- What a variable shows of a value, `depth` levels down. -/
def Displays (heap : Fin size → LocalCell size) (registry : List (Nat × List Variable)) : Nat → Local size → Variable → Prop
  | 0, value, v => Describes heap value v
  | depth + 1, value, v => Describes heap value v ∧ ∀ ref, value = .object ref →
    ∃ vars, (v.variablesReference, vars) ∈ registry ∧
      List.Forall₂ (fun entry child => child.name = entry.1 ∧ Displays heap registry depth entry.2 child)
        (entries (heap ref)) vars

/-- The registrations between two states of the store. -/
structure Grown (before after : VariableStore) (added : List (Nat × List Variable)) : Prop where
  registry : after.registry = before.registry ++ added
  counter : before.counter ≤ after.counter
  fresh : ∀ n ∈ added.map Prod.fst, before.counter < n ∧ n ≤ after.counter
  distinct : (added.map Prod.fst).Nodup
  keyed : ∀ entry ∈ added, ∀ v ∈ entry.2, v.variablesReference ≠ 0 → v.variablesReference ∈ added.map Prod.fst

theorem Displays.mono {registry registry' : List (Nat × List Variable)} (more : registry ⊆ registry') {depth : Nat}
    {value : Local size} {v : Variable} (shown : Displays heap registry depth value v) : Displays heap registry' depth value v := by
  induction depth generalizing value v with
  | zero => exact shown
  | succ depth ih =>
    refine ⟨shown.1, fun ref same => ?_⟩
    obtain ⟨vars, listed, children⟩ := shown.2 ref same
    exact ⟨vars, more listed, children.imp fun entry child shown => ⟨shown.1, ih shown.2⟩⟩

theorem Displays.describes {registry : List (Nat × List Variable)} {depth : Nat} {value : Local size} {v : Variable}
    (shown : Displays heap registry depth value v) : Describes heap value v := by
  cases depth with
  | zero => exact shown
  | succ depth => exact shown.1

theorem Grown.refl (store : VariableStore) : Grown store store [] where
  registry := (List.append_nil _).symm
  counter := le_rfl
  fresh := fun _ member => absurd member List.not_mem_nil
  distinct := List.nodup_nil
  keyed := fun _ member => absurd member List.not_mem_nil

theorem Grown.trans {before middle after : VariableStore} {first second : List (Nat × List Variable)}
    (one : Grown before middle first) (two : Grown middle after second) : Grown before after (first ++ second) where
  registry := by rw [two.registry, one.registry, List.append_assoc]
  counter := one.counter.trans two.counter
  fresh := by
    intro n member
    rw [List.map_append, List.mem_append] at member
    rcases member with member | member
    · exact ⟨(one.fresh n member).1, (one.fresh n member).2.trans two.counter⟩
    · exact ⟨lt_of_le_of_lt one.counter (two.fresh n member).1, (two.fresh n member).2⟩
  distinct := by
    rw [List.map_append]
    refine List.nodup_append.mpr ⟨one.distinct, two.distinct, fun n left m right => ?_⟩
    have low := (one.fresh n left).2
    have high := (two.fresh m right).1
    omega
  keyed := by
    intro entry member v inside nonzero
    rw [List.map_append, List.mem_append]
    rcases List.mem_append.mp member with member | member
    · exact .inl (one.keyed entry member v inside nonzero)
    · exact .inr (two.keyed entry member v inside nonzero)

/-- A reference is drawn before the members it is to name are registered, and set after them. -/
theorem Grown.register {store after : VariableStore} {added : List (Nat × List Variable)} {vars : List Variable}
    (grown : Grown { store with counter := store.counter + 1 } after added)
    (keyed : ∀ v ∈ vars, v.variablesReference ≠ 0 → v.variablesReference ∈ added.map Prod.fst) :
    Grown store (after.set (store.counter + 1) vars) (added ++ [(store.counter + 1, vars)]) where
  registry := by
    change after.registry ++ _ = _
    rw [grown.registry, List.append_assoc]
  counter := (Nat.le_succ _).trans grown.counter
  fresh := by
    intro n member
    rw [List.map_append, List.mem_append] at member
    rcases member with member | member
    · exact ⟨(Nat.lt_succ_self _).trans (grown.fresh n member).1, (grown.fresh n member).2⟩
    · obtain rfl := List.mem_singleton.mp member
      exact ⟨Nat.lt_succ_self _, grown.counter⟩
  distinct := by
    rw [List.map_append]
    refine List.nodup_append.mpr ⟨grown.distinct, List.nodup_singleton _, fun n left m right => ?_⟩
    have above := (grown.fresh n left).1
    obtain rfl := List.mem_singleton.mp right
    exact above.ne'
  keyed := by
    intro entry member v inside nonzero
    rw [List.map_append, List.mem_append]
    rcases List.mem_append.mp member with member | member
    · exact .inl (grown.keyed entry member v inside nonzero)
    · obtain rfl := List.mem_singleton.mp member
      exact .inl (keyed v inside nonzero)

/-- What a visit leaves: its registrations, among them those its variable refers to. -/
def Shows (heap : Fin size → LocalCell size) (name : JSString) (value : Local size) (store : VariableStore)
    (made : Variable × VariableStore) : Prop :=
  ∃ added, Grown store made.2 added ∧ made.1.name = name ∧
    (made.1.variablesReference ≠ 0 → made.1.variablesReference ∈ added.map Prod.fst) ∧
      ∀ depth, Displays heap added depth value made.1

theorem mapEntries_shows {visit : JSString → Local size → VariableStore → Except ShowStop (Variable × VariableStore)}
    (shows : ∀ name value store made, visit name value store = .ok made → Shows heap name value store made)
    {entries : List (JSString × Local size)} {store : VariableStore} {made : List Variable × VariableStore}
    (ok : mapEntries visit entries store = .ok made) : ∃ added, Grown store made.2 added ∧
      (∀ v ∈ made.1, v.variablesReference ≠ 0 → v.variablesReference ∈ added.map Prod.fst) ∧
        ∀ depth, List.Forall₂ (fun entry v => v.name = entry.1 ∧ Displays heap added depth entry.2 v) entries made.1 := by
  induction entries generalizing store made with
  | nil =>
    cases ok
    exact ⟨[], .refl store, fun v member => absurd member List.not_mem_nil, fun _ => .nil⟩
  | cons entry entries ih =>
    obtain ⟨one, visited, rest⟩ := bind_ok_iff.mp ok
    obtain ⟨others, further, rfl⟩ := map_ok_iff.mp rest
    obtain ⟨first, grown, named, keyed, displays⟩ := shows _ _ _ _ visited
    obtain ⟨second, grown', keyed', displays'⟩ := ih further
    refine ⟨first ++ second, grown.trans grown', fun v member nonzero => ?_, fun depth => ?_⟩
    · rw [List.map_append, List.mem_append]
      rcases List.mem_cons.mp member with rfl | member
      · exact .inl (keyed nonzero)
      · exact .inr (keyed' v member nonzero)
    · refine .cons ⟨named, (displays depth).mono (List.subset_append_left first second)⟩ ?_
      exact (displays' depth).imp fun entry v shown => ⟨shown.1, shown.2.mono (List.subset_append_right first second)⟩

theorem toVariable_prim {fuel : Nat} {name : JSString} {p : Primitive} {store : VariableStore}
    {made : Variable × VariableStore} (ok : toVariable heap fuel name (.prim p) store = .ok made) :
    Shows heap name (.prim p) store made := by
  unfold toVariable at ok
  obtain ⟨text, displayed, rfl⟩ := map_ok_iff.mp ok
  have describes : Describes heap (.prim p) ⟨name, text, typeOf heap (.prim p), 0⟩ :=
    ⟨rfl, ⟨fuel, displayed⟩, ⟨fun _ => ⟨p, rfl⟩, fun _ => rfl⟩⟩
  refine ⟨[], .refl store, rfl, fun nonzero => absurd rfl nonzero, fun depth => ?_⟩
  cases depth with
  | zero => exact describes
  | succ depth => exact ⟨describes, fun ref same => by cases same⟩

theorem toVariable_shows {fuel : Nat} {name : JSString} {value : Local size} {store : VariableStore}
    {made : Variable × VariableStore} (ok : toVariable heap fuel name value store = .ok made) :
    Shows heap name value store made := by
  induction fuel generalizing name value store made with
  | zero =>
    cases value with
    | prim p => exact toVariable_prim ok
    | object ref => cases ok
  | succ fuel ih =>
    cases value with
    | prim p => exact toVariable_prim ok
    | object ref =>
      unfold toVariable at ok
      obtain ⟨children, visited, rest⟩ := bind_ok_iff.mp ok
      obtain ⟨text, displayed, rfl⟩ := map_ok_iff.mp rest
      obtain ⟨added, grown, keyed, displays⟩ := mapEntries_shows (fun _ _ _ _ => ih) visited
      have describes : Describes heap (.object ref)
          ⟨name, text, typeOf heap (.object ref), store.counter + 1⟩ :=
        ⟨rfl, ⟨fuel + 1, displayed⟩, ⟨fun zero => absurd zero (Nat.succ_ne_zero _), fun ⟨p, same⟩ => by cases same⟩⟩
      refine ⟨added ++ [(store.counter + 1, children.1)], grown.register keyed, rfl, fun _ => by simp, fun depth => ?_⟩
      cases depth with
      | zero => exact describes
      | succ depth =>
        refine ⟨describes, ?_⟩
        rintro _ ⟨⟩
        refine ⟨children.1, List.mem_append_right _ List.mem_cons_self, ?_⟩
        exact (displays depth).imp fun entry v shown => ⟨shown.1, shown.2.mono (List.subset_append_left _ _)⟩

section Reached

/-- The value at a path of names below some entries. -/
inductive MemberAt (heap : Fin size → LocalCell size) :
    List (JSString × Local size) → List JSString → Local size → Prop where
  | here {members : List (JSString × Local size)} {name : JSString} {value : Local size} (member : (name, value) ∈ members) :
    MemberAt heap members [name] value
  | inside {members : List (JSString × Local size)} {name : JSString} {ref : Fin size} {path : List JSString}
    {value : Local size} (member : (name, .object ref) ∈ members) :
    MemberAt heap (entries (heap ref)) path value → MemberAt heap members (name :: path) value

/-- The variable a client comes to that follows references by name. -/
inductive Followed (store : VariableStore) : Nat → List JSString → Variable → Prop where
  | here {ref : Nat} {v : Variable} (listed : v ∈ store.variablesOf ref) : Followed store ref [v.name] v
  | inside {ref : Nat} {v w : Variable} {path : List JSString} (listed : v ∈ store.variablesOf ref) :
    Followed store v.variablesReference path w → Followed store ref (v.name :: path) w

theorem variablesOf_mem {store : VariableStore} (distinct : (store.registry.map Prod.fst).Nodup) {ref : Nat}
    {vars : List Variable} (listed : (ref, vars) ∈ store.registry) : store.variablesOf ref = vars := by
  have backwards : (store.registry.reverse.map Prod.fst).Nodup := by
    rw [List.map_reverse]
    exact List.nodup_reverse.mpr distinct
  have inside : (ref, vars) ∈ store.registry.reverse := List.mem_reverse.mpr listed
  have found : ∀ {registry : List (Nat × List Variable)}, (registry.map Prod.fst).Nodup → (ref, vars) ∈ registry →
      registry.lookup ref = some vars := by
    intro registry distinct member
    induction registry with
    | nil => cases member
    | cons entry registry ih =>
      obtain ⟨n, others⟩ := entry
      rw [List.map_cons, List.nodup_cons] at distinct
      rw [List.lookup_cons]
      rcases List.mem_cons.mp member with same | later
      · cases same
        rw [beq_self_eq_true]
      · have apart : ref ≠ n := by
          rintro rfl
          exact distinct.1 (List.mem_map.mpr ⟨_, later, rfl⟩)
        rw [show (ref == n) = false by simpa using apart]
        exact ih distinct.2 later
  rw [VariableStore.variablesOf, found backwards inside]
  rfl

/-- Where variables display entries as deep as a path goes, the path leads to a variable that describes its value. -/
theorem followed_of_displays {store : VariableStore} (distinct : (store.registry.map Prod.fst).Nodup)
    {members : List (JSString × Local size)} {path : List JSString} {value : Local size}
    (reached : MemberAt heap members path value) {ref : Nat} {vars : List Variable} (listed : (ref, vars) ∈ store.registry)
    (shown : List.Forall₂ (fun entry v => v.name = entry.1 ∧ Displays heap store.registry path.length entry.2 v) members vars) :
    ∃ v, Followed store ref path v ∧ Describes heap value v := by
  have met : ∀ {depth : Nat} {members : List (JSString × Local size)} {vars : List Variable},
      List.Forall₂ (fun entry v => v.name = entry.1 ∧ Displays heap store.registry depth entry.2 v) members vars →
        ∀ entry ∈ members, ∃ v ∈ vars, v.name = entry.1 ∧ Displays heap store.registry depth entry.2 v := by
    intro depth members vars shown entry member
    induction shown with
    | nil => cases member
    | cons one _ ih =>
      rcases List.mem_cons.mp member with rfl | member
      · exact ⟨_, List.mem_cons_self, one⟩
      · obtain ⟨v, inside, shows⟩ := ih member
        exact ⟨v, List.mem_cons_of_mem _ inside, shows⟩
  induction reached generalizing ref vars with
  | @here members name value member =>
    obtain ⟨v, inside, rfl, displays⟩ := met shown _ member
    exact ⟨v, .here (by rwa [variablesOf_mem distinct listed]), displays.describes⟩
  | @inside members name container path value member _ ih =>
    obtain ⟨v, inside, rfl, displays⟩ := met shown _ member
    obtain ⟨below, listed', shown'⟩ := displays.2 container rfl
    obtain ⟨w, followed, describes⟩ := ih listed' shown'
    exact ⟨w, .inside (by rwa [variablesOf_mem distinct listed]) followed, describes⟩

end Reached

/-- The variables of a pause show the locals: every reference is registered, once, and following references from the
frame's scope leads to every member. -/
structure ShowsAll (locals : Locals) (store : VariableStore) : Prop where
  keyed : ∀ entry ∈ store.registry, ∀ v ∈ entry.2, v.variablesReference ≠ 0 →
    v.variablesReference ∈ store.registry.map Prod.fst
  distinct : (store.registry.map Prod.fst).Nodup
  reached : ∃ scope, store.frameScopes 1 = some scope ∧ ∀ path value, MemberAt locals.heap locals.members path value →
    ∃ v, Followed store scope path v ∧ Describes locals.heap value v

/-- A container that a local leads to. -/
def Held (locals : Locals) (ref : Fin locals.size) : Prop :=
  ∃ name root, (name, Local.object root) ∈ locals.members ∧ ReflTransGen (Holds locals.heap) root ref

/-- Locals without cycles, and with no container in which a BigInt comes with something `String` throws on. -/
structure Showable (locals : Locals) : Prop where
  acyclic : ∀ ref, locals.Held ref → ¬ TransGen (Holds locals.heap) ref ref
  printable : ∀ ref, locals.Held ref → ¬ (HasBigint locals.heap (.object ref) ∧ Unprintable locals.heap (.object ref))

theorem showsAll_of_ok {locals : Locals} {fuel : Nat} {core : DebugCore} {store : VariableStore} {reason : StopReason}
    {line column : Int} {frameName : String} {made : DebugCore × VariableStore}
    (ok : locals.enterPause fuel core store reason line column frameName = .ok made) : locals.ShowsAll made.2 := by
  obtain ⟨⟨scope, after⟩, registered, rfl⟩ := map_ok_iff.mp ok
  obtain ⟨vars, visited, same⟩ := map_ok_iff.mp registered
  cases same
  obtain ⟨added, grown, keyed, displays⟩ := mapEntries_shows (fun _ _ _ _ => toVariable_shows) visited
  have all := grown.register keyed
  have registry : (vars.2.set 1 vars.1).registry = added ++ [(1, vars.1)] := all.registry
  refine ⟨?_, ?_, 1, by simp, fun path value reached => ?_⟩
  · change ∀ entry ∈ (vars.2.set 1 vars.1).registry, _
    rw [registry]
    exact all.keyed
  · change ((vars.2.set 1 vars.1).registry.map Prod.fst).Nodup
    rw [registry]
    exact all.distinct
  · refine @followed_of_displays _ _ _ ?_ _ _ _ reached 1 vars.1 ?_ ?_
    · change ((vars.2.set 1 vars.1).registry.map Prod.fst).Nodup
      rw [registry]
      exact all.distinct
    · change _ ∈ (vars.2.set 1 vars.1).registry
      rw [registry]
      exact List.mem_append_right _ List.mem_cons_self
    · change List.Forall₂ (fun (entry : JSString × Local locals.size) (v : Variable) => v.name = entry.1 ∧
        Displays locals.heap (vars.2.set 1 vars.1).registry path.length entry.2 v) _ _
      rw [registry]
      exact (displays path.length).imp fun entry v shown => ⟨shown.1, shown.2.mono (List.subset_append_left _ _)⟩

theorem showable_of_ok {locals : Locals} {fuel : Nat} {core : DebugCore} {store : VariableStore} {reason : StopReason}
    {line column : Int} {frameName : String} {made : DebugCore × VariableStore}
    (ok : locals.enterPause fuel core store reason line column frameName = .ok made) : locals.Showable := by
  obtain ⟨_, registered, -⟩ := map_ok_iff.mp ok
  obtain ⟨_, visited, -⟩ := map_ok_iff.mp registered
  have below : ∀ ref, locals.Held ref → Acc (fun child parent => Holds locals.heap parent child) ref ∧
      ∃ fuel text, displayString locals.heap fuel (.object ref) = .ok text := by
    rintro ref ⟨name, root, member, path⟩
    obtain ⟨_, _, shown⟩ := mapEntries_visits visited member
    obtain ⟨accessible, displays⟩ := toVariable_accessible shown
    refine ⟨?_, displays ref path⟩
    clear displays shown member
    induction path with
    | refl => exact accessible
    | tail _ step ih => exact ih.inv step
  refine ⟨fun ref held => no_cycle_of_acc (below ref held).1, fun ref held => ?_⟩
  obtain ⟨accessible, _, _, displayed⟩ := below ref held
  exact displayString_ok accessible displayed

theorem Showable.ok {locals : Locals} (showable : locals.Showable) (core : DebugCore) (store : VariableStore)
    (reason : StopReason) (line column : Int) (frameName : String) :
    ∃ fuel made, locals.enterPause fuel core store reason line column frameName = .ok made := by
  have each : ∀ entry ∈ locals.members, ∃ need, ∀ fuel, need ≤ fuel →
      ∀ store, ∃ made, toVariable locals.heap fuel entry.1 entry.2 store = .ok made := by
    rintro ⟨name, value⟩ member
    cases value with
    | prim p =>
      refine ⟨0, fun fuel _ store => ?_⟩
      obtain ⟨text, displayed⟩ := @displayString_prim _ locals.heap fuel p
      unfold toVariable
      rw [displayed]
      exact ⟨_, rfl⟩
    | object ref =>
      have accessible := acc_of_no_cycle fun below path => showable.acyclic below ⟨name, ref, member, path⟩
      obtain ⟨need, settled⟩ := toVariable_settles accessible fun below path =>
        showable.printable below ⟨name, ref, member, path⟩
      exact ⟨need, fun fuel enough store => settled fuel enough name store⟩
  obtain ⟨need, settled⟩ := settle_all each
  obtain ⟨vars, visited⟩ := mapEntries_ok (settled need le_rfl) { store with registry := [], counter := 1 }
  refine ⟨need, _, map_ok_iff.mpr ⟨_, map_ok_iff.mpr ⟨vars, visited, rfl⟩, rfl⟩⟩

/-- A pause comes to an end and shows all of its locals exactly where they have no cycle and no container in which a BigInt
comes with something `String` throws on. -/
theorem pause_shows_iff (locals : Locals) (core : DebugCore) (store : VariableStore) (reason : StopReason) (line column : Int)
    (frameName : String) :
    (∃ fuel made, locals.enterPause fuel core store reason line column frameName = .ok made ∧ locals.ShowsAll made.2) ↔
      locals.Showable := by
  constructor
  · rintro ⟨fuel, made, ok, -⟩
    exact showable_of_ok ok
  · intro showable
    obtain ⟨fuel, made, ok⟩ := showable.ok core store reason line column frameName
    exact ⟨fuel, made, ok, showsAll_of_ok ok⟩

/-- One local, an object that is its own member. -/
def selfReference : Locals where
  size := 1
  heap := fun _ => .object [(js "self", .object 0)]
  members := [(js "a", .object 0)]

/-- No depth is enough for it. -/
theorem pause_selfReference : ¬ ∃ fuel made,
    selfReference.enterPause fuel .start ⟨[], 0, fun _ => none⟩ .breakpoint 1 1 "<script>" = .ok made ∧
      selfReference.ShowsAll made.2 := by
  rintro ⟨fuel, made, ok, -⟩
  have cycle : @Holds 1 selfReference.heap 0 0 := ⟨js "self", List.mem_cons_self⟩
  exact (showable_of_ok ok).acyclic (0 : Fin 1) ⟨js "a", (0 : Fin 1), List.mem_cons_self, .refl⟩ (.single cycle)

end Locals

end Xript
