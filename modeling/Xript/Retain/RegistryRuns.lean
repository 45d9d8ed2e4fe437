import Xript.Retain.Registry

namespace Xript

namespace Retain

variable {Fn : Type} [DecidableEq Fn] {limit : Nat}

def RetainedRecord.mark (record : RetainedRecord Fn) : RetainedRecord Fn := { record with released := true }

def RetainedRecord.isLive (record : RetainedRecord Fn) : Bool := !record.released

/-- The live entries of records whose handles start at a number. -/
def liveFrom : Nat → List (RetainedRecord Fn) → List (JSString × Nat)
  | _, [] => []
  | handle, record :: records =>
    if record.released then liveFrom (handle + 1) records else (record.key, handle) :: liveFrom (handle + 1) records

omit [DecidableEq Fn]

theorem liveFrom_append (first : Nat) (records : List (RetainedRecord Fn)) (record : RetainedRecord Fn)
    (fresh : record.released = false) :
    liveFrom first (records ++ [record]) = liveFrom first records ++ [(record.key, first + records.length)] := by
  induction records generalizing first with
  | nil => simp [liveFrom, fresh]
  | cons head records ih =>
    have next : first + 1 + records.length = first + (records.length + 1) := by omega
    rw [List.cons_append, liveFrom, liveFrom, ih, List.length_cons, next]
    split
    · rfl
    · rfl

theorem mem_liveFrom {first : Nat} {records : List (RetainedRecord Fn)} {key : JSString} {handle : Nat} :
    (key, handle) ∈ liveFrom first records ↔
      ∃ i record, handle = first + i ∧ records[i]? = some record ∧ record.released = false ∧ record.key = key := by
  induction records generalizing first with
  | nil => simp [liveFrom]
  | cons head records ih =>
    have later : (∃ i record, handle = first + 1 + i ∧ records[i]? = some record ∧ record.released = false ∧ record.key = key) ↔
        ∃ i record, handle = first + (i + 1) ∧ (head :: records)[i + 1]? = some record ∧ record.released = false ∧
          record.key = key := by
      simp only [List.getElem?_cons_succ, Nat.add_assoc, Nat.add_comm 1]
    have split : (∃ i record, handle = first + i ∧ (head :: records)[i]? = some record ∧ record.released = false ∧
          record.key = key) ↔
        (handle = first ∧ head.released = false ∧ head.key = key) ∨
          ∃ i record, handle = first + (i + 1) ∧ (head :: records)[i + 1]? = some record ∧ record.released = false ∧
            record.key = key := by
      constructor
      · rintro ⟨i, record, at', found, live, keyed⟩
        cases i with
        | zero =>
          obtain rfl := Option.some.inj found
          exact .inl ⟨at', live, keyed⟩
        | succ i => exact .inr ⟨i, record, at', found, live, keyed⟩
      · rintro (⟨at', live, keyed⟩ | ⟨i, record, at', found, live, keyed⟩)
        · exact ⟨0, head, at', rfl, live, keyed⟩
        · exact ⟨i + 1, record, at', found, live, keyed⟩
    rw [split, ← later, ← ih, liveFrom]
    cases released : head.released with
    | true => simp
    | false =>
      rw [if_neg Bool.false_ne_true, List.mem_cons, Prod.mk.injEq]
      constructor
      · rintro (⟨rfl, rfl⟩ | rest)
        · exact .inl ⟨rfl, rfl, rfl⟩
        · exact .inr rest
      · rintro (⟨rfl, -, rfl⟩ | rest)
        · exact .inl ⟨rfl, rfl⟩
        · exact .inr rest

theorem length_liveFrom (first : Nat) (records : List (RetainedRecord Fn)) :
    (liveFrom first records).length = records.countP RetainedRecord.isLive := by
  induction records generalizing first with
  | nil => rfl
  | cons head records ih =>
    rw [liveFrom, List.countP_cons, RetainedRecord.isLive]
    cases head.released with
    | true => exact ih (first + 1)
    | false => exact congrArg Nat.succ (ih (first + 1))

/-- Marking a record takes its key off the live ones. -/
theorem liveFrom_set {first i : Nat} {records : List (RetainedRecord Fn)} {record : RetainedRecord Fn}
    (distinct : ((liveFrom first records).map Prod.fst).Nodup) (found : records[i]? = some record)
    (live : record.released = false) :
    liveFrom first (records.set i record.mark) = (liveFrom first records).eraseP fun entry => entry.1 = record.key := by
  induction records generalizing first i with
  | nil => cases found
  | cons head records ih =>
    cases i with
    | zero =>
      obtain rfl := Option.some.inj found
      rw [List.set_cons_zero, liveFrom, liveFrom, live, if_neg Bool.false_ne_true, List.eraseP_cons_of_pos (by simp)]
      rfl
    | succ i =>
      rw [List.set_cons_succ, liveFrom, liveFrom]
      rw [liveFrom] at distinct
      cases released : head.released with
      | true =>
        rw [released, if_pos rfl] at distinct
        exact ih distinct found
      | false =>
        rw [released, if_neg Bool.false_ne_true, List.map_cons, List.nodup_cons] at distinct
        have other : head.key ≠ record.key := by
          intro same
          refine distinct.1 (List.mem_map.mpr ⟨(record.key, first + 1 + i), ?_, same.symm⟩)
          exact mem_liveFrom.mpr ⟨i, record, rfl, found, live, rfl⟩
        rw [if_neg Bool.false_ne_true, if_neg Bool.false_ne_true, List.eraseP_cons_of_neg (by simpa using other),
          ih distinct.2 found]

theorem release_dead {s : Registry Fn} {handle : Nat} {record : RetainedRecord Fn} (found : s.records[handle]? = some record)
    (dead : record.released = true) : s.release handle = s := by
  unfold Registry.release
  rw [found]
  exact if_pos dead

theorem release_missing {s : Registry Fn} {handle : Nat} (missing : s.records[handle]? = none) : s.release handle = s := by
  unfold Registry.release
  rw [missing]

theorem release_live {s : Registry Fn} {handle : Nat} {record : RetainedRecord Fn} (found : s.records[handle]? = some record)
    (live : record.released = false) :
    s.release handle = { s with
      records := s.records.set handle record.mark
      live := s.live.eraseP fun entry => entry.1 = record.key } := by
  unfold Registry.release
  rw [found]
  exact if_neg (by rw [live]; exact Bool.false_ne_true)

theorem mark_dead {record : RetainedRecord Fn} (dead : record.released = true) : record.mark = record := by
  rw [RetainedRecord.mark, ← dead]

theorem liveFrom_marked (first : Nat) (records : List (RetainedRecord Fn)) :
    liveFrom first (records.map RetainedRecord.mark) = [] := by
  induction records generalizing first with
  | nil => rfl
  | cons record records ih => exact ih (first + 1)

/-- The key of a record tells its function and its owner. -/
theorem keyOf_injective {m n : Nat} {a b : Option Mod} (same : Registry.keyOf m a = Registry.keyOf n b) : m = n ∧ a = b := by
  have stop : ∀ (owner : Option Mod), ∀ c ∈ (58 :: (owner.map Subtype.val).getD []).head?, isDigit c = false := by
    intro owner c head
    obtain rfl := Option.some.inj head
    rfl
  obtain ⟨id, owner⟩ := decimal_append_inj (stop a) (stop b) same
  refine ⟨id, ?_⟩
  replace owner := (List.cons.inj owner).2
  cases a with
  | none =>
    cases b with
    | none => rfl
    | some b => exact absurd owner.symm b.2
  | some a =>
    cases b with
    | none => exact absurd owner a.2
    | some b => exact congrArg some (Subtype.ext owner)

/-- What the registry keeps over every run. -/
structure Sound [DecidableEq Fn] (limit : Nat) (s : Registry Fn) : Prop where
  numbered : ∀ fn id, s.ids.lookup fn = some id → id ≤ s.next
  injective : ∀ f g id, s.ids.lookup f = some id → s.ids.lookup g = some id → f = g
  keyed : ∀ record ∈ s.records, ∃ id, s.ids.lookup record.fn = some id ∧ record.key = Registry.keyOf id record.owner
  live : s.live = liveFrom 0 s.records
  distinct : (s.live.map Prod.fst).Nodup
  within : s.live.length ≤ limit
  disposed : s.idOf = false → s.live = []

variable [DecidableEq Fn] {s : Registry Fn}

theorem Sound.start : Sound limit (Registry.start : Registry Fn) where
  numbered fn id found := by cases found
  injective f g id found := by cases found
  keyed record member := by cases member
  live := rfl
  distinct := List.nodup_nil
  within := Nat.zero_le _
  disposed _ := rfl

theorem functionId_records (s : Registry Fn) (fn : Fn) :
    (s.functionId fn).2.records = s.records ∧ (s.functionId fn).2.live = s.live ∧ (s.functionId fn).2.idOf = s.idOf := by
  unfold Registry.functionId
  split
  · exact ⟨rfl, rfl, rfl⟩
  · exact ⟨rfl, rfl, rfl⟩

theorem functionId_lookup (s : Registry Fn) (fn : Fn) : (s.functionId fn).2.ids.lookup fn = some (s.functionId fn).1 := by
  unfold Registry.functionId
  split
  · rename_i id known
    exact known
  · exact List.lookup_cons_self

theorem functionId_known {fn : Fn} {id : Nat} (known : s.ids.lookup fn = some id) : s.functionId fn = (id, s) := by
  unfold Registry.functionId
  rw [known]

theorem Sound.functionId (sound : Sound limit s) (fn : Fn) : Sound limit (s.functionId fn).2 := by
  cases known : s.ids.lookup fn with
  | some id =>
    rw [functionId_known known]
    exact sound
  | none =>
    have made : s.functionId fn = (s.next + 1, { s with ids := (fn, s.next + 1) :: s.ids, next := s.next + 1 }) := by
      rw [Registry.functionId, known]
    rw [made]
    have found : ∀ f id, List.lookup f ((fn, s.next + 1) :: s.ids) = some id →
        (f = fn ∧ id = s.next + 1) ∨ (f ≠ fn ∧ s.ids.lookup f = some id) := by
      intro f id at'
      rw [List.lookup_cons] at at'
      by_cases same : f = fn
      · subst same
        rw [beq_self_eq_true] at at'
        exact .inl ⟨rfl, (Option.some.inj at').symm⟩
      · rw [beq_false_of_ne same] at at'
        exact .inr ⟨same, at'⟩
    refine ⟨?_, ?_, ?_, sound.live, sound.distinct, sound.within, sound.disposed⟩
    · intro f id at'
      rcases found f id at' with ⟨-, rfl⟩ | ⟨-, old⟩
      · exact le_rfl
      · exact (sound.numbered f id old).trans (Nat.le_succ _)
    · intro f g id atF atG
      rcases found f id atF with ⟨rfl, rfl⟩ | ⟨-, oldF⟩
      · rcases found g _ atG with ⟨rfl, -⟩ | ⟨-, oldG⟩
        · rfl
        · exact absurd (sound.numbered g _ oldG) (by omega)
      · rcases found g id atG with ⟨rfl, rfl⟩ | ⟨-, oldG⟩
        · exact absurd (sound.numbered f _ oldF) (by omega)
        · exact sound.injective f g id oldF oldG
    · intro record member
      obtain ⟨id, old, keyed⟩ := sound.keyed record member
      refine ⟨id, ?_, keyed⟩
      rw [List.lookup_cons, beq_false_of_ne]
      · exact old
      · rintro same
        rw [same, known] at old
        cases old

theorem Sound.mem_live (sound : Sound limit s) {key : JSString} {handle : Nat} :
    (key, handle) ∈ s.live ↔ ∃ record, s.records[handle]? = some record ∧ record.released = false ∧ record.key = key := by
  rw [sound.live, mem_liveFrom]
  constructor
  · rintro ⟨i, record, at', found, live, keyed⟩
    rw [Nat.zero_add] at at'
    exact ⟨record, at' ▸ found, live, keyed⟩
  · rintro ⟨record, found, live, keyed⟩
    exact ⟨handle, record, (Nat.zero_add _).symm, found, live, keyed⟩

theorem Sound.lookup_live (sound : Sound limit s) {key : JSString} {handle : Nat} :
    s.live.lookup key = some handle ↔ ∃ record, s.records[handle]? = some record ∧ record.released = false ∧ record.key = key := by
  rw [← sound.mem_live]
  exact ⟨Record.mem_of_get, Record.get_of_mem sound.distinct⟩

theorem Sound.key_eq (sound : Sound limit s) {i j : Nat} {record other : RetainedRecord Fn} (foundI : s.records[i]? = some record)
    (foundJ : s.records[j]? = some other) (fn : record.fn = other.fn) (owner : record.owner = other.owner) :
    record.key = other.key := by
  obtain ⟨id, known, keyed⟩ := sound.keyed record (List.mem_of_getElem? foundI)
  obtain ⟨id', known', keyed'⟩ := sound.keyed other (List.mem_of_getElem? foundJ)
  rw [fn, known', Option.some.injEq] at known
  rw [keyed, keyed', known, owner]

/-- At most one record of a function and an owner is live. -/
theorem Sound.unique (sound : Sound limit s) {i j : Nat} {record other : RetainedRecord Fn} (foundI : s.records[i]? = some record)
    (foundJ : s.records[j]? = some other) (liveI : record.released = false) (liveJ : other.released = false)
    (fn : record.fn = other.fn) (owner : record.owner = other.owner) : i = j := by
  have same := sound.key_eq foundI foundJ fn owner
  have first := sound.lookup_live.2 ⟨record, foundI, liveI, rfl⟩
  have second := sound.lookup_live.2 ⟨other, foundJ, liveJ, rfl⟩
  rw [same, second, Option.some.injEq] at first
  exact first.symm

omit [DecidableEq Fn] in
/-- A release marks one record, whatever it was. -/
theorem release_records (s : Registry Fn) (handle i : Nat) :
    (s.release handle).records[i]? = if handle = i then s.records[i]?.map RetainedRecord.mark else s.records[i]? := by
  cases found : s.records[handle]? with
  | none =>
    rw [release_missing found]
    split
    · rename_i same
      rw [← same, found]
      rfl
    · rfl
  | some record =>
    cases released : record.released with
    | true =>
      rw [release_dead found released]
      split
      · rename_i same
        rw [← same, found, Option.map_some, mark_dead released]
      · rfl
    | false =>
      rw [release_live found released]
      split
      · rename_i same
        subst same
        have within := (List.getElem?_eq_some_iff.mp found).1
        rw [found, List.getElem?_set_self within]
        rfl
      · rename_i other
        exact List.getElem?_set_ne other

theorem Sound.release (sound : Sound limit s) (handle : Nat) : Sound limit (s.release handle) := by
  cases found : s.records[handle]? with
  | none =>
    rw [release_missing found]
    exact sound
  | some record =>
    cases released : record.released with
    | true =>
      rw [release_dead found released]
      exact sound
    | false =>
      rw [release_live found released]
      have fewer : (s.live.eraseP fun entry => entry.1 = record.key).Sublist s.live := List.eraseP_sublist
      refine ⟨sound.numbered, sound.injective, ?_, ?_, sound.distinct.sublist (fewer.map Prod.fst),
        fewer.length_le.trans sound.within, ?_⟩
      · intro other member
        rcases List.mem_or_eq_of_mem_set member with old | rfl
        · exact sound.keyed other old
        · exact sound.keyed record (List.mem_of_getElem? found)
      · have distinct := sound.distinct
        rw [sound.live] at distinct ⊢
        exact (liveFrom_set distinct found released).symm
      · intro gone
        rw [sound.disposed gone]
        rfl

theorem releaseOwned_sound (sound : Sound limit s) (mod : Mod) (handles : List Nat) :
    Sound limit (Registry.releaseOwned mod handles s).2 := by
  induction handles generalizing s with
  | nil => exact sound
  | cons handle handles ih =>
    rw [Registry.releaseOwned]
    split
    · exact ih (sound.release handle)
    · exact ih sound

theorem releases_sound (sound : Sound limit s) (handles : List Nat) : Sound limit (handles.foldl Registry.release s) := by
  induction handles generalizing s with
  | nil => exact sound
  | cons handle handles ih => exact ih (sound.release handle)

omit [DecidableEq Fn] in
theorem releases_records (s : Registry Fn) (handles : List Nat) (i : Nat) :
    (handles.foldl Registry.release s).records[i]? =
      if i ∈ handles then s.records[i]?.map RetainedRecord.mark else s.records[i]? := by
  induction handles generalizing s with
  | nil => rfl
  | cons handle handles ih =>
    rw [List.foldl_cons, ih, release_records]
    by_cases same : handle = i
    · subst same
      cases s.records[handle]? with
      | none => simp
      | some record => simp [RetainedRecord.mark]
    · simp [same, Ne.symm same]

/-- The handles of the live records are the places of the records not released. -/
theorem Sound.mem_handles (sound : Sound limit s) (i : Nat) :
    i ∈ s.live.map Prod.snd ↔ ∃ record, s.records[i]? = some record ∧ record.released = false := by
  rw [List.mem_map]
  constructor
  · rintro ⟨⟨key, handle⟩, member, rfl⟩
    obtain ⟨record, found, live, -⟩ := sound.mem_live.1 member
    exact ⟨record, found, live⟩
  · rintro ⟨record, found, live⟩
    exact ⟨(record.key, i), sound.mem_live.2 ⟨record, found, live, rfl⟩, rfl⟩

theorem dispose_records (sound : Sound limit s) : s.dispose.records = s.records.map RetainedRecord.mark := by
  refine List.ext_getElem? fun i => ?_
  rw [Registry.dispose, List.getElem?_map, releases_records]
  split
  · rfl
  · rename_i other
    cases found : s.records[i]? with
    | none => rfl
    | some record =>
      cases released : record.released with
      | true => rw [Option.map_some, mark_dead released]
      | false => exact absurd ((sound.mem_handles i).2 ⟨record, found, released⟩) other

theorem Sound.dispose (sound : Sound limit s) : Sound limit s.dispose := by
  have after := releases_sound sound (s.live.map Prod.snd)
  have empty : s.dispose.live = [] := by
    have live := after.live
    rw [show ((s.live.map Prod.snd).foldl Registry.release s).records = s.records.map RetainedRecord.mark from dispose_records sound,
      liveFrom_marked] at live
    exact live
  exact ⟨after.numbered, after.injective, after.keyed, after.live, after.distinct, after.within, fun _ => empty⟩

theorem retain_disposed (gone : s.idOf = false) (caller : Option Mod) (fn : Fn) (binding : JSString) (retainable : Bool) :
    s.retain limit caller fn binding retainable = (.error .useAfterFree, s) := by
  rw [Registry.retain, gone]
  rfl

/-- A retain either answers with a record, refuses and leaves the records as they were, or makes one. -/
theorem retain_cases (alive : s.idOf = true) (caller : Option Mod) (fn : Fn) (binding : JSString) (retainable : Bool) :
    let key := Registry.keyOf (s.functionId fn).1 caller
    let numbered := (s.functionId fn).2
    (∃ handle, s.live.lookup key = some handle ∧ s.retain limit caller fn binding retainable = (.ok handle, numbered)) ∨
      (∃ failure, s.live.lookup key = none ∧ s.retain limit caller fn binding retainable = (.error failure, numbered)) ∨
      s.live.lookup key = none ∧ s.live.length < limit ∧
        s.retain limit caller fn binding retainable = (.ok s.records.length, { numbered with
          records := s.records ++ [⟨key, fn, caller, binding, false⟩]
          live := s.live ++ [(key, s.records.length)] }) := by
  obtain ⟨records, live, -⟩ := functionId_records s fn
  simp only [Registry.retain, alive, if_true]
  generalize s.functionId fn = counted at records live ⊢
  obtain ⟨id, numbered⟩ := counted
  dsimp only at records live ⊢
  rw [live, records]
  cases held : s.live.lookup (Registry.keyOf id caller) with
  | some handle => exact .inl ⟨handle, rfl, rfl⟩
  | none =>
    cases retainable with
    | false => exact .inr (.inl ⟨.undeclared, rfl, rfl⟩)
    | true =>
      by_cases full : limit ≤ s.live.length
      · refine .inr (.inl ⟨.limit, rfl, ?_⟩)
        simp only [if_true, if_pos full]
      · refine .inr (.inr ⟨rfl, Nat.lt_of_not_le full, ?_⟩)
        simp only [if_true, if_neg full]

theorem Sound.retain (sound : Sound limit s) (caller : Option Mod) (fn : Fn) (binding : JSString) (retainable : Bool) :
    Sound limit (s.retain limit caller fn binding retainable).2 := by
  cases alive : s.idOf with
  | false =>
    rw [retain_disposed alive]
    exact sound
  | true =>
    have numbered := sound.functionId fn
    obtain ⟨records, live, idOf⟩ := functionId_records s fn
    rcases @retain_cases _ limit _ _ alive caller fn binding retainable with ⟨handle, -, run⟩ | ⟨failure, -, run⟩ | ⟨free, room, run⟩
    · rw [run]
      exact numbered
    · rw [run]
      exact numbered
    · rw [run]
      refine ⟨numbered.numbered, numbered.injective, ?_, ?_, ?_, ?_, ?_⟩
      · intro record member
        rcases List.mem_append.mp member with old | new
        · exact numbered.keyed record (records ▸ old)
        · obtain rfl := List.mem_singleton.mp new
          exact ⟨_, functionId_lookup s fn, rfl⟩
      · rw [liveFrom_append _ _ _ rfl, ← sound.live, Nat.zero_add]
      · rw [List.map_append]
        refine List.Nodup.append sound.distinct (List.nodup_singleton _) (List.disjoint_singleton.mpr ?_)
        exact Record.get_eq_none.1 free
      · rw [List.length_append]
        exact room
      · intro gone
        rw [idOf, alive] at gone
        cases gone

theorem Sound.step (sound : Sound limit s) (event : RegistryEvent Fn) : Sound limit (s.step limit event) := by
  cases event with
  | retain caller fn binding retainable => exact sound.retain caller fn binding retainable
  | release handle => exact sound.release handle
  | releaseOwner mod => exact releaseOwned_sound sound mod _
  | call => exact sound
  | resolve => exact sound
  | dispose => exact sound.dispose

theorem Sound.run (sound : Sound limit s) (events : List (RegistryEvent Fn)) : Sound limit (s.run limit events) := by
  induction events generalizing s with
  | nil => exact sound
  | cons event events ih => exact ih (sound.step event)

omit [DecidableEq Fn] in
/-- The loop marks a mod's records among the handles. -/
theorem releaseOwned_records (mod : Mod) (handles : List Nat) (s : Registry Fn) (i : Nat) :
    (Registry.releaseOwned mod handles s).2.records[i]? =
      if i ∈ handles then s.records[i]?.map fun record => if record.owner = some mod then record.mark else record
      else s.records[i]? := by
  induction handles generalizing s with
  | nil => rfl
  | cons handle handles ih =>
    rw [Registry.releaseOwned]
    by_cases owned : (s.records[handle]?).bind RetainedRecord.owner = some mod
    · rw [if_pos owned]
      simp only [ih, release_records, List.mem_cons]
      by_cases same : handle = i
      · subst same
        cases found : s.records[handle]? with
        | none => simp
        | some record =>
          rw [found, Option.bind_some] at owned
          simp [owned, RetainedRecord.mark]
      · simp [same, Ne.symm same]
    · rw [if_neg owned]
      simp only [ih, List.mem_cons]
      by_cases same : handle = i
      · subst same
        cases found : s.records[handle]? with
        | none => simp
        | some record =>
          rw [found, Option.bind_some] at owned
          simp [owned]
      · simp [Ne.symm same]

omit [DecidableEq Fn] in
theorem release_owner (s : Registry Fn) (handle other : Nat) :
    ((s.release handle).records[other]?).bind RetainedRecord.owner = (s.records[other]?).bind RetainedRecord.owner := by
  rw [release_records]
  split
  · cases s.records[other]? with
    | none => rfl
    | some record => rfl
  · rfl

omit [DecidableEq Fn] in
theorem releaseOwned_count (mod : Mod) (handles : List Nat) (s : Registry Fn) :
    (Registry.releaseOwned mod handles s).1 =
      handles.countP fun handle => (s.records[handle]?).bind RetainedRecord.owner = some mod := by
  induction handles generalizing s with
  | nil => rfl
  | cons handle handles ih =>
    rw [Registry.releaseOwned, List.countP_cons]
    by_cases owned : (s.records[handle]?).bind RetainedRecord.owner = some mod
    · rw [if_pos owned]
      simp only [ih, release_owner, owned, decide_true, if_true]
    · rw [if_neg owned, ih]
      simp only [owned, decide_false, Bool.false_eq_true, if_false, Nat.add_zero]

omit [DecidableEq Fn] in
theorem countP_liveFrom {first : Nat} {records : List (RetainedRecord Fn)} {mod : Mod} {owns : Nat → Bool}
    (agrees : ∀ i record, records[i]? = some record → owns (first + i) = decide (record.owner = some mod)) :
    ((liveFrom first records).map Prod.snd).countP owns =
      records.countP fun record => record.isLive && decide (record.owner = some mod) := by
  induction records generalizing first with
  | nil => rfl
  | cons head records ih =>
    have rest : ∀ i record, records[i]? = some record → owns (first + 1 + i) = decide (record.owner = some mod) := by
      intro i record found
      rw [Nat.add_assoc, Nat.add_comm 1 i]
      exact agrees (i + 1) record found
    have here := agrees 0 head rfl
    rw [Nat.add_zero] at here
    rw [liveFrom, List.countP_cons, RetainedRecord.isLive]
    cases head.released with
    | true => simp [ih rest]
    | false => simp [List.countP_cons, ih rest, here]

theorem releaseOwner_exact (sound : Sound limit s) (mod : Mod) :
    (s.releaseOwner mod).1 = (s.records.countP fun record => record.isLive && decide (record.owner = some mod)) ∧
      (s.releaseOwner mod).2.records =
        s.records.map fun record => if record.owner = some mod then record.mark else record := by
  constructor
  · rw [Registry.releaseOwner, releaseOwned_count, sound.live]
    refine countP_liveFrom fun i record found => ?_
    rw [Nat.zero_add, found, Option.bind_some]
  · refine List.ext_getElem? fun i => ?_
    rw [Registry.releaseOwner, releaseOwned_records, List.getElem?_map]
    split
    · rfl
    · rename_i other
      cases found : s.records[i]? with
      | none => rfl
      | some record =>
        cases released : record.released with
        | true => rw [Option.map_some, mark_dead released, ite_self]
        | false => exact absurd ((sound.mem_handles i).2 ⟨record, found, released⟩) other

/-- A released record stays as it is, whatever comes. -/
theorem step_released {handle : Nat} {record : RetainedRecord Fn} (sound : Sound limit s)
    (found : s.records[handle]? = some record) (dead : record.released = true) (event : RegistryEvent Fn) :
    (s.step limit event).records[handle]? = some record := by
  cases event with
  | call => exact found
  | resolve => exact found
  | release other =>
    rw [Registry.step, release_records, found, Option.map_some, mark_dead dead, ite_self]
  | releaseOwner mod =>
    rw [Registry.step, (releaseOwner_exact sound mod).2, List.getElem?_map, found, Option.map_some, mark_dead dead, ite_self]
  | dispose => rw [Registry.step, dispose_records sound, List.getElem?_map, found, Option.map_some, mark_dead dead]
  | retain caller fn binding retainable =>
    rw [Registry.step]
    cases alive : s.idOf with
    | false => rwa [retain_disposed alive]
    | true =>
      obtain ⟨records, -⟩ := functionId_records s fn
      rcases @retain_cases _ limit _ _ alive caller fn binding retainable with ⟨_, -, run⟩ | ⟨_, -, run⟩ | ⟨-, -, run⟩
      · rwa [run, records]
      · rwa [run, records]
      · rw [run]
        rw [List.getElem?_append_left (List.getElem?_eq_some_iff.mp found).1]
        exact found

theorem run_released {handle : Nat} {record : RetainedRecord Fn} (sound : Sound limit s)
    (found : s.records[handle]? = some record) (dead : record.released = true) (events : List (RegistryEvent Fn)) :
    (s.run limit events).records[handle]? = some record := by
  induction events generalizing s with
  | nil => exact found
  | cons event events ih => exact ih (sound.step event) (step_released sound found dead event)

/-- A released handle is refused, wherever it is used later. -/
theorem dead_forever {handle : Nat} {record : RetainedRecord Fn} (sound : Sound limit s)
    (found : s.records[handle]? = some record) (dead : record.released = true) (later : List (RegistryEvent Fn)) :
    (s.run limit later).invoke handle = .error .released ∧
      ∀ own current, (s.run limit later).resolve handle own current = .error .released := by
  have still := run_released sound found dead later
  constructor
  · rw [Registry.invoke, still]
    exact if_pos dead
  · intro own current
    rw [Registry.resolve, still]
    exact if_pos dead

/-- A live record is what its owner gets for its function, whether the position is declared or not. -/
theorem retain_live (sound : Sound limit s) {handle : Nat} {record : RetainedRecord Fn}
    (found : s.records[handle]? = some record) (live : record.released = false) (binding : JSString) (retainable : Bool) :
    s.retain limit record.owner record.fn binding retainable = (.ok handle, s) := by
  obtain ⟨id, known, keyed⟩ := sound.keyed record (List.mem_of_getElem? found)
  have held := sound.lookup_live.2 ⟨record, found, live, keyed⟩
  have alive : s.idOf = true := by
    cases idOf : s.idOf with
    | true => rfl
    | false => rw [sound.disposed idOf] at held; cases held
  rw [Registry.retain, alive, functionId_known known]
  simp only [if_true, held]

theorem retain_ok (sound : Sound limit s) {caller : Option Mod} {fn : Fn} {binding : JSString} {retainable : Bool} {handle : Nat}
    (answered : (s.retain limit caller fn binding retainable).1 = .ok handle) :
    ∃ record, (s.retain limit caller fn binding retainable).2.records[handle]? = some record ∧ record.fn = fn ∧
      record.owner = caller ∧ record.released = false := by
  cases alive : s.idOf with
  | false =>
    rw [retain_disposed alive] at answered
    cases answered
  | true =>
    obtain ⟨records, -⟩ := functionId_records s fn
    rcases @retain_cases _ limit _ _ alive caller fn binding retainable with ⟨other, held, run⟩ | ⟨_, -, run⟩ | ⟨-, -, run⟩
    · rw [run] at answered ⊢
      obtain rfl := Except.ok.inj answered
      obtain ⟨record, found, live, keyed⟩ := sound.lookup_live.1 held
      have numbered := sound.functionId fn
      obtain ⟨id, known, key⟩ := numbered.keyed record (records ▸ List.mem_of_getElem? found)
      obtain ⟨sameId, owner⟩ := keyOf_injective (key.symm.trans keyed)
      have fnId := functionId_lookup s fn
      rw [← sameId] at fnId
      exact ⟨record, records ▸ found, numbered.injective _ _ _ known fnId, owner, live⟩
    · rw [run] at answered
      cases answered
    · rw [run] at answered ⊢
      obtain rfl := Except.ok.inj answered
      exact ⟨_, List.getElem?_concat_length, rfl, rfl, rfl⟩

theorem retain_refused {caller : Option Mod} {fn : Fn} {binding : JSString} {retainable : Bool} {failure : RetainFailure}
    (refused : (s.retain limit caller fn binding retainable).1 = .error failure) :
    (s.retain limit caller fn binding retainable).2.records = s.records ∧
      (s.retain limit caller fn binding retainable).2.live = s.live := by
  cases alive : s.idOf with
  | false =>
    rw [retain_disposed alive]
    exact ⟨rfl, rfl⟩
  | true =>
    obtain ⟨records, live, -⟩ := functionId_records s fn
    rcases @retain_cases _ limit _ _ alive caller fn binding retainable with ⟨_, -, run⟩ | ⟨_, -, run⟩ | ⟨-, -, run⟩
    · rw [run]
      exact ⟨records, live⟩
    · rw [run]
      exact ⟨records, live⟩
    · rw [run] at refused
      cases refused

end Retain

end Xript
