import Xript.Bus.Catalogue

namespace Xript

/-- The capability a subscriber to the id needs. -/
def requiredCapability (catalogue : List CatalogueRecord) (id : JSString) : Option JSString :=
  (resolveEvent catalogue id).bind fun record => record.entry.capability

/-- Whether `requireModEmit` lets a mod emit the id. -/
def modMayEmit (catalogue : List CatalogueRecord) (id : JSString) : Bool :=
  (resolveEvent catalogue id).any fun record => record.entry.emit = some .mods

/-- One call of `events.declare`. -/
structure DeclareCall where
  satisfies : JSString → Bool
  caller : Option JSString
  entry : Json

/-- A refused call leaves the catalogue as it is. -/
def declareStep (catalogue : List CatalogueRecord) (call : DeclareCall) : List CatalogueRecord :=
  match modDeclare call.satisfies call.caller call.entry catalogue with
  | .ok next => next
  | .error _ => catalogue

def declareAll (catalogue : List CatalogueRecord) (calls : List DeclareCall) : List CatalogueRecord :=
  calls.foldl declareStep catalogue

/-- The call passes the capability check and spells a valid entry of that id. -/
def DeclareCall.spells (call : DeclareCall) (id : JSString) : Prop :=
  call.satisfies (js "events.declare") = true ∧
    ∃ entry, validateEntry (js "events.declare") call.entry = .ok entry ∧ entry.id = id

def catalogueIds (catalogue : List CatalogueRecord) : List JSString := catalogue.map fun record => record.entry.id

/-- A declaration looks at the manifest's records first and changes none of them. -/
theorem declareIn_append {binding party : JSString} {entry : EventEntry} {seeded declared : List CatalogueRecord}
    (manifest : ∀ record ∈ seeded, record.source = .manifest) :
    declareIn binding entry party (seeded ++ declared) =
      if entry.id ∈ catalogueIds seeded then
        .error (.binding binding (js "event '" ++ entry.id ++ js "' is already declared by the host manifest"))
      else (declareIn binding entry party declared).map (seeded ++ ·) := by
  induction seeded with
  | nil =>
    cases outcome : declareIn binding entry party declared <;> simp [catalogueIds, outcome, Except.map]
  | cons record seeded ih =>
    have later := ih fun other member => manifest other (List.mem_cons_of_mem _ member)
    rw [List.cons_append, declareIn]
    by_cases same : record.entry.id = entry.id
    · rw [if_neg (not_not.mpr same), if_pos (manifest record (List.mem_cons_self ..)), if_pos]
      simp [catalogueIds, same]
    · rw [if_pos same, later]
      have other : entry.id ∈ catalogueIds (record :: seeded) ↔ entry.id ∈ catalogueIds seeded := by
        simp [catalogueIds, Ne.symm same]
      simp only [other]
      split
      · rfl
      · cases declareIn binding entry party declared <;> rfl

/-- A declaration among runtime records succeeds unless its id is taken, and adds no other id. -/
theorem declareIn_runtime (binding party : JSString) (entry : EventEntry) {declared : List CatalogueRecord}
    (runtime : ∀ record ∈ declared, record.source = .runtime) :
    (∃ next, declareIn binding entry party declared = .ok next ∧ (∀ record ∈ next, record.source = .runtime) ∧
      ∀ id, id ∈ catalogueIds next ↔ id = entry.id ∨ id ∈ catalogueIds declared) ∨
    (∃ error, declareIn binding entry party declared = .error error) ∧ entry.id ∈ catalogueIds declared := by
  induction declared with
  | nil => exact Or.inl ⟨_, rfl, by simp, by simp [catalogueIds]⟩
  | cons record declared ih =>
    have own := runtime record (List.mem_cons_self ..)
    rw [declareIn]
    by_cases same : record.entry.id = entry.id
    · rw [if_neg (not_not.mpr same), if_neg (by simp [own])]
      split
      · exact Or.inr ⟨⟨_, rfl⟩, by simp [catalogueIds, same]⟩
      · refine Or.inl ⟨_, rfl, ?_, ?_⟩
        · intro other member
          rcases List.mem_cons.mp member with rfl | later
          · exact own
          · exact runtime other (List.mem_cons_of_mem _ later)
        · intro id
          simp [catalogueIds, same]
    · rw [if_pos same]
      rcases ih fun other member => runtime other (List.mem_cons_of_mem _ member) with
        ⟨next, found, sources, ids⟩ | ⟨⟨error, refused⟩, taken⟩
      · refine Or.inl ⟨record :: next, by rw [found]; rfl, ?_, ?_⟩
        · intro other member
          rcases List.mem_cons.mp member with rfl | later
          · exact own
          · exact sources other later
        · intro id
          have before := ids id
          simp only [catalogueIds, List.map_cons, List.mem_cons] at before ⊢
          rw [before]
          exact or_left_comm
      · exact Or.inr ⟨⟨error, by rw [refused]; rfl⟩, by
          simp only [catalogueIds, List.map_cons, List.mem_cons]
          exact Or.inr taken⟩

/-- One call of `events.declare`: the manifest's records stay in front, and a new id is declared exactly
where the call spells it. -/
theorem declareStep_append {seeded declared : List CatalogueRecord} (call : DeclareCall)
    (manifest : ∀ record ∈ seeded, record.source = .manifest)
    (runtime : ∀ record ∈ declared, record.source = .runtime) :
    ∃ next, declareStep (seeded ++ declared) call = seeded ++ next ∧ (∀ record ∈ next, record.source = .runtime) ∧
      ∀ id ∉ catalogueIds seeded, (id ∈ catalogueIds next ↔ call.spells id ∨ id ∈ catalogueIds declared) := by
  by_cases granted : call.satisfies (js "events.declare") = true
  · cases valid : validateEntry (js "events.declare") call.entry with
    | error error =>
      refine ⟨declared, ?_, runtime, ?_⟩
      · simp only [declareStep, modDeclare, granted, declare, valid]
        rfl
      · intro id _
        simp [DeclareCall.spells, valid]
    | ok entry =>
      have spells : ∀ id, call.spells id ↔ id = entry.id := by
        intro id
        simp [DeclareCall.spells, granted, valid, eq_comm]
      have outcome : modDeclare call.satisfies call.caller call.entry (seeded ++ declared) =
          declareIn (js "events.declare") entry (modParty call.caller) (seeded ++ declared) := by
        simp only [modDeclare, granted, declare, valid]
        rfl
      rw [declareIn_append manifest] at outcome
      by_cases taken : entry.id ∈ catalogueIds seeded
      · refine ⟨declared, ?_, runtime, ?_⟩
        · rw [declareStep, outcome, if_pos taken]
        · intro id outside
          have other : id ≠ entry.id := fun same => outside (same ▸ taken)
          simp [spells, other]
      · rw [if_neg taken] at outcome
        rcases declareIn_runtime (js "events.declare") (modParty call.caller) entry runtime with
          ⟨next, found, sources, ids⟩ | ⟨⟨error, refused⟩, known⟩
        · refine ⟨next, ?_, sources, ?_⟩
          · rw [declareStep, outcome, found]
            rfl
          · intro id _
            rw [ids, spells]
        · refine ⟨declared, ?_, runtime, ?_⟩
          · rw [declareStep, outcome, refused]
            rfl
          · intro id _
            rw [spells]
            exact ⟨Or.inr, fun either => either.elim (fun same => same ▸ known) fun earlier => earlier⟩
  · refine ⟨declared, ?_, runtime, ?_⟩
    · simp only [declareStep, modDeclare, granted]
      rfl
    · intro id _
      simp [DeclareCall.spells, granted]

/-- A sequence of calls of `events.declare`, in which an id that the manifest does not list is declared exactly where
one of the calls spells it. -/
theorem declareAll_append {seeded : List CatalogueRecord} (calls : List DeclareCall)
    (manifest : ∀ record ∈ seeded, record.source = .manifest) {declared : List CatalogueRecord}
    (runtime : ∀ record ∈ declared, record.source = .runtime) :
    ∃ next, declareAll (seeded ++ declared) calls = seeded ++ next ∧ (∀ record ∈ next, record.source = .runtime) ∧
      ∀ id ∉ catalogueIds seeded,
        (id ∈ catalogueIds next ↔ (∃ call ∈ calls, call.spells id) ∨ id ∈ catalogueIds declared) := by
  induction calls generalizing declared with
  | nil => exact ⟨declared, rfl, runtime, by simp⟩
  | cons call calls ih =>
    obtain ⟨middle, first, sources, ids⟩ := declareStep_append call manifest runtime
    obtain ⟨next, rest, later, found⟩ := ih sources
    refine ⟨next, ?_, later, ?_⟩
    · rw [declareAll, List.foldl_cons, first]
      exact rest
    · intro id outside
      rw [found id outside, ids id outside, List.exists_mem_cons_iff, or_assoc, or_left_comm]

/-- How an id resolves past runtime records that do not list it. -/
theorem resolveEvent_append {seeded declared : List CatalogueRecord} {id : JSString} {record : CatalogueRecord}
    (manifest : ∀ record ∈ seeded, record.source = .manifest)
    (runtime : ∀ record ∈ declared, record.source = .runtime) (resolved : resolveEvent seeded id = some record) :
    resolveEvent (seeded ++ declared) id = some record ↔ record.entry.id = id ∨ id ∉ catalogueIds declared := by
  unfold resolveEvent at resolved ⊢
  rw [List.find?_append, List.find?_append]
  cases exact : seeded.find? fun record => record.entry.id = id with
  | some found =>
    have same : found = record := by simpa [exact] using resolved
    have named : found.entry.id = id := by simpa using List.find?_some exact
    simp [same, ← same ▸ named]
  | none =>
    have shaped : (seeded.find? fun record => claimsShape record.entry id) = some record := by
      simpa [exact] using resolved
    have inside := List.mem_of_find?_eq_some shaped
    have other : record.entry.id ≠ id := by
      intro named
      have := List.find?_eq_none.mp exact record inside
      simp [named] at this
    simp only [other, false_or, shaped, Option.none_or, Option.some_or]
    cases found : declared.find? fun record => record.entry.id = id with
    | none =>
      have absent : id ∉ catalogueIds declared := by
        intro member
        obtain ⟨hit, place, named⟩ := List.mem_map.mp member
        have := List.find?_eq_none.mp found hit place
        simp [named] at this
      simp [absent]
    | some hit =>
      have place := List.mem_of_find?_eq_some found
      have named : hit.entry.id = id := by simpa using List.find?_some found
      have present : id ∈ catalogueIds declared := List.mem_map.mpr ⟨hit, place, named⟩
      have different : hit ≠ record := by
        intro same
        have source := runtime hit place
        rw [same, manifest record inside] at source
        cases source
      simp [present, different]

theorem manifest_entry_iff (events : List EventEntry) {id : JSString} {record : CatalogueRecord}
    (resolved : resolveEvent (seedCatalogue events) id = some record) (calls : List DeclareCall) :
    resolveEvent (declareAll (seedCatalogue events) calls) id = some record ↔
      record.entry.id = id ∨ ∀ call ∈ calls, ¬ call.spells id := by
  have manifest : ∀ record ∈ seedCatalogue events, record.source = .manifest := by
    intro other member
    obtain ⟨entry, -, rfl⟩ := List.mem_map.mp member
    rfl
  have none : ∀ record ∈ ([] : List CatalogueRecord), record.source = .runtime := by simp
  obtain ⟨next, final, runtime, ids⟩ := declareAll_append calls manifest none
  rw [List.append_nil] at final
  rw [final, resolveEvent_append manifest runtime resolved]
  by_cases listed : record.entry.id = id
  · simp [listed]
  · have outside : id ∉ catalogueIds (seedCatalogue events) := by
      intro member
      obtain ⟨hit, place, named⟩ := List.mem_map.mp member
      have found : (seedCatalogue events).find? (fun record => record.entry.id = id) ≠ .none := by
        intro missing
        have := List.find?_eq_none.mp missing hit place
        simp [named] at this
      obtain ⟨first, exact⟩ := Option.ne_none_iff_exists'.mp found
      have same : first = record := by simpa [resolveEvent, exact] using resolved
      exact listed (same ▸ by simpa using List.find?_some exact)
    rw [ids id outside]
    simp [listed, catalogueIds]

/-- An id that the manifest resolves keeps its entry, and with it the capability and the right to emit, through every
sequence of declarations by mods exactly where the manifest lists the id itself or no call spells it. -/
theorem manifest_entry_kept_iff (events : List EventEntry) {id : JSString} {record : CatalogueRecord}
    (resolved : resolveEvent (seedCatalogue events) id = some record) (calls : List DeclareCall) :
    (resolveEvent (declareAll (seedCatalogue events) calls) id = some record ∧
      requiredCapability (declareAll (seedCatalogue events) calls) id = record.entry.capability ∧
      (modMayEmit (declareAll (seedCatalogue events) calls) id = true ↔ record.entry.emit = some .mods)) ↔
    record.entry.id = id ∨ ∀ call ∈ calls, ¬ call.spells id := by
  rw [← manifest_entry_iff events resolved calls]
  refine ⟨fun kept => kept.1, fun kept => ⟨kept, ?_, ?_⟩⟩
  · simp only [requiredCapability, kept, Option.bind_some]
  · simp only [modMayEmit, kept, Option.any_some, decide_eq_true_eq]

/-- A stat event that also answers to the stat of one subject, for subscribers with a capability. -/
def statChanged : EventEntry :=
  ⟨js "stat.changed", js "Fired after any stat changes.", none, some (js "stats"), none, none,
    some [js "stat.<instanceId>.changed"], none⟩

def declareOf (id : JSString) : DeclareCall :=
  ⟨fun _ => true, some (js "alpha"),
    .obj [(js "id", .str id), (js "description", .str (js "Mine.")), (js "emit", .str (js "mods"))]⟩

theorem manifest_entry_kept_beside :
    resolveEvent (declareAll (seedCatalogue [statChanged]) [declareOf (js "quest.done")]) (js "stat.hero.changed") =
      some ⟨statChanged, .manifest, none⟩ := by
  have resolved : resolveEvent (seedCatalogue [statChanged]) (js "stat.hero.changed") =
      some ⟨statChanged, .manifest, none⟩ := by
    have shaped : claimsShape statChanged (js "stat.hero.changed") = true := by decide +kernel
    simp only [resolveEvent, seedCatalogue, List.map_cons, List.map_nil, List.find?_cons, shaped]
    rfl
  refine ((manifest_entry_kept_iff [statChanged] resolved [declareOf (js "quest.done")]).mpr (Or.inr ?_)).1
  intro call member spelled
  obtain rfl := List.mem_singleton.mp member
  obtain ⟨-, entry, valid, named⟩ := spelled
  have quest : (validateEntry (js "events.declare") (declareOf (js "quest.done")).entry).map EventEntry.id =
      .ok (js "quest.done") := by decide +kernel
  rw [valid, Except.map, named] at quest
  exact absurd quest (by decide +kernel)

/-- A mod declares the id of one subject and takes it from under the manifest's rules. -/
theorem declare_takes_addressed :
    requiredCapability (seedCatalogue [statChanged]) (js "stat.hero.changed") = some (js "stats") ∧
    modMayEmit (seedCatalogue [statChanged]) (js "stat.hero.changed") = false ∧
    requiredCapability (declareAll (seedCatalogue [statChanged]) [declareOf (js "stat.hero.changed")])
      (js "stat.hero.changed") = none ∧
    modMayEmit (declareAll (seedCatalogue [statChanged]) [declareOf (js "stat.hero.changed")])
      (js "stat.hero.changed") = true := by decide +kernel

end Xript
