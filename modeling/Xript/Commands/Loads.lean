import Xript.Commands.Agree

namespace Xript

namespace Commands

/-- The number the two runtimes hold, where they hold one. -/
def SameNumber (x : F64) (n : Int64) : Prop := ∃ b, x = .finite b ∧ b.value = (n.toInt : ℚ)

def IsInteger : Serde.Number → Prop
  | .float x => ∃ k : Int, x.value = k
  | _ => True

def IntegerPriority (r : ReadObject) : Prop :=
  ∀ value, Rust.get r.entries "priority" = some value → ∃ n, value = .number n ∧ IsInteger n

/-- A fill with no null `input` or `output`, and with a priority that `as_i64` and a double hold alike. -/
structure Faithful (r : ReadObject) : Prop where
  input : Rust.get r.entries "input" ≠ some .null
  output : Rust.get r.entries "output" ≠ some .null
  priority : ∀ n, Rust.get r.entries "priority" = some (.number n) →
    SameNumber (toF64 n) ((Rust.asI64 (.number n)).getD 0)

/-- The fill the two runtimes make, where they make one. -/
structure SameFill (fill : CommandFill) (made : Rust.CommandFill) : Prop where
  id : fill.id = utf16 made.id
  title : fill.title = utf16 made.title
  handler : fill.handler = utf16 made.handler
  keywords : fill.keywords = made.keywords.map utf16
  args : SameJson (.object made.args) (.obj fill.args)
  input : Option.Rel SameJson made.input fill.input
  output : Option.Rel SameJson made.output fill.output
  priority : SameNumber fill.priority made.priority
  exposed : fill.exposed = made.exposed

theorem title_alike (r : ReadObject) (id : List Char) :
    ((r.members.get (js "title")).bind text).getD (utf16 id) = utf16 ((Rust.optionalString r.entries "title").getD id) := by
  rw [r.text]
  cases Rust.optionalString r.entries "title" <;> rfl

theorem filterMap_alike {values : List Serde.Value} {items : List Json} (same : List.Forall₂ SameJson values items) :
    items.filterMap text = (values.filterMap Serde.Value.asStr).map utf16 := by
  induction same with
  | nil => rfl
  | cons head _ ih =>
    rw [List.filterMap_cons, List.filterMap_cons, head.text, ih]
    cases Serde.Value.asStr _ <;> rfl

theorem keywords_alike (r : ReadObject) :
    ((r.members.get (js "keywords")).map fun keywords => (items keywords).filterMap text).getD [] =
      ((((Rust.get r.entries "keywords").bind Serde.Value.asArray).map fun items =>
        items.filterMap Serde.Value.asStr).getD []).map utf16 := by
  have alike := r.get "keywords"
  generalize Rust.get r.entries "keywords" = value, r.members.get (js "keywords") = json at alike
  cases alike with
  | none => rfl
  | some same =>
    cases same with
    | array same => exact filterMap_alike same
    | null => rfl
    | bool => rfl
    | number => rfl
    | string => rfl
    | object => rfl

theorem readArgs_alike {r : ReadObject} {args : List (List Char × Serde.Value)} (read : Rust.readArgs r.entries = some args)
    (notNull : ¬ NullArgs r) : SameJson (.object args) (.obj (boundArgs r.members)) := by
  have alike := r.get "args"
  unfold Rust.readArgs at read
  unfold NullArgs at notNull
  unfold boundArgs
  generalize Rust.get r.entries "args" = value, r.members.get (js "args") = json at alike read notNull
  cases alike with
  | none =>
    cases read
    exact .object List.nodup_nil (.refl []) rfl .nil
  | some same =>
    cases same with
    | null => exact absurd rfl notNull
    | bool => cases read
    | number => cases read
    | string => cases read
    | array => cases read
    | object unique reordered named values =>
      cases read
      exact .object unique reordered named values

theorem present_alike (r : ReadObject) (key : String) :
    Option.Rel SameJson (Rust.present r.entries key) (r.members.get (js key)) ↔ Rust.get r.entries key ≠ some .null := by
  have alike := r.get key
  unfold Rust.present
  generalize Rust.get r.entries key = value, r.members.get (js key) = json at alike
  cases alike with
  | none => simp
  | @some value json same =>
    by_cases isNull : value = .null
    · subst isNull
      constructor
      · intro kept
        cases kept
      · intro notNull
        exact absurd rfl notNull
    · have kept : Option.filter (fun value => !Rust.isNull value) (some value) = some value :=
        Option.filter_some_pos (by cases value <;> first | rfl | exact absurd rfl isNull)
      rw [kept]
      exact ⟨fun _ null => isNull (Option.some.inj null), fun _ => .some same⟩

theorem sameNumber_zero : SameNumber (.ofNat 0) 0 := ⟨.zero false, rfl, by simp [Binary64.value, Binary64.zero, Binary64.magnitude]⟩

theorem priority_alike (r : ReadObject) :
    SameNumber (((r.members.get (js "priority")).bind number).getD (.ofNat 0))
        (((Rust.get r.entries "priority").bind Rust.asI64).getD 0) ↔
      ∀ n, Rust.get r.entries "priority" = some (.number n) → SameNumber (toF64 n) ((Rust.asI64 (.number n)).getD 0) := by
  have alike := r.get "priority"
  generalize Rust.get r.entries "priority" = value, r.members.get (js "priority") = json at alike
  cases alike with
  | none => exact ⟨fun _ n found => (Option.some_ne_none _ found.symm).elim, fun _ => sameNumber_zero⟩
  | some same =>
    cases same with
    | number n =>
      constructor
      · intro same m found
        cases found
        exact same
      · intro all
        exact all n rfl
    | null => exact ⟨fun _ n found => (by cases found), fun _ => sameNumber_zero⟩
    | bool => exact ⟨fun _ n found => (by cases found), fun _ => sameNumber_zero⟩
    | string => exact ⟨fun _ n found => (by cases found), fun _ => sameNumber_zero⟩
    | array => exact ⟨fun _ n found => (by cases found), fun _ => sameNumber_zero⟩
    | object => exact ⟨fun _ n found => (by cases found), fun _ => sameNumber_zero⟩

theorem exposed_alike (r : ReadObject) :
    (!(r.members.get (js "exposed")).any isFalse) = ((Rust.get r.entries "exposed").bind Rust.asBool).getD true := by
  have alike := r.get "exposed"
  generalize Rust.get r.entries "exposed" = value, r.members.get (js "exposed") = json at alike
  cases alike with
  | none => rfl
  | some same =>
    cases same with
    | bool b => cases b <;> rfl
    | null => rfl
    | number => rfl
    | string => rfl
    | array => rfl
    | object => rfl

theorem sameFill_iff {context : FillContext} {modName slotId : List Char} {seen : List (List Char)} {r : ReadObject}
    {id handler : List Char} {args : List (List Char × Serde.Value)} (accepted : Accepted seen r id handler args)
    (notNull : ¬ NullArgs r) :
    SameFill (context.normalized r.members (utf16 id) (utf16 handler)) (Rust.normalized modName slotId r.entries id handler args) ↔
      Faithful r := by
  constructor
  · intro same
    exact ⟨(present_alike r "input").mp same.input, (present_alike r "output").mp same.output,
      (priority_alike r).mp same.priority⟩
  · intro faithful
    exact ⟨rfl, title_alike r id, rfl, keywords_alike r, readArgs_alike accepted.shaped notNull,
      (present_alike r "input").mpr faithful.input, (present_alike r "output").mpr faithful.output,
      (priority_alike r).mpr faithful.priority, exposed_alike r⟩

theorem normalizeFrom_accepted {modName slotId : List Char} {index : Nat} {seen : List (List Char)} {fills : List ReadObject} :
    (∃ made, Rust.normalizeFrom modName slotId index seen (fills.map ReadObject.entries) = .ok made) ↔ AcceptedAll seen fills := by
  induction fills generalizing index seen with
  | nil => simp [Rust.normalizeFrom, AcceptedAll]
  | cons r fills ih =>
    rw [List.map_cons, Rust.normalizeFrom, AcceptedAll]
    constructor
    · rintro ⟨made, ok⟩
      cases first : Rust.normalizeFill modName slotId index seen r.entries with
      | error defect =>
        rw [first] at ok
        cases ok
      | ok fill =>
        obtain ⟨id, handler, args, accepted, rfl⟩ := normalizeFill_ok first
        rw [first, Except.bind] at ok
        cases rest : Rust.normalizeFrom modName slotId (index + 1) (id :: seen) (fills.map ReadObject.entries) with
        | error defect =>
          rw [Rust.normalized, rest] at ok
          cases ok
        | ok others => exact ⟨id, handler, args, accepted, ih.mp ⟨others, rest⟩⟩
    · rintro ⟨id, handler, args, accepted, rest⟩
      obtain ⟨others, ok⟩ := (@ih (index + 1) (id :: seen)).mpr rest
      rw [normalizeFill_accepted accepted, Except.bind, Rust.normalized, ok]
      exact ⟨_, rfl⟩

/-- Where every fill loads on both sides, the fills are the same exactly where each is faithful. -/
theorem normalizeFrom_same {context : FillContext} {modName slotId : List Char} {index : Nat} {seen : List (List Char)}
    {fills : List ReadObject} {made : List Rust.CommandFill}
    (ok : Rust.normalizeFrom modName slotId index seen (fills.map ReadObject.entries) = .ok made)
    (accepted : AcceptedAll seen fills) (notNull : ∀ r ∈ fills, ¬ NullArgs r) :
    List.Forall₂ SameFill (normalizeFrom context index (seen.map utf16) (fills.map ReadObject.members)).2 made ↔
      ∀ r ∈ fills, Faithful r := by
  induction fills generalizing index seen made with
  | nil =>
    cases ok
    simp [normalizeFrom]
  | cons r fills ih =>
    obtain ⟨id, handler, args, first, rest⟩ := accepted
    have notNull := List.forall_mem_cons.mp notNull
    rw [List.map_cons, Rust.normalizeFrom, normalizeFill_accepted first, Except.bind, Rust.normalized] at ok
    obtain ⟨others, later⟩ := (@normalizeFrom_accepted modName slotId (index + 1) (id :: seen) fills).mpr rest
    rw [later] at ok
    cases ok
    have clean := clean_iff.mpr ⟨id, handler, args, rfl, rfl, first, notNull.1⟩
    rw [List.map_cons, normalizeFrom, normalizeCommandFill_clean clean, List.forall_mem_cons]
    refine (List.forall₂_cons).trans (and_congr (sameFill_iff first notNull.1) ?_)
    exact @ih (index + 1) (id :: seen) others later rest notNull.2

/-- What lints clean loads clean, on both runtimes and to the same fills. -/
structure LintsAsItLoads (context : FillContext) (modName slotId : List Char) (fills : List ReadObject) : Prop where
  lint : commandDefects (fills.map ReadObject.members) context.slot none = [] ↔
    (normalizeFills context (fills.map ReadObject.members)).1 = []
  load : (normalizeFills context (fills.map ReadObject.members)).1 = [] ↔
    ∃ made, Rust.normalizeCommandFills modName slotId (fills.map fun r => .object r.entries) = .ok made
  same : (∀ r ∈ fills, IntegerPriority r) → ∀ made,
    Rust.normalizeCommandFills modName slotId (fills.map fun r => .object r.entries) = .ok made →
      (normalizeFills context (fills.map ReadObject.members)).1 = [] →
        List.Forall₂ SameFill (normalizeFills context (fills.map ReadObject.members)).2 made

theorem normalizeCommandFills_objects (modName slotId : List Char) (fills : List ReadObject) :
    Rust.normalizeCommandFills modName slotId (fills.map fun r => .object r.entries) =
      Rust.normalizeFrom modName slotId 0 [] (fills.map ReadObject.entries) := by
  rw [Rust.normalizeCommandFills, List.map_map]
  rfl

/-- A list of fills lints as it loads unless every fill passes the checks that read a null `args` as none bound, and one of
them does bind null, or, the priorities being integers, states a null `input` or `output` or a priority the two hold apart. -/
theorem lintsAsItLoads_iff (context : FillContext) (modName slotId : List Char) (fills : List ReadObject) :
    LintsAsItLoads context modName slotId fills ↔
      (AcceptedAll [] fills → (∀ r ∈ fills, ¬ NullArgs r) ∧
        ((∀ r ∈ fills, IntegerPriority r) → ∀ r ∈ fills, Faithful r)) := by
  have clean : (normalizeFills context (fills.map ReadObject.members)).1 = [] ↔
      AcceptedAll [] fills ∧ ∀ r ∈ fills, ¬ NullArgs r := normalizeFrom_nil_iff.trans (@cleanAll_iff [] fills)
  have ok : (∃ made, Rust.normalizeCommandFills modName slotId (fills.map fun r => .object r.entries) = .ok made) ↔
      AcceptedAll [] fills := by
    rw [normalizeCommandFills_objects]
    exact normalizeFrom_accepted
  constructor
  · intro loads accepted
    obtain ⟨made, built⟩ := ok.mpr accepted
    have nothing := loads.load.mpr ⟨made, built⟩
    have notNull := (clean.mp nothing).2
    refine ⟨notNull, fun integer => ?_⟩
    have same := loads.same integer made built nothing
    rw [normalizeCommandFills_objects] at built
    exact (normalizeFrom_same built accepted notNull).mp same
  · intro sound
    refine ⟨defectsFrom_nil_iff.trans normalizeFrom_nil_iff.symm, ?_, fun integer made built nothing => ?_⟩
    · rw [clean, ok]
      exact ⟨And.left, fun accepted => ⟨accepted, (sound accepted).1⟩⟩
    · obtain ⟨accepted, notNull⟩ := clean.mp nothing
      rw [normalizeCommandFills_objects] at built
      exact (normalizeFrom_same built accepted notNull).mpr ((sound accepted).2 integer)

/-- A fill whose `args` is null. -/
def nullArgs : ReadObject where
  entries := [("id".toList, .string "go".toList), ("handler".toList, .string "run".toList), ("args".toList, .null)]
  members := [(js "id", .str (js "go")), (js "handler", .str (js "run")), (js "args", .null)]
  same := .object (by decide) (.refl _) rfl (.cons (.string _) (.cons (.string _) (.cons .null .nil)))

/-- The linter and the JavaScript runtime reject it, and the Rust runtime loads it. -/
theorem nullArgs_lints : ¬ ∀ (context : FillContext) (modName slotId : List Char) (fills : List ReadObject),
    LintsAsItLoads context modName slotId fills := by
  intro all
  have loads := (all ⟨js "mod", js "commands", none, []⟩ "mod".toList "commands".toList [nullArgs]).load
  have rejected : (normalizeFills ⟨js "mod", js "commands", none, []⟩ [nullArgs.members]).1 ≠ [] := by decide
  exact rejected (loads.mpr ⟨_, rfl⟩)

end Commands

end Xript
