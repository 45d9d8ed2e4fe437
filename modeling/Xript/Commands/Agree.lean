import Xript.Commands.Fills
import Xript.Expr.RustLexerAgrees
import Xript.Ops.NodeRef

namespace Xript

namespace Commands

/-- The number JavaScript reads where Rust reads this one. -/
def toF64 : Serde.Number → F64
  | .posInt n => .ofNat n.toNat
  | .negInt n => .ofInt n.toInt
  | .float x => .finite x

/-- One JSON value as the two languages read it. Objects enumerate their members in orders of their own. -/
inductive SameJson : Serde.Value → Json → Prop
  | null : SameJson .null .null
  | bool (b : Bool) : SameJson (.bool b) (.bool b)
  | number (n : Serde.Number) : SameJson (.number n) (.num (toF64 n))
  | string (s : List Char) : SameJson (.string s) (.str (utf16 s))
  | array {values : List Serde.Value} {items : List Json} : List.Forall₂ SameJson values items →
    SameJson (.array values) (.arr items)
  | object {entries : List (List Char × Serde.Value)} {members members' : Record Json} (unique : (entries.map Prod.fst).Nodup)
    (reordered : members.Perm members') (named : members'.map Prod.fst = entries.map fun entry => utf16 entry.1) :
    List.Forall₂ SameJson (entries.map Prod.snd) (members'.map Prod.snd) → SameJson (.object entries) (.obj members)

/-- A JSON object as the two languages read it. -/
structure ReadObject where
  entries : List (List Char × Serde.Value)
  members : Record Json
  same : SameJson (.object entries) (.obj members)

theorem lookup_named {entries : List (List Char × Serde.Value)} {members : Record Json}
    (named : members.map Prod.fst = entries.map fun entry => utf16 entry.1)
    (values : List.Forall₂ SameJson (entries.map Prod.snd) (members.map Prod.snd)) (key : List Char) :
    Option.Rel SameJson (entries.lookup key) (Record.get members (utf16 key)) := by
  induction entries generalizing members with
  | nil =>
    obtain rfl : members = [] := List.map_eq_nil_iff.mp named
    exact .none
  | cons entry entries ih =>
    cases members with
    | nil => exact absurd named.symm (List.cons_ne_nil _ _)
    | cons head members =>
      obtain ⟨name, value⟩ := entry
      obtain ⟨name', value'⟩ := head
      simp only [List.map_cons, List.cons.injEq] at named
      simp only [List.map_cons, List.forall₂_cons] at values
      obtain ⟨rfl, named⟩ := named
      rw [Record.get, List.lookup_cons, List.lookup_cons]
      by_cases found : key = name
      · subst found
        rw [beq_self_eq_true, beq_self_eq_true]
        exact .some values.1
      · have apart : (utf16 key == utf16 name) = false := by simpa [utf16_inj] using found
        rw [apart, show (key == name) = false by simpa using found]
        exact ih named values.2

/-- The member of a name, where either has one. -/
theorem SameJson.lookup {entries : List (List Char × Serde.Value)} {members : Record Json}
    (same : SameJson (.object entries) (.obj members)) (key : List Char) :
    Option.Rel SameJson (entries.lookup key) (Record.get members (utf16 key)) := by
  cases same with
  | object unique reordered named values =>
    rename_i members'
    have distinct : (Record.keys members').Nodup := by
      have units : Function.Injective utf16 := fun _ _ => utf16_inj.1
      have mapped : (entries.map fun entry => utf16 entry.1) = (entries.map Prod.fst).map utf16 := by simp
      rw [Record.keys, named, mapped]
      exact unique.map units
    rw [Record.get_perm (((reordered.map Prod.fst).nodup_iff).2 distinct) reordered]
    exact lookup_named named values key

/-- A fill the checks have nothing to say of, after fills with the ids `seen`. -/
structure Clean (seen : List JSString) (fill : Record Json) (id handler : JSString) : Prop where
  ungated : fill.get (js "capability") = none
  handled : (handlerOf fill).filter (· ≠ []) = some handler
  named : (idOf fill).filter isCommandId = some id
  fresh : id ∉ seen
  shaped : argsMisshapen fill = false
  bound : unboundKeys fill = []

def CleanAll : List JSString → List (Record Json) → Prop
  | _, [] => True
  | seen, fill :: fills => ∃ id handler, Clean seen fill id handler ∧ CleanAll (id :: seen) fills

theorem fillDefects_clean {slot : JSString} {index : Nat} {seen : List JSString} {fill : Record Json} {id handler : JSString}
    (clean : Clean seen fill id handler) : fillDefects slot none index seen fill = ([], id :: seen) := by
  unfold fillDefects
  rw [if_neg (by simp [clean.ungated]), clean.handled, clean.named]
  dsimp only
  rw [if_neg clean.fresh, if_neg (by simp [clean.shaped]), clean.bound]
  rfl

theorem fillDefects_nil {slot : JSString} {index : Nat} {seen : List JSString} {fill : Record Json}
    (nothing : (fillDefects slot none index seen fill).1 = []) : ∃ id handler, Clean seen fill id handler := by
  unfold fillDefects at nothing
  split at nothing
  · cases nothing
  · rename_i ungated
    split at nothing
    · cases nothing
    · rename_i handler handled
      split at nothing
      · cases nothing
      · rename_i id named
        split at nothing
        · cases nothing
        · rename_i fresh
          split at nothing
          · cases nothing
          · rename_i shaped
            have bound := List.map_eq_nil_iff.mp (List.append_eq_nil_iff.mp nothing).1
            exact ⟨id, handler, by simpa using ungated, handled, named, fresh, by simpa using shaped, bound⟩

theorem normalizeCommandFill_clean {context : FillContext} {index : Nat} {seen : List JSString} {fill : Record Json}
    {id handler : JSString} (clean : Clean seen fill id handler) :
    normalizeCommandFill context index seen fill = ([], some (context.normalized fill id handler), id :: seen) := by
  unfold normalizeCommandFill
  rw [if_neg (by simp [clean.ungated]), clean.handled, clean.named]
  dsimp only
  rw [if_neg clean.fresh, if_neg (by simp [clean.shaped]), if_neg (by simp [clean.bound])]

theorem normalizeCommandFill_nil {context : FillContext} {index : Nat} {seen : List JSString} {fill : Record Json}
    (nothing : (normalizeCommandFill context index seen fill).1 = []) : ∃ id handler, Clean seen fill id handler := by
  unfold normalizeCommandFill at nothing
  split at nothing
  · cases nothing
  · rename_i ungated
    split at nothing
    · cases nothing
    · rename_i handler handled
      split at nothing
      · cases nothing
      · rename_i id named
        split at nothing
        · cases nothing
        · rename_i fresh
          split at nothing
          · cases nothing
          · rename_i shaped
            split at nothing
            · rename_i unbound
              exact absurd (List.map_eq_nil_iff.mp nothing) unbound
            · rename_i bound
              exact ⟨id, handler, by simpa using ungated, handled, named, fresh, by simpa using shaped, by simpa using bound⟩

theorem defectsFrom_nil_iff {slot : JSString} {index : Nat} {seen : List JSString} {fills : List (Record Json)} :
    defectsFrom slot none index seen fills = [] ↔ CleanAll seen fills := by
  induction fills generalizing index seen with
  | nil => simp [defectsFrom, CleanAll]
  | cons fill fills ih =>
    rw [defectsFrom, List.append_eq_nil_iff, CleanAll]
    constructor
    · rintro ⟨first, rest⟩
      obtain ⟨id, handler, clean⟩ := fillDefects_nil first
      rw [fillDefects_clean clean] at rest
      exact ⟨id, handler, clean, ih.mp rest⟩
    · rintro ⟨id, handler, clean, rest⟩
      rw [fillDefects_clean clean]
      exact ⟨rfl, ih.mpr rest⟩

theorem normalizeFrom_nil_iff {context : FillContext} {index : Nat} {seen : List JSString} {fills : List (Record Json)} :
    (normalizeFrom context index seen fills).1 = [] ↔ CleanAll seen fills := by
  induction fills generalizing index seen with
  | nil => simp [normalizeFrom, CleanAll]
  | cons fill fills ih =>
    rw [normalizeFrom, List.append_eq_nil_iff, CleanAll]
    constructor
    · rintro ⟨first, rest⟩
      obtain ⟨id, handler, clean⟩ := normalizeCommandFill_nil first
      rw [normalizeCommandFill_clean clean] at rest
      exact ⟨id, handler, clean, ih.mp rest⟩
    · rintro ⟨id, handler, clean, rest⟩
      rw [normalizeCommandFill_clean clean]
      exact ⟨rfl, ih.mpr rest⟩

theorem isIdRest_ascii : Ascii isIdRest := by
  intro u rest
  simp only [isIdRest, isLower, isDigit, Bool.or_eq_true, decide_eq_true_eq, Bool.and_eq_true] at rest
  omega

theorem isLower_char (c : Char) : isLower c.toNat = c.isLower := by
  delta Char.isLower
  simp [isLower, UInt32.le_iff_toNat_le]

theorem isIdRest_char (c : Char) : isIdRest c.toNat = Rust.isIdRest c := by
  have dot : (c.toNat = 46) = (c = '.') := propext ⟨fun same => Char.toNat_inj.mp same, fun same => by rw [same]; rfl⟩
  have dash : (c.toNat = 45) = (c = '-') := propext ⟨fun same => Char.toNat_inj.mp same, fun same => by rw [same]; rfl⟩
  simp only [isIdRest, Rust.isIdRest, isLower_char, isDigit_char, dot, dash]

theorem isCommandId_utf16 (s : List Char) : isCommandId (utf16 s) = Rust.isValidCommandId s := by
  cases s with
  | nil => rfl
  | cons c s =>
    by_cases inAscii : c.toNat < 128
    · rw [utf16_cons_ascii inAscii]
      simp only [isCommandId, Rust.isValidCommandId, isLower_char, all_utf16 isIdRest_ascii, isIdRest_char]
    · obtain ⟨u, t, units, -, high⟩ := unitsOf_head c.toNat
      have above := high (by omega)
      have notLower : isLower u = false := by simp [isLower]; omega
      have notLower' : c.isLower = false := by rw [← isLower_char]; simp [isLower]; omega
      rw [utf16_cons, units]
      simp only [isCommandId, Rust.isValidCommandId, List.cons_append, notLower, notLower', Bool.false_and]

theorem ReadObject.get (r : ReadObject) (key : String) : Option.Rel SameJson (Rust.get r.entries key) (r.members.get (js key)) :=
  r.same.lookup key.toList

theorem SameJson.text {value : Serde.Value} {json : Json} (same : SameJson value json) :
    text json = value.asStr.map utf16 := by
  cases same <;> rfl

theorem ReadObject.text (r : ReadObject) (key : String) :
    (r.members.get (js key)).bind Commands.text = (Rust.optionalString r.entries key).map utf16 := by
  have alike := r.get key
  unfold Rust.optionalString
  generalize Rust.get r.entries key = value, r.members.get (js key) = json at alike
  cases alike with
  | none => rfl
  | some same => exact same.text

theorem isSome_alike {value : Option Serde.Value} {json : Option Json} (alike : Option.Rel SameJson value json) :
    value.isSome = json.isSome := by
  cases alike <;> rfl

/-- A fill that the checks pass where a null `args` is read as none bound, after fills with the ids `seen`. -/
structure Accepted (seen : List (List Char)) (r : ReadObject) (id handler : List Char)
    (args : List (List Char × Serde.Value)) : Prop where
  ungated : Rust.get r.entries "capability" = none
  handled : Rust.get r.entries "handler" = some (.string handler)
  nonempty : handler ≠ []
  named : Rust.get r.entries "id" = some (.string id)
  wellFormed : Rust.isValidCommandId id = true
  fresh : id ∉ seen
  shaped : Rust.readArgs r.entries = some args
  bound : Rust.unboundKey (Rust.present r.entries "input") args = none

def AcceptedAll : List (List Char) → List ReadObject → Prop
  | _, [] => True
  | seen, r :: fills => ∃ id handler args, Accepted seen r id handler args ∧ AcceptedAll (id :: seen) fills

def NullArgs (r : ReadObject) : Prop := Rust.get r.entries "args" = some .null

theorem optionalString_eq_some {fill : Rust.Fill} {key : String} {s : List Char} :
    Rust.optionalString fill key = some s ↔ Rust.get fill key = some (.string s) := by
  rw [Rust.optionalString, Option.bind_eq_some_iff]
  constructor
  · rintro ⟨value, found, read⟩
    cases value <;> cases read
    exact found
  · intro found
    exact ⟨_, found, rfl⟩

theorem normalizeFill_accepted {modName slotId : List Char} {index : Nat} {seen : List (List Char)} {r : ReadObject}
    {id handler : List Char} {args : List (List Char × Serde.Value)} (accepted : Accepted seen r id handler args) :
    Rust.normalizeFill modName slotId index seen r.entries =
      .ok (Rust.normalized modName slotId r.entries id handler args) := by
  unfold Rust.normalizeFill
  dsimp only
  rw [if_neg (by simp [accepted.ungated]), optionalString_eq_some.mpr accepted.handled,
    optionalString_eq_some.mpr accepted.named, Option.filter_some_pos (by simpa using accepted.nonempty)]
  dsimp only
  rw [Option.filter_some_pos accepted.wellFormed]
  dsimp only
  rw [if_neg accepted.fresh, accepted.shaped]
  dsimp only
  rw [accepted.bound]

theorem normalizeFill_ok {modName slotId : List Char} {index : Nat} {seen : List (List Char)} {r : ReadObject}
    {made : Rust.CommandFill} (ok : Rust.normalizeFill modName slotId index seen r.entries = .ok made) :
    ∃ id handler args, Accepted seen r id handler args ∧
      made = Rust.normalized modName slotId r.entries id handler args := by
  unfold Rust.normalizeFill at ok
  dsimp only at ok
  split at ok
  · cases ok
  · rename_i ungated
    split at ok
    · cases ok
    · rename_i handler handled
      split at ok
      · cases ok
      · rename_i id named
        split at ok
        · cases ok
        · rename_i fresh
          split at ok
          · cases ok
          · rename_i args shaped
            split at ok
            · cases ok
            · rename_i bound
              have handled := Option.filter_eq_some_iff.mp handled
              have named := Option.filter_eq_some_iff.mp named
              exact ⟨id, handler, args, ⟨by simpa using ungated, optionalString_eq_some.mp handled.1, by simpa using handled.2,
                optionalString_eq_some.mp named.1, named.2, fresh, shaped, bound⟩, (Except.ok.inj ok).symm⟩

theorem SameJson.keys {entries : List (List Char × Serde.Value)} {members : Record Json}
    (same : SameJson (.object entries) (.obj members)) (key : JSString) :
    key ∈ Record.keys members ↔ ∃ name ∈ entries.map Prod.fst, utf16 name = key := by
  cases same with
  | object unique reordered named values =>
    rw [Record.keys, (reordered.map Prod.fst).mem_iff, named]
    simp

theorem SameJson.declares {entries : List (List Char × Serde.Value)} {members : Record Json}
    (same : SameJson (.object entries) (.obj members)) (name : List Char) :
    utf16 name ∈ Record.keys members ↔ (entries.lookup name).isSome = true := by
  rw [isSome_alike (same.lookup name), ← not_iff_not, ← Record.get_eq_none]
  simp

theorem declares_alike {value : Option Serde.Value} {json : Option Json} (alike : Option.Rel SameJson value json)
    (name : List Char) : utf16 name ∈ ((json.bind plainObject).getD []).keys ↔
      ((value.bind Serde.Value.asObject).any fun props => (props.lookup name).isSome) = true := by
  cases alike with
  | none => simp [Record.keys]
  | some same =>
    cases same with
    | null => simp [Record.keys, plainObject, Serde.Value.asObject]
    | bool => simp [Record.keys, plainObject, Serde.Value.asObject]
    | number => simp [Record.keys, plainObject, Serde.Value.asObject]
    | string => simp [Record.keys, plainObject, Serde.Value.asObject]
    | array => simp [Record.keys, plainObject, Serde.Value.asObject]
    | object unique reordered named values => exact (SameJson.object unique reordered named values).declares name

theorem false_alike {value : Option Serde.Value} {json : Option Json} (alike : Option.Rel SameJson value json) :
    value.bind Rust.asBool = some false ↔ json = some (.bool false) := by
  cases alike with
  | none => simp
  | some same => cases same <;> simp [Rust.asBool]

/-- What a closed input declares, and that both read it. -/
theorem closed_alike (r : ReadObject) :
    (closedInputKeys r.members = none ∧ ∀ args, Rust.unboundKey (Rust.present r.entries "input") args = none) ∨
      ∃ (closed : List JSString) (declared : List Char → Bool), closedInputKeys r.members = some closed ∧
        (∀ args, Rust.unboundKey (Rust.present r.entries "input") args = (args.map Prod.fst).find? fun key => !declared key) ∧
          ∀ name, utf16 name ∈ closed ↔ declared name = true := by
  have alike := r.get "input"
  unfold closedInputKeys Rust.present
  generalize Rust.get r.entries "input" = value, r.members.get (js "input") = json at alike
  cases alike with
  | none => exact .inl ⟨rfl, fun _ => rfl⟩
  | some same =>
    cases same with
    | null => exact .inl ⟨rfl, fun _ => rfl⟩
    | bool => exact .inl ⟨rfl, fun _ => rfl⟩
    | number => exact .inl ⟨rfl, fun _ => rfl⟩
    | string => exact .inl ⟨rfl, fun _ => rfl⟩
    | array => exact .inl ⟨rfl, fun _ => rfl⟩
    | @object entries members members' unique reordered named values =>
      have same : SameJson (.object entries) (.obj members) := .object unique reordered named values
      have flag := false_alike (same.lookup "additionalProperties".toList)
      by_cases isClosed : (Rust.get entries "additionalProperties").bind Rust.asBool = some false
      · have found : Record.get members (js "additionalProperties") = some (.bool false) := flag.mp isClosed
        refine .inr ⟨_, _, ?_, fun args => if_pos isClosed, declares_alike (same.lookup "properties".toList)⟩
        rw [Option.bind_some, plainObject, Option.bind_some, found]
        rfl
      · have found : Record.get members (js "additionalProperties") ≠ some (.bool false) := fun found => isClosed (flag.mpr found)
        refine .inl ⟨?_, fun args => if_neg isClosed⟩
        rw [Option.bind_some, plainObject, Option.bind_some]
        split
        · rename_i found'
          exact absurd found' found
        · rfl

theorem unbound_alike (r : ReadObject) {args : List (List Char × Serde.Value)} {bound : Record Json}
    (read : boundArgs r.members = bound) (same : ∀ key, key ∈ bound.keys ↔ ∃ name ∈ args.map Prod.fst, utf16 name = key) :
    unboundKeys r.members = [] ↔ Rust.unboundKey (Rust.present r.entries "input") args = none := by
  unfold unboundKeys
  rw [read]
  rcases closed_alike r with ⟨js', rust⟩ | ⟨closed, declared, js', rust, alike⟩
  · rw [js', rust]
    simp
  · rw [js', rust, List.find?_eq_none, List.filter_eq_nil_iff]
    constructor
    · intro within name member
      have inside := within _ ((same _).mpr ⟨name, member, rfl⟩)
      simpa [alike] using inside
    · intro within key member
      obtain ⟨name, member', rfl⟩ := (same key).mp member
      have inside := within name member'
      simpa [alike] using inside

theorem args_alike (r : ReadObject) : (argsMisshapen r.members = false ∧ unboundKeys r.members = []) ↔
    (∃ args, Rust.readArgs r.entries = some args ∧ Rust.unboundKey (Rust.present r.entries "input") args = none) ∧
      ¬ NullArgs r := by
  have alike := r.get "args"
  have unbound := @unbound_alike r
  unfold argsMisshapen NullArgs Rust.readArgs
  unfold boundArgs at unbound
  obtain ⟨value, found⟩ : ∃ value, Rust.get r.entries "args" = value := ⟨_, rfl⟩
  obtain ⟨json, found'⟩ : ∃ json, r.members.get (js "args") = json := ⟨_, rfl⟩
  rw [found'] at unbound
  rw [found, found'] at alike ⊢
  cases alike with
  | none =>
    have agree := @unbound [] [] rfl (by simp [Record.keys])
    simp [agree]
  | some same =>
    cases same with
    | null => simp [plainObject]
    | bool => simp [plainObject]
    | number => simp [plainObject]
    | string => simp [plainObject]
    | array => simp [plainObject]
    | @object entries members members' unique reordered named values =>
      have agree := @unbound entries members rfl (SameJson.object unique reordered named values).keys
      simp [plainObject, agree]

theorem handler_alike (r : ReadObject) {handler : JSString} : (handlerOf r.members).filter (· ≠ []) = some handler ↔
    ∃ name, name ≠ [] ∧ Rust.get r.entries "handler" = some (.string name) ∧ utf16 name = handler := by
  rw [handlerOf, r.text, Option.filter_eq_some_iff, Option.map_eq_some_iff]
  constructor
  · rintro ⟨⟨name, read, rfl⟩, nonempty⟩
    exact ⟨name, by simpa [utf16_eq_nil] using nonempty, optionalString_eq_some.mp read, rfl⟩
  · rintro ⟨name, nonempty, read, rfl⟩
    exact ⟨⟨name, optionalString_eq_some.mpr read, rfl⟩, by simpa [utf16_eq_nil] using nonempty⟩

theorem id_alike (r : ReadObject) {id : JSString} : (idOf r.members).filter isCommandId = some id ↔
    ∃ name, Rust.isValidCommandId name = true ∧ Rust.get r.entries "id" = some (.string name) ∧ utf16 name = id := by
  rw [idOf, r.text, Option.filter_eq_some_iff, Option.map_eq_some_iff]
  constructor
  · rintro ⟨⟨name, read, rfl⟩, valid⟩
    exact ⟨name, isCommandId_utf16 name ▸ valid, optionalString_eq_some.mp read, rfl⟩
  · rintro ⟨name, valid, read, rfl⟩
    exact ⟨⟨name, optionalString_eq_some.mpr read, rfl⟩, (isCommandId_utf16 name).trans valid⟩

/-- JavaScript passes what Rust passes, a null `args` apart. -/
theorem clean_iff {seen : List (List Char)} {r : ReadObject} {id' handler' : JSString} :
    Clean (seen.map utf16) r.members id' handler' ↔ ∃ id handler args, utf16 id = id' ∧ utf16 handler = handler' ∧
      Accepted seen r id handler args ∧ ¬ NullArgs r := by
  have gate := isSome_alike (r.get "capability")
  constructor
  · intro clean
    obtain ⟨handler, nonempty, handled, rfl⟩ := (handler_alike r).mp clean.handled
    obtain ⟨id, wellFormed, named, rfl⟩ := (id_alike r).mp clean.named
    obtain ⟨⟨args, shaped, bound⟩, notNull⟩ := (args_alike r).mp ⟨clean.shaped, clean.bound⟩
    have ungated : Rust.get r.entries "capability" = none := by simpa [clean.ungated] using gate
    have fresh : id ∉ seen := fun member => clean.fresh (List.mem_map_of_mem member)
    exact ⟨id, handler, args, rfl, rfl, ⟨ungated, handled, nonempty, named, wellFormed, fresh, shaped, bound⟩, notNull⟩
  · rintro ⟨id, handler, args, rfl, rfl, accepted, notNull⟩
    obtain ⟨shaped, bound⟩ := (args_alike r).mpr ⟨⟨args, accepted.shaped, accepted.bound⟩, notNull⟩
    refine ⟨by simpa [accepted.ungated] using gate.symm, (handler_alike r).mpr ⟨handler, accepted.nonempty, accepted.handled, rfl⟩,
      (id_alike r).mpr ⟨id, accepted.wellFormed, accepted.named, rfl⟩, ?_, shaped, bound⟩
    intro member
    obtain ⟨other, inside, same⟩ := List.mem_map.mp member
    exact accepted.fresh (utf16_inj.mp same ▸ inside)

theorem cleanAll_iff {seen : List (List Char)} {fills : List ReadObject} :
    CleanAll (seen.map utf16) (fills.map ReadObject.members) ↔ AcceptedAll seen fills ∧ ∀ r ∈ fills, ¬ NullArgs r := by
  induction fills generalizing seen with
  | nil => simp [CleanAll, AcceptedAll]
  | cons r fills ih =>
    rw [List.map_cons, CleanAll, AcceptedAll]
    constructor
    · rintro ⟨id', handler', clean, rest⟩
      obtain ⟨id, handler, args, rfl, rfl, accepted, notNull⟩ := clean_iff.mp clean
      obtain ⟨restAccepted, restNotNull⟩ := (@ih (id :: seen)).mp rest
      exact ⟨⟨id, handler, args, accepted, restAccepted⟩, List.forall_mem_cons.mpr ⟨notNull, restNotNull⟩⟩
    · rintro ⟨⟨id, handler, args, accepted, restAccepted⟩, notNull⟩
      have notNull := List.forall_mem_cons.mp notNull
      exact ⟨_, _, clean_iff.mpr ⟨id, handler, args, rfl, rfl, accepted, notNull.1⟩,
        (@ih (id :: seen)).mpr ⟨restAccepted, notNull.2⟩⟩

end Commands

end Xript
