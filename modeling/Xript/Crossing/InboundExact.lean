import Xript.Crossing.Inbound
import Xript.Json.RoundTrip
import Xript.Number.Decimal

namespace Xript

theorem bigintOf_bigintText (n : Int) : bigintOf (bigintText n) = some n := by
  have digits := decimal_digits n.natAbs
  unfold bigintText
  split
  · rename_i negative
    rw [bigintOf, if_pos ⟨decimal_ne_nil _, digits⟩, readDigits_decimal]
    exact congrArg some (by omega)
  · rename_i positive
    have noSign : ∀ rest, decimal n.natAbs ≠ 45 :: rest := by
      intro rest same
      rw [same] at digits
      cases digits
    rw [bigintOf, if_pos ⟨decimal_ne_nil _, digits⟩, readDigits_decimal]
    · exact congrArg some (by omega)
    · exact fun rest same => noSign rest same

theorem isWellFormed_append {s t : JSString} (first : isWellFormed s = true) (second : isWellFormed t = true) :
    isWellFormed (s ++ t) = true := by
  fun_induction isWellFormed s with
  | case1 => exact second
  | case2 u high v rest ih =>
    obtain ⟨low, paired⟩ := Bool.and_eq_true_iff.mp first
    rw [List.cons_append, List.cons_append, isWellFormed, if_pos high, low, ih paired]
    rfl
  | case3 u high => cases first
  | case4 u rest notHigh ih =>
    obtain ⟨notLow, paired⟩ := Bool.and_eq_true_iff.mp first
    rw [List.cons_append]
    unfold isWellFormed
    rw [if_neg notHigh, notLow, ih paired]
    rfl

theorem cStringSafe_append {s t : JSString} (first : cStringSafe s = true) (second : cStringSafe t = true) :
    cStringSafe (s ++ t) = true := by
  obtain ⟨firstNul, firstFormed⟩ := Bool.and_eq_true_iff.mp first
  obtain ⟨secondNul, secondFormed⟩ := Bool.and_eq_true_iff.mp second
  refine Bool.and_eq_true_iff.mpr ⟨?_, isWellFormed_append firstFormed secondFormed⟩
  simp only [List.contains_append, Bool.not_or, firstNul, secondNul, Bool.and_self]

theorem cStringSafe_flatten {texts : List JSString} (safe : ∀ text ∈ texts, cStringSafe text = true) :
    cStringSafe texts.flatten = true := by
  induction texts with
  | nil => rfl
  | cons text texts ih =>
    exact cStringSafe_append (safe text (List.mem_cons_self ..)) (ih fun other member =>
      safe other (List.mem_cons_of_mem _ member))

/-- A string of ASCII characters other than NUL. -/
theorem cStringSafe_ascii {s : JSString} (ascii : ∀ u ∈ s, 0 < u ∧ u < 128) : cStringSafe s = true := by
  induction s with
  | nil => rfl
  | cons u s ih =>
    obtain ⟨positive, small⟩ := ascii u (List.mem_cons_self ..)
    have unit : cStringSafe [u] = true := by
      have notHigh : ¬(0xD800 ≤ u ∧ u ≤ 0xDBFF) := by omega
      have notLow : ¬(0xDC00 ≤ u ∧ u ≤ 0xDFFF) := by omega
      have notNul : ¬0 = u := by omega
      simp [cStringSafe, isWellFormed, notHigh, notLow, notNul]
    exact cStringSafe_append unit (ih fun v member => ascii v (List.mem_cons_of_mem _ member))

theorem bigintText_safe (n : Int) : cStringSafe (bigintText n) = true := by
  have ascii : ∀ u ∈ decimal n.natAbs, 0 < u ∧ u < 128 := by
    intro u member
    have digit := List.all_eq_true.mp (decimal_digits n.natAbs) u member
    simp only [isDigit, Bool.and_eq_true, decide_eq_true_eq] at digit
    omega
  unfold bigintText
  split
  · refine cStringSafe_ascii fun u member => ?_
    rcases List.mem_cons.mp member with rfl | member
    · omega
    · exact ascii u member
  · exact cStringSafe_ascii ascii

namespace InboundTape

/-- A tape written on. -/
def append (tape piece : InboundTape) : InboundTape :=
  ⟨tape.codes ++ piece.codes, tape.texts ++ piece.texts, tape.numbers ++ piece.numbers, tape.leaves ++ piece.leaves⟩

theorem append_assoc (tape piece rest : InboundTape) :
    (tape.append piece).append rest = tape.append (piece.append rest) := by
  simp only [append, List.append_assoc]

theorem append_empty (tape : InboundTape) : tape.append empty = tape := by
  simp only [append, empty, List.append_nil]

theorem empty_append (tape : InboundTape) : empty.append tape = tape := rfl

theorem code_append (tape : InboundTape) (kind : Nat) : tape.code kind = tape.append (empty.code kind) := by
  simp only [code, append, empty, List.append_nil, List.nil_append]

theorem number_append (tape : InboundTape) (value : F64) : tape.number value = tape.append (empty.number value) := by
  simp only [number, code, append, empty, List.append_nil, List.nil_append]

theorem cycle_append (tape : InboundTape) (up : Nat) : tape.cycle up = tape.append (empty.cycle up) := by
  simp only [cycle, code, append, empty, List.append_nil, List.nil_append]

theorem spelled_append (tape : InboundTape) (kind : Nat) (value : JSString) :
    tape.spelled kind value = tape.append (empty.spelled kind value) := by
  simp only [spelled, code, append, empty, List.append_nil, List.nil_append]

theorem text_append (tape : InboundTape) (value : JSString) : tape.text value = tape.append (empty.text value) := by
  unfold text
  split
  · exact spelled_append tape 115 value
  · simp only [code, append, empty, List.append_nil, List.nil_append]

/-- Whether the texts of a tape cross as C strings. -/
def Safe (tape : InboundTape) : Prop := ∀ text ∈ tape.texts, cStringSafe text = true

theorem Safe.append {tape piece : InboundTape} (safe : tape.Safe) (further : piece.Safe) : (tape.append piece).Safe :=
  fun text member => (List.mem_append.mp member).elim (safe text) (further text)

/-- The piece of a container, by that of its entries. -/
def container (array : Bool) (piece : InboundTape) : InboundTape :=
  ((empty.opens array).append piece).append (empty.closes array)

theorem container_append (tape piece : InboundTape) (array : Bool) :
    ((tape.opens array).append piece).closes array = tape.append (container array piece) := by
  rw [container, ← append_assoc, ← append_assoc, opens, code_append tape, closes, code_append (InboundTape.append _ _)]
  rfl

theorem Safe.container {piece : InboundTape} (safe : piece.Safe) (array : Bool) : (container array piece).Safe := by
  refine Safe.append (Safe.append ?_ safe) ?_ <;> exact fun text none => nomatch none

theorem safe_empty_text (value : JSString) : (empty.text value).Safe := by
  unfold text
  split
  · rename_i safe
    intro text member
    obtain rfl := List.mem_singleton.mp member
    exact safe
  · exact fun text member => nomatch member

end InboundTape

namespace DecodeState

/-- A state before a piece of a tape, of which it has the rest already. -/
def fed (s : DecodeState) (piece : InboundTape) : DecodeState :=
  { s with
    numbers := piece.numbers ++ s.numbers
    text := piece.texts.flatten ++ s.text
    leaves := piece.leaves ++ s.leaves }

theorem fed_append (s : DecodeState) (piece rest : InboundTape) :
    s.fed (piece.append rest) = (s.fed rest).fed piece := by
  simp only [fed, InboundTape.append, List.append_assoc, List.flatten_append]

theorem fed_empty (s : DecodeState) : s.fed .empty = s := rfl

def targets (s : DecodeState) : List Nat := s.frames.map DecodeFrame.target

/-- A state inside so many containers, each allocated before what is still free. -/
structure Inside (s : DecodeState) (count : Nat) : Prop where
  count : s.targets.length = count
  distinct : s.targets.Nodup
  allocated : ∀ ref ∈ s.targets, ref < s.fresh

end DecodeState

open DecodeState

/-- What a piece of a tape is for: read from any state, it builds a value in cells of its own that shows a tree,
whatever becomes of the other cells. -/
def Delivers (depth count : Nat) (piece : InboundTape) (tree : JsTree) : Prop :=
  ∀ s : DecodeState, s.Inside count → ∃ heap fresh value,
    piece.codes.foldlM DecodeState.read (s.fed piece) = receive { s with heap := heap, fresh := fresh } value ∧
      s.fresh ≤ fresh ∧ (∀ ref < s.fresh, heap ref = s.heap ref) ∧
      ∀ later : Heap, (∀ ref, s.fresh ≤ ref → ref < fresh → later ref = heap ref) →
        unfold .hole later depth s.targets value = some tree

/-- A piece that is one code reading one value without a container. -/
theorem delivers_leaf {depth count : Nat} {piece : InboundTape} {value : GraphValue} {tree : JsTree}
    (shows : ∀ (later : Heap) (targets : List Nat), targets.length = count →
      targets.Nodup → unfold .hole later depth targets value = some tree)
    (reads : ∀ s : DecodeState, s.Inside count →
      piece.codes.foldlM DecodeState.read (s.fed piece) = s.receive value) :
    Delivers depth count piece tree :=
  fun s inside => ⟨s.heap, s.fresh, value, reads s inside, Nat.le_refl _, fun _ _ => rfl,
    fun later _ => shows later s.targets inside.count inside.distinct⟩

theorem readText_fed (s : DecodeState) (kind : Nat) (value : JSString) :
    (s.fed (InboundTape.empty.spelled kind value)).readText = some (value, s) := by
  simp only [fed, readText, nextCount, InboundTape.spelled, InboundTape.code, InboundTape.empty, List.nil_append,
    List.singleton_append, Option.map_some, List.flatten_cons, List.flatten_nil, List.append_nil, List.take_left,
    List.drop_left]

theorem countsOf_counts (units : JSString) : countsOf (units.map TapeNumber.count) = some units := by
  induction units with
  | nil => rfl
  | cons u units ih => rw [List.map_cons, countsOf, ih]; rfl

/-- Reading a string, by its text or by its units. -/
theorem read_text (s : DecodeState) (value : JSString) :
    (InboundTape.empty.text value).codes.foldlM DecodeState.read (s.fed (InboundTape.empty.text value)) =
      s.receive (.prim (.str value)) := by
  unfold InboundTape.text
  split
  · show DecodeState.read (s.fed (InboundTape.empty.spelled 115 value)) 115 >>= some = _
    rw [DecodeState.read, readText_fed]
    exact Option.bind_fun_some _
  · have units : (s.fed { InboundTape.empty.code 119 with
        numbers := InboundTape.empty.numbers ++ .count value.length :: value.map .count }).readUnits =
          some (value, s) := by
      have taken : ((value.map TapeNumber.count) ++ s.numbers).take value.length = value.map .count := by
        rw [List.take_append_of_le_length (by simp), List.take_of_length_le (by simp)]
      have dropped : ((value.map TapeNumber.count) ++ s.numbers).drop value.length = s.numbers := by
        rw [List.drop_append_of_le_length (by simp), List.drop_of_length_le (by simp), List.nil_append]
      simp only [fed, readUnits, nextCount, InboundTape.empty, InboundTape.code, List.nil_append, List.cons_append,
        Option.bind_some, taken, countsOf_counts, Option.map_some, dropped, List.flatten_nil]
    show DecodeState.read _ 119 >>= some = _
    rw [DecodeState.read, units]
    exact Option.bind_fun_some _

/-- An element of an array, delivered to the array that is being filled. -/
theorem receive_element {s : DecodeState} {ref length : Nat} {frames : List DecodeFrame}
    {items : List (Option GraphValue)} (inside : s.frames = ⟨ref, true, length, none⟩ :: frames)
    (filled : s.heap ref = .array items) (value : GraphValue) :
    s.receive value = some { s with
      heap := Function.update s.heap ref (.array (items ++ [some value]))
      frames := ⟨ref, true, length + 1, none⟩ :: frames } := by
  rw [receive, inside]
  simp only [filled, placed, Option.map_some]

/-- A key of an object, delivered to the object that is being filled. -/
theorem receive_key {s : DecodeState} {ref length : Nat} {frames : List DecodeFrame}
    (inside : s.frames = ⟨ref, false, length, none⟩ :: frames) (key : JSString) :
    s.receive (.prim (.str key)) = some { s with frames := ⟨ref, false, length, some key⟩ :: frames } := by
  have same : placed (s.heap ref) ⟨ref, false, length, none⟩ (.prim (.str key)) =
      some (s.heap ref, ⟨ref, false, length, some key⟩) := by
    unfold placed
    cases s.heap ref <;> rfl
  rw [receive, inside]
  simp only [same, Option.map_some, Function.update_eq_self]

/-- The value of a member. -/
theorem receive_member {s : DecodeState} {ref length : Nat} {key : JSString} {frames : List DecodeFrame}
    {members : Record GraphValue} (inside : s.frames = ⟨ref, false, length, some key⟩ :: frames)
    (filled : s.heap ref = .object members) (value : GraphValue) :
    s.receive value = some { s with
      heap := Function.update s.heap ref (.object (members.set key value))
      frames := ⟨ref, false, length, none⟩ :: frames } := by
  rw [receive, inside]
  simp only [filled, placed, Option.map_some]

section

variable (array : Bool) (grow : List GraphValue → Cell)

/-- What the piece of one entry does, from a state whose innermost container is being filled so: it fills it on by a
value that shows a tree. `grow` is the container by its values so far, which are `done`. -/
def DeliversEntry (done depth count : Nat) (piece : InboundTape) (tree : JsTree) : Prop :=
  ∀ (s : DecodeState) (ref length : Nat) (frames : List DecodeFrame) (values : List GraphValue),
    s.Inside (count + 1) → s.frames = ⟨ref, array, length, none⟩ :: frames → values.length = done →
    s.heap ref = grow values → ∃ heap fresh length' value,
      piece.codes.foldlM DecodeState.read (s.fed piece) = some { s with
        heap := Function.update heap ref (grow (values ++ [value]))
        fresh := fresh
        frames := ⟨ref, array, length', none⟩ :: frames } ∧
      s.fresh ≤ fresh ∧ (∀ other < s.fresh, heap other = s.heap other) ∧
      ∀ later : Heap, (∀ other, s.fresh ≤ other → other < fresh → later other = heap other) →
        unfold .hole later depth s.targets value = some tree

/-- The same for the entries from `done` on, one after another. -/
def DeliversEntries (done depth count : Nat) (piece : InboundTape) (trees : List JsTree) : Prop :=
  ∀ (s : DecodeState) (ref length : Nat) (frames : List DecodeFrame) (values : List GraphValue),
    s.Inside (count + 1) → s.frames = ⟨ref, array, length, none⟩ :: frames → values.length = done →
    s.heap ref = grow values → ∃ heap fresh length', ∃ further : List GraphValue,
      piece.codes.foldlM DecodeState.read (s.fed piece) = some { s with
        heap := heap, fresh := fresh, frames := ⟨ref, array, length', none⟩ :: frames } ∧
      s.fresh ≤ fresh ∧ heap ref = grow (values ++ further) ∧
      (∀ other < s.fresh, other ≠ ref → heap other = s.heap other) ∧
      ∀ later : Heap, (∀ other, s.fresh ≤ other → other < fresh → later other = heap other) →
        further.mapM (unfold .hole later depth s.targets) = some trees

variable {array grow}

theorem deliversEntries_nil (done depth count : Nat) : DeliversEntries array grow done depth count .empty [] := by
  intro s ref length frames values _ inside _ filled
  refine ⟨s.heap, s.fresh, length, [], ?_, Nat.le_refl _, ?_, fun _ _ _ => rfl, fun _ _ => rfl⟩
  · rw [fed_empty, ← inside]
    rfl
  · rw [filled, List.append_nil]

theorem deliversEntries_cons {done depth count : Nat} {piece rest : InboundTape} {tree : JsTree} {trees : List JsTree}
    (first : DeliversEntry array grow done depth count piece tree)
    (others : DeliversEntries array grow (done + 1) depth count rest trees) :
    DeliversEntries array grow done depth count (piece.append rest) (tree :: trees) := by
  intro s ref length frames values within inside counted filled
  have allocated : ref < s.fresh := within.allocated ref (by rw [targets, inside]; exact List.mem_cons_self ..)
  obtain ⟨heap, fresh, length₁, value, ran, grew, kept, shows⟩ := first (s.fed rest) ref length frames values
    ⟨within.count, within.distinct, within.allocated⟩ inside counted filled
  let next : DecodeState := { s with
    heap := Function.update heap ref (grow (values ++ [value]))
    fresh := fresh
    frames := ⟨ref, array, length₁, none⟩ :: frames }
  have sameTargets : next.targets = s.targets := by
    rw [targets, targets, inside]
    rfl
  have within' : next.Inside (count + 1) :=
    ⟨sameTargets ▸ within.count, sameTargets ▸ within.distinct,
      fun other member => Nat.lt_of_lt_of_le (within.allocated other (sameTargets ▸ member)) grew⟩
  obtain ⟨heap', fresh', length', further, ran', grew', here', kept', shows'⟩ :=
    others next ref length₁ frames (values ++ [value]) within' rfl (by rw [List.length_append, counted]; rfl)
      (Function.update_self ..)
  refine ⟨heap', fresh', length', value :: further, ?_, Nat.le_trans grew grew', ?_, ?_, ?_⟩
  · show (piece.codes ++ rest.codes).foldlM DecodeState.read (s.fed (piece.append rest)) = _
    rw [List.foldlM_append, fed_append, ran]
    exact ran'
  · rw [here', List.append_assoc, List.singleton_append]
  · intro other below different
    rw [kept' other (Nat.lt_of_lt_of_le below grew) different]
    show Function.update heap ref _ other = _
    rw [Function.update_of_ne different]
    exact kept other below
  · intro later agrees
    have firstShows := shows later fun other above below => by
      have different : other ≠ ref := fun same => absurd allocated (Nat.not_lt.mpr (same ▸ above))
      rw [agrees other above (Nat.lt_of_lt_of_le below grew'), kept' other below different]
      exact Function.update_of_ne different _ _
    have othersShow := shows' later fun other above below => agrees other (Nat.le_trans grew above) below
    rw [sameTargets] at othersShow
    rw [List.mapM_cons, othersShow]
    show (unfold .hole later depth s.targets value).bind _ = _
    rw [show unfold .hole later depth s.targets value = some tree from firstShows]
    rfl

end

theorem deliversEntry_element {done depth count : Nat} {piece : InboundTape} {tree : JsTree}
    (delivers : Delivers depth (count + 1) piece tree) :
    DeliversEntry true (fun values => .array (values.map some)) done depth count piece tree := by
  intro s ref length frames values within inside _ filled
  have allocated : ref < s.fresh := within.allocated ref (by rw [targets, inside]; exact List.mem_cons_self ..)
  obtain ⟨heap, fresh, value, ran, grew, kept, shows⟩ := delivers s within
  refine ⟨heap, fresh, length + 1, value, ?_, grew, kept, shows⟩
  have here : heap ref = .array (values.map some) := (kept ref allocated).trans filled
  have received := receive_element (s := { s with heap := heap, fresh := fresh }) inside here value
  rw [ran, received]
  simp only [List.map_append, List.map_cons, List.map_nil]

/-- A member's key, then its value. -/
theorem deliversEntry_member {keys : List JSString} {key : JSString} {done depth count : Nat} {piece : InboundTape}
    {tree : JsTree} (distinct : ∀ values : List GraphValue, values.length = done →
      ∀ value, Record.set (keys.zip values) key value = keys.zip (values ++ [value]))
    (delivers : Delivers depth (count + 1) piece tree) :
    DeliversEntry false (fun values => .object (keys.zip values)) done depth count
      ((InboundTape.empty.text key).append piece) tree := by
  intro s ref length frames values within inside counted filled
  have allocated : ref < s.fresh := within.allocated ref (by rw [targets, inside]; exact List.mem_cons_self ..)
  have sameTargets : targets { s with frames := ⟨ref, false, length, some key⟩ :: frames } = s.targets := by
    rw [targets, targets, inside]
    rfl
  have within' : Inside { s with frames := ⟨ref, false, length, some key⟩ :: frames } (count + 1) :=
    ⟨sameTargets ▸ within.count, sameTargets ▸ within.distinct, fun other member =>
      within.allocated other (sameTargets ▸ member)⟩
  obtain ⟨heap, fresh, value, ran, grew, kept, shows⟩ := delivers _ within'
  refine ⟨heap, fresh, length, value, ?_, grew, kept, fun later agrees => sameTargets ▸ shows later agrees⟩
  have here : heap ref = .object (keys.zip values) := (kept ref allocated).trans filled
  show ((InboundTape.empty.text key).codes ++ piece.codes).foldlM DecodeState.read _ = _
  rw [List.foldlM_append, fed_append, read_text, receive_key (s := s.fed piece) inside]
  show piece.codes.foldlM DecodeState.read _ = _
  have received := receive_member (s := { s with
    heap := heap, fresh := fresh, frames := ⟨ref, false, length, some key⟩ :: frames }) rfl here value
  rw [distinct values counted value] at received
  exact ran.trans received

/-- A container: its opening, its entries and its closing. -/
theorem delivers_container {array : Bool} {grow : List GraphValue → Cell} {depth count : Nat} {piece : InboundTape}
    {trees : List JsTree} {tree : JsTree} (fresh : grow [] = if array then .array [] else .object [])
    (entries : DeliversEntries array grow 0 depth count piece trees)
    (shape : ∀ (later : Heap) (targets : List Nat) (ref : Nat) (values : List GraphValue), later ref = grow values →
      ref ∉ targets → values.mapM (unfold .hole later depth (ref :: targets)) = some trees →
      unfold .hole later (depth + 1) targets (.object ref) = some tree) :
    Delivers (depth + 1) count (.container array piece) tree := by
  intro s within
  have fed : s.fed (.container array piece) = s.fed piece := by
    rw [InboundTape.container, fed_append, fed_append]
    rfl
  have outside : s.fresh ∉ s.targets := fun member => absurd (within.allocated _ member) (Nat.lt_irrefl _)
  have within' : (s.opened array).Inside (count + 1) := by
    refine ⟨?_, List.nodup_cons.mpr ⟨outside, within.distinct⟩, fun ref member => ?_⟩
    · show (s.fresh :: s.targets).length = count + 1
      rw [List.length_cons, within.count]
    · rcases List.mem_cons.mp member with rfl | member
      · exact Nat.lt_succ_self _
      · exact Nat.lt_succ_of_lt (within.allocated ref member)
  obtain ⟨heap, fresh', length, values, ran, grew, here, kept, shows⟩ := entries (s.opened array) s.fresh 0 s.frames []
    within' rfl rfl ((Function.update_self ..).trans fresh.symm)
  refine ⟨heap, fresh', .object s.fresh, ?_, Nat.le_of_succ_le grew, ?_, ?_⟩
  · rw [fed]
    show ((InboundTape.empty.opens array).codes ++ piece.codes ++ (InboundTape.empty.closes array).codes).foldlM
      DecodeState.read _ = _
    have opening : (InboundTape.empty.opens array).codes.foldlM DecodeState.read (s.fed piece) =
        some ((s.opened array).fed piece) := by
      cases array <;> rfl
    rw [List.foldlM_append, List.foldlM_append, opening]
    show (piece.codes.foldlM DecodeState.read _).bind _ = _
    rw [ran, Option.bind_some]
    cases array <;> exact Option.bind_fun_some _
  · intro ref below
    rw [kept ref (Nat.lt_succ_of_lt below) (Nat.ne_of_lt below)]
    exact Function.update_of_ne (Nat.ne_of_lt below) _ _
  · intro later agrees
    refine shape later s.targets s.fresh values ((agrees s.fresh (Nat.le_refl _) grew).trans here) outside ?_
    exact shows later fun ref above below => agrees ref (Nat.le_of_succ_le above) below

theorem idxOf?_eq_none {ref : Nat} {targets : List Nat} (outside : ref ∉ targets) : targets.idxOf? ref = none := by
  rw [List.idxOf?_eq_none_iff]
  exact outside

theorem unfold_filled_array {depth : Nat} {later : Heap} {targets : List Nat} {ref : Nat} {values : List GraphValue}
    {trees : List JsTree} (here : later ref = .array (values.map some)) (outside : ref ∉ targets)
    (shows : values.mapM (unfold .hole later depth (ref :: targets)) = some trees) :
    unfold .hole later (depth + 1) targets (.object ref) = some (.arr trees) := by
  rw [unfold_array (idxOf?_eq_none outside) here, List.mapM_map]
  show (values.mapM (unfold .hole later depth (ref :: targets))).map _ = _
  rw [shows]
  rfl

/-- The members of an object show the trees of its values. -/
theorem unfold_members (show' : GraphValue → Option JsTree) {keys : List JSString} {values : List GraphValue}
    {trees : List JsTree} (counted : trees.length = keys.length) (shows : values.mapM show' = some trees) :
    ((keys.zip values).mapM fun member => (show' member.2).map (member.1, ·)) = some (keys.zip trees) := by
  induction keys generalizing values trees with
  | nil => rfl
  | cons key keys ih =>
    cases values with
    | nil =>
      obtain rfl := Option.some.inj shows
      cases counted
    | cons value values =>
      rw [List.mapM_cons] at shows
      obtain ⟨tree, first, rest⟩ := Option.bind_eq_some_iff.mp shows
      obtain ⟨others, further, same⟩ := Option.bind_eq_some_iff.mp rest
      obtain rfl := Option.some.inj same
      have counted' : others.length = keys.length := Nat.succ.inj counted
      rw [List.zip_cons_cons, List.mapM_cons, ih counted' further]
      show ((show' value).map (key, ·)).bind _ = _
      rw [first]
      rfl

theorem unfold_filled_object {depth : Nat} {later : Heap} {targets : List Nat} {ref : Nat} {keys : List JSString}
    {values : List GraphValue} {trees : List JsTree} (here : later ref = .object (keys.zip values))
    (outside : ref ∉ targets) (counted : trees.length = keys.length)
    (shows : values.mapM (unfold .hole later depth (ref :: targets)) = some trees) :
    unfold .hole later (depth + 1) targets (.object ref) = some (.obj (keys.zip trees)) := by
  rw [unfold_object (idxOf?_eq_none outside) here, unfold_members _ counted shows]
  rfl

theorem idxOf?_getElem {targets : List Nat} (distinct : targets.Nodup) {above : Nat} (small : above < targets.length) :
    targets.idxOf? targets[above] = some above := by
  rw [List.idxOf?_eq_some_iff]
  refine ⟨small, rfl, fun earlier before same => ?_⟩
  have equal := (distinct.getElem_inj_iff).mp (same : targets[earlier] = targets[above])
  omega

/-- A reference to a container the value is inside. -/
theorem delivers_up {depth count above : Nat} (small : above < count) :
    Delivers depth count (InboundTape.empty.cycle (above + 1)) (.up (above + 1)) := by
  intro s inside
  have small' : above < s.targets.length := inside.count ▸ small
  refine ⟨s.heap, s.fresh, .object s.targets[above], ?_, Nat.le_refl _, fun _ _ => rfl, fun later _ =>
    unfold_up (idxOf?_getElem inside.distinct small')⟩
  have found : s.container (above + 1) = some s.targets[above] := by
    rw [container, ← List.getElem?_map]
    exact List.getElem?_eq_getElem small'
  show DecodeState.read (s.fed _) 99 >>= some = _
  show ((s.container (above + 1)).bind fun ref => s.receive (.object ref)).bind some = _
  rw [found]
  exact Option.bind_fun_some _

namespace InboundTape

/-- The piece of a tape that spells a primitive. -/
def primitive : Primitive → InboundTape
  | .undefined => empty.undefined
  | .null => empty.null
  | .bool b => empty.boolean b
  | .number x => empty.number x
  | .bigint n => empty.bigint n
  | .str value => empty.text value

theorem safe_primitive (p : Primitive) : (primitive p).Safe := by
  cases p with
  | undefined | null | bool | number => exact fun text none => nomatch none
  | bigint n =>
    intro text member
    obtain rfl := List.mem_singleton.mp member
    exact bigintText_safe n
  | str value => exact safe_empty_text value

end InboundTape

theorem delivers_primitive (depth count : Nat) (p : Primitive) :
    Delivers depth count (.primitive p) (.leaf p) := by
  refine delivers_leaf (fun _ _ _ _ => by rw [unfold]) fun s _ => ?_
  cases p with
  | undefined | null | number => exact Option.bind_fun_some _
  | bool b => cases b <;> exact Option.bind_fun_some _
  | bigint n =>
    show (DecodeState.read (s.fed (InboundTape.empty.spelled 98 (bigintText n))) 98).bind some = _
    rw [DecodeState.read, readText_fed]
    show ((bigintOf (bigintText n)).bind fun n => s.receive (.prim (.bigint n))).bind some = _
    rw [bigintOf_bigintText]
    exact Option.bind_fun_some _
  | str value => exact read_text s value

section

variable (resolvers : Resolvers) (heap : Heap) (bindingName : JSString)

theorem spell_primitive (room : Nat) (ancestors : List Nat) (p : Primitive) (top : Bool) (tape : InboundTape) :
    spell resolvers heap bindingName room ancestors (.prim p) top tape = .ok (tape.append (.primitive p)) := by
  cases p with
  | undefined => rw [spell]; exact congrArg Except.ok (tape.code_append 117)
  | null => rw [spell]; exact congrArg Except.ok (tape.code_append 110)
  | bool b => rw [spell]; exact congrArg Except.ok (tape.code_append _)
  | number x => rw [spell]; exact congrArg Except.ok (tape.number_append x)
  | bigint n => rw [spell]; exact congrArg Except.ok (tape.spelled_append 98 _)
  | str value => rw [spell]; exact congrArg Except.ok (tape.text_append value)

variable {resolvers heap bindingName} {room : Nat} {ancestors : List Nat} {ref : Nat} {top : Bool}
  {tape : InboundTape}

theorem spell_up {above : Nat} (quiet : isThenable heap ref = false) (found : ancestors.idxOf? ref = some above) :
    spell resolvers heap bindingName room ancestors (.object ref) top tape =
      .ok (tape.append (InboundTape.empty.cycle (above + 1))) := by
  unfold spell
  rw [quiet, found]
  exact congrArg Except.ok (tape.cycle_append _)

theorem spell_array {items : List (Option GraphValue)} (quiet : isThenable heap ref = false)
    (outside : ancestors.idxOf? ref = none) (here : heap ref = .array items) :
    spell resolvers heap bindingName (room + 1) ancestors (.object ref) top tape =
      (items.foldlM (fun tape item =>
        spell resolvers heap bindingName room (ref :: ancestors) (item.getD (.prim .undefined)) false tape)
        (tape.opens true)).map (·.closes true) := by
  conv_lhs => unfold spell
  rw [quiet, outside, here]
  rfl

theorem spell_object {members : Record GraphValue} (quiet : isThenable heap ref = false)
    (outside : ancestors.idxOf? ref = none) (here : heap ref = .object members) :
    spell resolvers heap bindingName (room + 1) ancestors (.object ref) top tape =
      (members.foldlM (fun tape member =>
        spell resolvers heap bindingName room (ref :: ancestors) member.2 false (tape.text member.1))
        (tape.opens false)).map (·.closes false) := by
  conv_lhs => unfold spell
  rw [quiet, outside, here]
  rfl

variable (resolvers heap bindingName) in
/-- What `spell` is to do for a value that shows a tree: it spells it, in a piece that delivers the tree. -/
def Spells (room : Nat) (ancestors : List Nat) (value : GraphValue) (tree : JsTree) : Prop :=
  ∀ top tape, ∃ piece, spell resolvers heap bindingName room ancestors value top tape = .ok (tape.append piece) ∧
    piece.Safe ∧ Delivers room ancestors.length piece tree

theorem spells_items {items : List (Option GraphValue)} {trees : List JsTree}
    (spells : ∀ item ∈ items, ∀ tree,
      unfold (.leaf .undefined) heap room (ref :: ancestors) (item.getD (.prim .undefined)) = some tree →
      Spells resolvers heap bindingName room (ref :: ancestors) (item.getD (.prim .undefined)) tree)
    (shows : items.mapM (fun item =>
      unfold (.leaf .undefined) heap room (ref :: ancestors) (item.getD (.prim .undefined))) = some trees)
    (done : Nat) (tape : InboundTape) :
    ∃ piece, items.foldlM (fun tape item =>
        spell resolvers heap bindingName room (ref :: ancestors) (item.getD (.prim .undefined)) false tape) tape =
          .ok (tape.append piece) ∧ piece.Safe ∧
      DeliversEntries true (fun values => .array (values.map some)) done room ancestors.length piece trees := by
  induction items generalizing trees done tape with
  | nil =>
    obtain rfl := Option.some.inj shows
    exact ⟨.empty, congrArg Except.ok (tape.append_empty).symm, fun text none => (nomatch none),
      deliversEntries_nil done room ancestors.length⟩
  | cons item items ih =>
    rw [List.mapM_cons] at shows
    obtain ⟨tree, first, rest⟩ := Option.bind_eq_some_iff.mp shows
    obtain ⟨others, further, same⟩ := Option.bind_eq_some_iff.mp rest
    obtain rfl := Option.some.inj same
    obtain ⟨piece, spelled, safe, delivers⟩ := spells item (List.mem_cons_self ..) tree first false tape
    obtain ⟨more, spelledMore, safeMore, deliversMore⟩ :=
      ih (fun other member => spells other (List.mem_cons_of_mem _ member)) further (done + 1) (tape.append piece)
    refine ⟨piece.append more, ?_, safe.append safeMore,
      deliversEntries_cons (deliversEntry_element delivers) deliversMore⟩
    rw [List.foldlM_cons, spelled, ← InboundTape.append_assoc]
    exact spelledMore

/-- Defining the next member of an object by its key. -/
theorem set_next {before : Record GraphValue} {key : JSString} {value : GraphValue} {rest : Record GraphValue}
    (ordered : Record.Ordered (before ++ (key, value) :: rest)) {values : List GraphValue}
    (counted : values.length = before.length) (next : GraphValue) :
    Record.set (((before ++ (key, value) :: rest).map Prod.fst).zip values) key next =
      ((before ++ (key, value) :: rest).map Prod.fst).zip (values ++ [next]) := by
  have names : (before ++ (key, value) :: rest).map Prod.fst =
      before.map Prod.fst ++ key :: rest.map Prod.fst := by
    rw [List.map_append, List.map_cons]
  have length : (before.map Prod.fst).length = values.length := by rw [List.length_map, counted]
  have done : ((before ++ (key, value) :: rest).map Prod.fst).zip values = (before.map Prod.fst).zip values := by
    rw [names, ← List.append_nil values, List.zip_append length]
    simp
  have filled : Record.Ordered ((before.map Prod.fst).zip values ++ (key, next) :: rest) := by
    refine ordered.of_keys ?_
    rw [names, List.map_append, List.map_cons, List.map_fst_zip length.le]
  rw [done, filled.set_last, names, List.zip_append length, List.zip_cons_cons, List.zip_nil_right]

theorem spells_members {before members : Record GraphValue} {trees : List JsTree}
    (ordered : Record.Ordered (before ++ members))
    (spells : ∀ member ∈ members, ∀ tree,
      unfold (.leaf .undefined) heap room (ref :: ancestors) member.2 = some tree →
      Spells resolvers heap bindingName room (ref :: ancestors) member.2 tree)
    (shows : members.mapM (fun member => unfold (.leaf .undefined) heap room (ref :: ancestors) member.2) = some trees)
    (tape : InboundTape) :
    ∃ piece, members.foldlM (fun tape member =>
        spell resolvers heap bindingName room (ref :: ancestors) member.2 false (tape.text member.1)) tape =
          .ok (tape.append piece) ∧ piece.Safe ∧
      DeliversEntries false (fun values => .object (((before ++ members).map Prod.fst).zip values)) before.length room
        ancestors.length piece trees := by
  induction members generalizing before trees tape with
  | nil =>
    obtain rfl := Option.some.inj shows
    exact ⟨.empty, congrArg Except.ok (tape.append_empty).symm, fun text none => (nomatch none),
      deliversEntries_nil before.length room ancestors.length⟩
  | cons member members ih =>
    obtain ⟨key, value⟩ := member
    rw [List.mapM_cons] at shows
    obtain ⟨tree, first, rest⟩ := Option.bind_eq_some_iff.mp shows
    obtain ⟨others, further, same⟩ := Option.bind_eq_some_iff.mp rest
    obtain rfl := Option.some.inj same
    obtain ⟨piece, spelled, safe, delivers⟩ :=
      spells (key, value) (List.mem_cons_self ..) tree first false (tape.text key)
    have moved : before ++ (key, value) :: members = (before ++ [(key, value)]) ++ members := by
      rw [List.append_assoc, List.singleton_append]
    have deliversFirst := deliversEntry_member (fun values counted next => set_next ordered counted next) delivers
    rw [moved] at ordered deliversFirst ⊢
    obtain ⟨more, spelledMore, safeMore, deliversMore⟩ :=
      ih ordered (fun other among => spells other (List.mem_cons_of_mem _ among)) further
        ((tape.text key).append piece)
    rw [List.length_append] at deliversMore
    refine ⟨((InboundTape.empty.text key).append piece).append more, ?_,
      ((InboundTape.safe_empty_text key).append safe).append safeMore,
      deliversEntries_cons deliversFirst deliversMore⟩
    rw [List.foldlM_cons, spelled, ← InboundTape.append_assoc, ← InboundTape.append_assoc, ← tape.text_append]
    exact spelledMore

/-- A value that shows a tree has no `then` to call. -/
theorem not_thenable {absent : JsTree} {tree : JsTree} (outside : ancestors.idxOf? ref = none)
    (shows : unfold absent heap room ancestors (.object ref) = some tree) : isThenable heap ref = false := by
  unfold isThenable
  split
  · rfl
  · rename_i members here
    split
    · rename_i id found
      exfalso
      cases room with
      | zero =>
        rw [unfold_zero outside] at shows
        cases shows
      | succ room =>
        rw [unfold_object outside here] at shows
        obtain ⟨entries, all, -⟩ := Option.map_eq_some_iff.mp shows
        obtain ⟨entry, shown⟩ := mem_of_mapM all (Record.mem_of_get found)
        rw [unfold] at shown
        cases shown
    · rfl

/-- A value that opens no container is spelled in a piece that delivers it. -/
theorem spells_shallow {value : GraphValue} {tree : JsTree}
    (shows : unfold (.leaf .undefined) heap room ancestors value = some tree)
    (quiet : ∀ ref ∈ ancestors, isThenable heap ref = false) :
    (∃ ref, value = .object ref ∧ ancestors.idxOf? ref = none) ∨
      Spells resolvers heap bindingName room ancestors value tree := by
  cases value with
  | prim p =>
    right
    intro top tape
    rw [unfold] at shows
    obtain rfl := Option.some.inj shows
    exact ⟨_, spell_primitive resolvers heap bindingName room ancestors p top tape, InboundTape.safe_primitive p,
      delivers_primitive room ancestors.length p⟩
  | symbol description =>
    rw [unfold] at shows
    cases shows
  | func id =>
    rw [unfold] at shows
    cases shows
  | object ref =>
    cases found : ancestors.idxOf? ref with
    | none => exact .inl ⟨ref, rfl, found⟩
    | some above =>
      right
      intro top tape
      rw [unfold_up found] at shows
      obtain rfl := Option.some.inj shows
      obtain ⟨small, same, -⟩ := List.idxOf?_eq_some_iff.mp found
      exact ⟨_, spell_up (quiet ref (same ▸ List.getElem_mem small)) found, (fun text missing => by cases missing),
        delivers_up small⟩

/-- Every value that shows a tree is spelled, and its piece delivers the tree. -/
theorem spells_of_unfold (ordered : ∀ ref members, heap ref = .object members → Record.Ordered members)
    {value : GraphValue} {tree : JsTree}
    (shows : unfold (.leaf .undefined) heap room ancestors value = some tree)
    (quiet : ∀ ref ∈ ancestors, isThenable heap ref = false) :
    Spells resolvers heap bindingName room ancestors value tree := by
  induction room generalizing ancestors value tree with
  | zero =>
    rcases spells_shallow shows quiet with
      ⟨ref, rfl, outside⟩ | spells
    · rw [unfold_zero outside] at shows
      cases shows
    · exact spells
  | succ room ih =>
    rcases spells_shallow shows quiet with
      ⟨ref, rfl, outside⟩ | spells
    · intro top tape
      have quietRef := not_thenable outside shows
      have quiet' : ∀ other ∈ ref :: ancestors, isThenable heap other = false := by
        intro other member
        rcases List.mem_cons.mp member with rfl | member
        · exact quietRef
        · exact quiet other member
      cases here : heap ref with
      | array items =>
        rw [unfold_array outside here] at shows
        obtain ⟨trees, all, rfl⟩ := Option.map_eq_some_iff.mp shows
        have filled : items.mapM (fun item =>
            unfold (.leaf .undefined) heap room (ref :: ancestors) (item.getD (.prim .undefined))) = some trees := by
          rw [← all]
          congr 1
          funext item
          cases item with
          | none => exact unfold.eq_1 ..
          | some item => rfl
        obtain ⟨piece, spelled, safe, delivers⟩ := spells_items
          (fun item _ tree shown => ih shown quiet') filled 0 (tape.opens true)
        refine ⟨.container true piece, ?_, safe.container true,
          delivers_container rfl delivers fun later targets ref values here outside shows =>
            unfold_filled_array here outside shows⟩
        rw [spell_array quietRef outside here, spelled]
        exact congrArg Except.ok (tape.container_append piece true)
      | object members =>
        rw [unfold_object outside here] at shows
        obtain ⟨entries, all, rfl⟩ := Option.map_eq_some_iff.mp shows
        obtain ⟨trees, mapped, length, rfl⟩ := mapM_members all
        obtain ⟨piece, spelled, safe, delivers⟩ := @spells_members _ _ _ _ _ _ [] _ _ (ordered ref members here) (fun member _ tree shown => ih shown quiet') mapped (tape.opens false)
        refine ⟨.container false piece, ?_, safe.container false,
          delivers_container ?_ delivers fun later targets ref values here outside shows =>
            unfold_filled_object here outside ?_ shows⟩
        · rw [spell_object quietRef outside here, spelled]
          exact congrArg Except.ok (tape.container_append piece false)
        · simp
        · rw [length, List.length_map]
    · exact spells

end

/-- What the inbound tape spells for a value, the sandbox rebuilds: `decode` gives a value that shows the same tree,
its holes as `undefined`, whatever C strings lose that are not safe. -/
theorem inbound_round_trip (resolvers : Resolvers) (bindingName : JSString) (newString : JSString → JSString)
    (exactly : ∀ text, cStringSafe text = true → newString text = text) {heap : Heap}
    (ordered : ∀ ref members, heap ref = .object members → Record.Ordered members) {value : GraphValue} {tree : JsTree}
    (shows : unfold (.leaf .undefined) heap maxCrossingDepth [] value = some tree) (top : Bool) :
    ∃ tape, spell resolvers heap bindingName maxCrossingDepth [] value top .empty = .ok tape ∧
      ∃ result built, tape.build newString = some (result, built) ∧
        unfold .hole built maxCrossingDepth [] result = some tree := by
  obtain ⟨tape, spelled, safe, delivers⟩ :=
    spells_of_unfold ordered shows
      (fun ref none => nomatch none) top .empty
  rw [InboundTape.empty_append] at spelled
  have crossed : (if tape.texts.flatten = [] then [] else newString tape.texts.flatten) = tape.texts.flatten := by
    split
    · rename_i none
      exact none.symm
    · exact exactly _ (cStringSafe_flatten safe)
  let start : DecodeState := .start [] [] []
  have fed : start.fed tape = .start tape.numbers tape.texts.flatten tape.leaves := by
    simp only [start, DecodeState.start, DecodeState.fed, List.append_nil]
  obtain ⟨built, fresh, result, ran, -, -, showsResult⟩ :=
    delivers start ⟨rfl, List.nodup_nil, fun ref none => nomatch none⟩
  refine ⟨tape, spelled, result, built, ?_, showsResult built fun _ _ _ => rfl⟩
  rw [InboundTape.build, crossed, decode, ← fed, ran]
  rfl

end Xript
