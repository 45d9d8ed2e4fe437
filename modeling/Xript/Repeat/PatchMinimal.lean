import Xript.Repeat.PatchCorrect

namespace Xript

/-- A sublist of a list without repetitions is the list filtered by it. -/
theorem eq_filter_of_sublist {β : Type} [DecidableEq β] {part whole : List β} (nodup : whole.Nodup)
    (sub : part.Sublist whole) : part = whole.filter fun x => decide (x ∈ part) := by
  induction sub with
  | slnil => rfl
  | @cons part whole x sub ih =>
    obtain ⟨fresh, rest⟩ := List.nodup_cons.mp nodup
    have absent : x ∉ part := fun member => fresh (sub.subset member)
    rw [List.filter_cons_of_neg (by simpa using absent)]
    exact ih rest
  | @cons_cons part whole x sub ih =>
    obtain ⟨fresh, rest⟩ := List.nodup_cons.mp nodup
    rw [List.filter_cons_of_pos (by simp)]
    congr 1
    refine (ih rest).trans (List.filter_congr fun y member => ?_)
    have different : y ≠ x := fun same => fresh (same ▸ member)
    simp [different]

theorem sublist_ext {β : Type} [DecidableEq β] {first second whole : List β} (nodup : whole.Nodup)
    (sub : first.Sublist whole) (sub' : second.Sublist whole) (same : ∀ x, x ∈ first ↔ x ∈ second) :
    first = second := by
  rw [eq_filter_of_sublist nodup sub, eq_filter_of_sublist nodup sub']
  simp only [same]

/-- Following operations only adds copies around those in place. -/
theorem sublist_placeCopies (copies : List RepeatKey) (ops : List RepeatPatchOp) (shown : List RepeatKey) :
    shown.Sublist (ops.foldl (placeCopy copies) shown) := by
  induction ops generalizing shown with
  | nil => exact List.Sublist.refl _
  | cons op ops ih =>
    refine List.Sublist.trans ?_ (ih (placeCopy copies shown op))
    cases op with
    | remove | reuse => exact List.Sublist.refl _
    | insert key toIndex => exact List.sublist_insertIdx ..
    | move key fromIndex toIndex =>
      rw [placeCopy]
      split
      · exact List.sublist_insertIdx ..
      · exact List.Sublist.refl _

theorem reused_sublist_sources (ops : List RepeatPatchOp) :
    (ops.filterMap RepeatPatchOp.reused?).Sublist (ops.filterMap RepeatPatchOp.source?) := by
  induction ops with
  | nil => exact List.Sublist.refl _
  | cons op ops ih =>
    cases op with
    | remove | move => exact ih.cons _
    | insert => exact ih
    | reuse => exact ih.cons_cons _

theorem RepeatKey.same_token {shown key : RepeatKey} (valid : key.Valid)
    (same : RepeatKey.same shown key = true) : keyToken shown = keyToken key := by
  refine (keyToken_eq_iff ?_ valid).mpr same
  cases shown with
  | text => trivial
  | number x =>
    cases key with
    | text => cases same
    | number y => cases x <;> cases y <;> simp_all [RepeatKey.same, F64.eq, RepeatKey.Valid, F64.isFinite]

theorem tokens_of_forall₂ {shown keys : List RepeatKey} (valid : ∀ key ∈ keys, key.Valid)
    (same : List.Forall₂ (fun a b => RepeatKey.same a b = true) shown keys) :
    shown.map keyToken = keys.map keyToken := by
  induction same with
  | nil => rfl
  | cons here _ ih =>
    rw [List.map_cons, List.map_cons, RepeatKey.same_token (valid _ (List.mem_cons_self ..)) here,
      ih fun key member => valid key (List.mem_cons_of_mem _ member)]

/-- What operations read off the next keys, in their order, is a part of what the keys give. -/
theorem aligned_sublist {β : Type} {pick : RepeatPatchOp → Option β} {find : RepeatKey → Option β}
    {ops : List RepeatPatchOp} {next : List RepeatKey} {k : Nat}
    (targets : ops.filterMap RepeatPatchOp.target? = List.range' k next.length)
    (agrees : ∀ op ∈ ops, ∀ b, pick op = some b →
      ∃ toIndex key, op.target? = some toIndex ∧ next[toIndex - k]? = some key ∧ find key = some b) :
    (ops.filterMap pick).Sublist (next.filterMap find) := by
  induction ops generalizing next k with
  | nil => exact List.nil_sublist _
  | cons op ops ih =>
    have agreesTail := fun o member => agrees o (List.mem_cons_of_mem _ member)
    have agreesHere := agrees op (List.mem_cons_self ..)
    cases target : op.target? with
    | none =>
      have unpicked : pick op = none := by
        cases picked : pick op with
        | none => rfl
        | some b =>
          obtain ⟨_, _, named, _⟩ := agreesHere b picked
          rw [target] at named
          cases named
      rw [List.filterMap_cons_none unpicked]
      rw [List.filterMap_cons_none target] at targets
      exact ih targets agreesTail
    | some toIndex =>
      rw [List.filterMap_cons_some target] at targets
      cases next with
      | nil => cases targets
      | cons key next =>
        rw [List.length_cons, List.range'_succ] at targets
        obtain ⟨here, rest⟩ := List.cons.inj targets
        have tail : (ops.filterMap pick).Sublist (next.filterMap find) := by
          refine ih rest fun o member b picked => ?_
          obtain ⟨place, other, named, atPlace, found⟩ := agreesTail o member b picked
          have later : place ∈ List.range' (k + 1) next.length :=
            rest ▸ List.mem_filterMap.mpr ⟨o, member, named⟩
          have := (List.mem_range'_1.mp later).1
          refine ⟨place, other, named, ?_, found⟩
          rw [show place - k = (place - (k + 1)) + 1 by omega, List.getElem?_cons_succ] at atPlace
          exact atPlace
        cases picked : pick op with
        | none =>
          rw [List.filterMap_cons_none picked]
          exact tail.trans ((List.sublist_cons_self key next).filterMap find)
        | some b =>
          obtain ⟨place, other, named, atPlace, found⟩ := agreesHere b picked
          have first : place - k = 0 := by
            have : toIndex = place := Option.some.inj (target.symm.trans named)
            omega
          rw [first, List.getElem?_cons_zero] at atPlace
          rw [List.filterMap_cons_some picked, List.filterMap_cons_some (Option.some.inj atPlace ▸ found)]
          exact tail.cons_cons b

/-- The token of the previous key at a position. -/
def tokenAt (previous : List RepeatKey) (i : Nat) : JSString := ((previous[i]?).map keyToken).getD []

section

variable {previous next : List RepeatKey} {ops : List RepeatPatchOp}

theorem IsPatch.reused_found (patch : IsPatch previous next ops) :
    ∀ op ∈ ops, ∀ i, op.reused? = some i → ∃ toIndex key old, op.target? = some toIndex ∧
      next[toIndex - 0]? = some key ∧ previous[i]? = some old ∧ RepeatKey.same old key = true := by
  intro op member i reused
  have fits := patch.fits op member
  cases op with
  | remove | insert | move => cases reused
  | reuse key fromIndex toIndex =>
    obtain rfl := Option.some.inj reused
    obtain ⟨atTo, old, atFrom, same⟩ := fits
    exact ⟨toIndex, key, old, rfl, atTo, atFrom, same⟩

theorem IsPatch.reused_nodup (patch : IsPatch previous next ops) :
    (ops.filterMap RepeatPatchOp.reused?).Nodup :=
  (patch.sources.nodup_iff.mpr List.nodup_range).sublist (reused_sublist_sources ops)

theorem IsPatch.reused_bounded (patch : IsPatch previous next ops) :
    ∀ i ∈ ops.filterMap RepeatPatchOp.reused?, i < previous.length := fun _ member =>
  List.mem_range.mp (patch.sources.mem_iff.mp ((reused_sublist_sources ops).subset member))

/-- In any patch the reused copies keep their order: they stand in place while the others are put around
them, and end where the next keys have them. -/
theorem IsPatch.reused_increasing (patch : IsPatch previous next ops) (old : ResolvedKeys previous)
    (new : ResolvedKeys next) : (ops.filterMap RepeatPatchOp.reused?).Pairwise (· < ·) := by
  set reused := ops.filterMap RepeatPatchOp.reused? with reusedDef
  set sorted := (List.range previous.length).filter fun i => decide (i ∈ reused) with sortedDef
  have members : ∀ i, i ∈ reused ↔ i ∈ sorted := by
    intro i
    rw [sortedDef, List.mem_filter, List.mem_range, decide_eq_true_eq]
    exact ⟨fun member => ⟨patch.reused_bounded i member, member⟩, fun both => both.2⟩
  -- The reused copies read off in next order, by their tokens.
  have inNext : (reused.map (tokenAt previous)).Sublist (next.map keyToken) := by
    have aligned := @aligned_sublist _ (fun op => op.reused?.map (tokenAt previous)) _ _ _ 0 (by rw [patch.targets, List.range_eq_range'])
      (fun op member b picked => by
        obtain ⟨i, reused, rfl⟩ := Option.map_eq_some_iff.mp picked
        obtain ⟨toIndex, key, prior, named, atTo, atFrom, same⟩ := patch.reused_found op member i reused
        refine ⟨toIndex, key, named, atTo, ?_⟩
        rw [tokenAt, atFrom, Option.map_some, Option.getD_some,
          RepeatKey.same_token (new.valid key (List.mem_of_getElem? atTo)) same])
    rw [← List.map_filterMap, List.filterMap_eq_map'] at aligned
    exact aligned
  -- The same copies in previous order: the host leaves them in place.
  have inPlace : (sorted.map (tokenAt previous)).Sublist (next.map keyToken) := by
    have shown : (applyPatch previous ops).map keyToken = next.map keyToken := by
      exact tokens_of_forall₂ new.valid patch.rebuilt
    have copies : (copiesInPlace previous ops).map keyToken = sorted.map (tokenAt previous) := by
      rw [copiesInPlace, ← reusedDef, sortedDef, List.range_eq_range', ← List.zipIdx_map_snd, List.filter_map,
        List.map_map, ← List.filterMap_eq_map', ← List.filterMap_eq_map', List.filterMap_filterMap,
        List.filterMap_filter]
      refine List.filterMap_congr fun entry member => ?_
      have atFrom := List.mem_zipIdx_iff_getElem?.mp member
      simp only [Function.comp_apply, decide_eq_true_eq, tokenAt, atFrom, Option.map_some, Option.getD_some]
      split <;> rfl
    rw [← copies, ← shown]
    exact (sublist_placeCopies previous ops _).map keyToken
  have tokens : reused.map (tokenAt previous) = sorted.map (tokenAt previous) := by
    refine sublist_ext new.nodup inNext inPlace fun token => ?_
    simp only [List.mem_map, members]
  -- A token says where its copy was, so the two orders are one.
  have back : ∀ i, i < previous.length → tokenIndex previous (tokenAt previous i) = some i := by
    intro i inside
    refine (tokenIndex_eq_some old.nodup).mpr ⟨previous[i], List.getElem?_eq_getElem inside, ?_⟩
    rw [tokenAt, List.getElem?_eq_getElem inside]
    rfl
  have places : ∀ l : List Nat, (∀ i ∈ l, i < previous.length) →
      (l.map (tokenAt previous)).map (tokenIndex previous) = l.map some := by
    intro l bounded
    rw [List.map_map]
    exact List.map_congr_left fun i member => back i (bounded i member)
  have same : reused = sorted := by
    have read := congrArg (List.map (tokenIndex previous)) tokens
    rw [places reused patch.reused_bounded,
      places sorted fun i member => patch.reused_bounded i ((members i).mpr member)] at read
    exact List.map_injective_iff.mpr (Option.some_injective Nat) read
  rw [same]
  exact List.pairwise_lt_range.filter _

/-- No patch reuses more copies than the longest run already in order. -/
theorem IsPatch.reused_le (patch : IsPatch previous next ops) (old : ResolvedKeys previous)
    (new : ResolvedKeys next) :
    (ops.filterMap RepeatPatchOp.reused?).length ≤
      (longestIncreasingSubsequence (next.filterMap (previousPosition previous))).length := by
  refine (longestIncreasingSubsequence_spec _).2.2 _ ?_ (patch.reused_increasing old new)
  refine aligned_sublist (k := 0) (by rw [patch.targets, List.range_eq_range']) fun op member i reused => ?_
  obtain ⟨toIndex, key, prior, named, atTo, atFrom, same⟩ := patch.reused_found op member i reused
  refine ⟨toIndex, key, named, atTo, (tokenIndex_eq_some old.nodup).mpr ⟨prior, atFrom, ?_⟩⟩
  exact RepeatKey.same_token (new.valid key (List.mem_of_getElem? atTo)) same

end

/-- The number of copies a patch moves. -/
def moveCount (ops : List RepeatPatchOp) : Nat := ops.countP RepeatPatchOp.isMove

/-- The number of copies a patch removes. -/
def removeCount (ops : List RepeatPatchOp) : Nat := ops.countP RepeatPatchOp.isRemove

theorem diffRepeat_isPatch {previous : Option RepeatRender} {next : RepeatRender}
    (old : ∀ render ∈ previous, ResolvedKeys render.keys) (new : ResolvedKeys next.keys) :
    IsPatch ((previous.map RepeatRender.keys).getD []) next.keys (diffRepeat previous next) := by
  cases previous with
  | none => exact isPatch_replaceAll [] new.valid
  | some previous =>
    by_cases branch : next.mode = .replace ∨ previous.mode ≠ next.mode
    · have replaced : diffRepeat (some previous) next = removeAll previous.keys ++ insertAll next.keys := by
        simp only [diffRepeat, if_pos branch]
      rw [replaced]
      exact isPatch_replaceAll previous.keys new.valid
    · obtain ⟨keeps, mode⟩ := not_or.mp branch
      rw [diffRepeat_same (old previous rfl) (not_not.mp mode) keeps]
      refine (previousPosition_matching (old previous rfl) new).isPatch new.valid ?_
      rw [reused_eq]
      exact chosen_increasing _

theorem diffRepeat_reused {previous next : RepeatRender} (old : ResolvedKeys previous.keys)
    (mode : previous.mode = next.mode) (keeps : next.mode ≠ .replace) :
    ((diffRepeat (some previous) next).filterMap RepeatPatchOp.reused?).length =
      (longestIncreasingSubsequence (next.keys.filterMap (previousPosition previous.keys))).length := by
  rw [diffRepeat_same old mode keeps, buildPatch, List.filterMap_append, removed_reused, List.nil_append, reused_eq,
    chosen_elements, List.length_map]

/-- Two renders of one repeat: the zero changes sign, and the text `1` is not a number. -/
def swapBefore : RepeatRender := ⟨.keyed, [.number (.finite (.zero false)), .text (js "a"), .text (js "1")]⟩

def swapAfter : RepeatRender := ⟨.keyed, [.text (js "1"), .number (.finite (.zero true)), .text (js "b")]⟩

namespace RepeatPatchOp

def isInsert : RepeatPatchOp → Bool
  | .insert _ _ => true
  | _ => false

/-- A copy that stays, in its place or another. -/
def isKept : RepeatPatchOp → Bool
  | .reuse _ _ _ | .move _ _ _ => true
  | _ => false

theorem source?_eq_none {op : RepeatPatchOp} : op.source? = none ↔ op.isInsert = true := by
  cases op <;> simp [source?, isInsert]

end RepeatPatchOp

/-- A render that draws every copy anew: it has no keys, or they are of another mode than before. -/
def Redraws (old next : RepeatRender) : Prop := next.mode = .replace ∨ old.mode ≠ next.mode

section

variable {previous : Option RepeatRender} {next : RepeatRender}

/-- A patch only inserts exactly when there was no copy before. -/
theorem diffRepeat_inserts (old : ∀ render ∈ previous, ResolvedKeys render.keys) (new : ResolvedKeys next.keys) :
    (∀ op ∈ diffRepeat previous next, op.isInsert = true) ↔ ∀ render ∈ previous, render.keys = [] := by
  have sources := (diffRepeat_isPatch old new).sources
  have none : (∀ op ∈ diffRepeat previous next, op.isInsert = true) ↔
      (diffRepeat previous next).filterMap RepeatPatchOp.source? = [] := by
    rw [List.filterMap_eq_nil_iff]
    exact forall_congr' fun op => imp_congr_right fun _ => RepeatPatchOp.source?_eq_none.symm
  have empty : (diffRepeat previous next).filterMap RepeatPatchOp.source? = [] ↔
      (previous.map RepeatRender.keys).getD [] = [] := by
    rw [← List.length_eq_zero_iff, sources.length_eq, List.length_range, List.length_eq_zero_iff]
  rw [none, empty]
  cases previous with
  | none => simp
  | some render => simp

/-- The copies a patch inserts: all of a new or a redrawn repeat, and those whose key is new. -/
theorem diffRepeat_insert_at (old : ∀ render ∈ previous, ResolvedKeys render.keys) {i : Nat} {key : RepeatKey}
    (present : next.keys[i]? = some key) :
    (∃ k, RepeatPatchOp.insert k i ∈ diffRepeat previous next) ↔
      ∀ render ∈ previous, Redraws render next ∨ keyToken key ∉ render.keys.map keyToken := by
  have inserted : RepeatPatchOp.insert key i ∈ insertAll next.keys :=
    List.mem_map.mpr ⟨(key, i), List.mk_mem_zipIdx_iff_getElem?.mpr present, rfl⟩
  cases previous with
  | none => exact ⟨fun _ render none => (nomatch none), fun _ => ⟨key, inserted⟩⟩
  | some render =>
    by_cases redraws : Redraws render next
    · have replaced : diffRepeat (some render) next = removeAll render.keys ++ insertAll next.keys := if_pos redraws
      rw [replaced]
      refine ⟨fun _ other same => Or.inl (Option.some.inj same ▸ redraws), fun _ => ?_⟩
      exact ⟨key, List.mem_append_right _ inserted⟩
    · obtain ⟨keeps, mode⟩ := not_or.mp redraws
      have absent : previousPosition render.keys key = none ↔ keyToken key ∉ render.keys.map keyToken := by
        rw [previousPosition, Option.eq_none_iff_forall_ne_some, List.mem_map, not_exists]
        constructor
        · rintro none prior ⟨inside, same⟩
          obtain ⟨j, found⟩ := List.mem_iff_getElem?.mp inside
          exact none j ((tokenIndex_eq_some (old render rfl).nodup).mpr ⟨prior, found, same⟩)
        · intro none j found
          obtain ⟨prior, inside, same⟩ := (tokenIndex_eq_some (old render rfl).nodup).mp found
          exact none prior ⟨List.mem_of_getElem? inside, same⟩
      rw [diffRepeat_same (old render rfl) (not_not.mp mode) keeps]
      constructor
      · rintro ⟨k, member⟩ other same
        obtain rfl := Option.some.inj same
        rcases List.mem_append.mp member with removed | placed
        · obtain ⟨entry, -, removal⟩ := List.mem_map.mp removed
          cases removal
        · obtain ⟨⟨other, j⟩, inside, made⟩ := List.mem_map.mp placed
          have target := congrArg RepeatPatchOp.target? made
          rw [assignOp_target] at target
          obtain rfl : j = i := Option.some.inj target
          obtain rfl := Option.some.inj ((List.mk_mem_zipIdx_iff_getElem?.mp inside).symm.trans present)
          have source := congrArg RepeatPatchOp.source? made
          rw [assignOp_source] at source
          exact Or.inr (absent.mp source)
      · intro new
        have none := absent.mpr ((new render rfl).resolve_left redraws)
        refine ⟨key, List.mem_append_right _ (List.mem_map.mpr ⟨(key, i), ?_, ?_⟩)⟩
        · exact List.mk_mem_zipIdx_iff_getElem?.mpr present
        · rw [assignOp, none]

/-- A copy that a patch does not insert is kept. -/
theorem diffRepeat_kept_at (old : ∀ render ∈ previous, ResolvedKeys render.keys) (new : ResolvedKeys next.keys) {i : Nat}
    {key : RepeatKey} (present : next.keys[i]? = some key)
    (stays : ¬∃ k, RepeatPatchOp.insert k i ∈ diffRepeat previous next) :
    ∃ op ∈ diffRepeat previous next, op.isKept = true ∧ op.target? = some i := by
  have inside : i ∈ (diffRepeat previous next).filterMap RepeatPatchOp.target? := by
    rw [(diffRepeat_isPatch old new).targets, List.mem_range]
    exact (List.getElem?_eq_some_iff.mp present).1
  obtain ⟨op, member, target⟩ := List.mem_filterMap.mp inside
  refine ⟨op, member, ?_, target⟩
  cases op with
  | remove key j => cases target
  | insert k j =>
    obtain rfl : j = i := Option.some.inj target
    exact absurd ⟨k, member⟩ stays
  | reuse | move => rfl

end

end Xript
