import Xript.Repeat.Patch
import Xript.Repeat.Subsequence

namespace Xript

theorem RepeatKey.same_refl {key : RepeatKey} (valid : key.Valid) : RepeatKey.same key key = true :=
  (keyToken_eq_iff valid valid).mp rfl

/-- The operation for one key of the next render, given where a key was and which positions are stable. -/
def assignOp (find : RepeatKey → Option Nat) (stable : List Nat) (entry : RepeatKey × Nat) : RepeatPatchOp :=
  match find entry.1 with
  | none => .insert entry.1 entry.2
  | some fromIndex =>
    if stable.contains entry.2 then .reuse entry.1 fromIndex entry.2 else .move entry.1 fromIndex entry.2

/-- The patch a matching of next keys with previous positions gives. -/
def buildPatch (previous next : List RepeatKey) (find : RepeatKey → Option Nat) (stable : List Nat) :
    List RepeatPatchOp :=
  (previous.zipIdx.filter fun entry => !(next.filterMap find).contains entry.2).map
    (fun entry => RepeatPatchOp.remove entry.1 entry.2) ++ next.zipIdx.map (assignOp find stable)

/-- A matching: a key is found where the same key was, and no two keys are found at one place. -/
structure Matching (previous next : List RepeatKey) (find : RepeatKey → Option Nat) : Prop where
  found : ∀ key ∈ next, ∀ i, find key = some i → ∃ old, previous[i]? = some old ∧ RepeatKey.same old key = true
  apart : next.Pairwise fun a b => ∀ i, find a = some i → find b ≠ some i

section Build

variable {previous next : List RepeatKey} {find : RepeatKey → Option Nat} {stable : List Nat}

theorem assignOp_source (entry : RepeatKey × Nat) : (assignOp find stable entry).source? = find entry.1 := by
  unfold assignOp
  cases find entry.1 with
  | none => rfl
  | some i =>
    simp only
    split <;> rfl

theorem assignOp_target (entry : RepeatKey × Nat) : (assignOp find stable entry).target? = some entry.2 := by
  unfold assignOp
  cases find entry.1 with
  | none => rfl
  | some i =>
    simp only
    split <;> rfl

theorem assignOp_isRemove (entry : RepeatKey × Nat) : (assignOp find stable entry).isRemove = false := by
  unfold assignOp
  cases find entry.1 with
  | none => rfl
  | some i =>
    simp only
    split <;> rfl

theorem zipIdx_filterMap_fst {β γ : Type} (l : List β) (f : β → Option γ) :
    l.zipIdx.filterMap (fun entry => f entry.1) = l.filterMap f := by
  have split := List.filterMap_map (f := Prod.fst) (g := f) (l := l.zipIdx)
  rw [List.zipIdx_map_fst] at split
  exact split.symm

theorem assigned_sources :
    (next.zipIdx.map (assignOp find stable)).filterMap RepeatPatchOp.source? = next.filterMap find := by
  rw [List.filterMap_map]
  have pointwise : (fun entry => RepeatPatchOp.source? (assignOp find stable entry)) =
      fun entry : RepeatKey × Nat => find entry.1 := funext assignOp_source
  exact (congrArg (List.filterMap · next.zipIdx) pointwise).trans (zipIdx_filterMap_fst next find)

theorem assigned_targets :
    (next.zipIdx.map (assignOp find stable)).filterMap RepeatPatchOp.target? = List.range next.length := by
  rw [List.filterMap_map]
  have pointwise : (fun entry => RepeatPatchOp.target? (assignOp find stable entry)) =
      fun entry : RepeatKey × Nat => some entry.2 := funext assignOp_target
  refine (congrArg (List.filterMap · next.zipIdx) pointwise).trans ?_
  rw [List.filterMap_eq_map', List.zipIdx_map_snd, List.range_eq_range']

theorem removed_sources :
    ((previous.zipIdx.filter fun entry => !(next.filterMap find).contains entry.2).map
      fun entry => RepeatPatchOp.remove entry.1 entry.2).filterMap RepeatPatchOp.source? =
    (List.range previous.length).filter fun i => !(next.filterMap find).contains i := by
  rw [List.filterMap_map, List.range_eq_range', ← List.zipIdx_map_snd, List.filter_map]
  exact congrFun List.filterMap_eq_map' _

theorem removed_targets (entries : List (RepeatKey × Nat)) :
    (entries.map fun entry => RepeatPatchOp.remove entry.1 entry.2).filterMap RepeatPatchOp.target? = [] := by
  rw [List.filterMap_map, List.filterMap_eq_nil_iff]
  exact fun entry _ => rfl

theorem removed_reused (entries : List (RepeatKey × Nat)) :
    (entries.map fun entry => RepeatPatchOp.remove entry.1 entry.2).filterMap RepeatPatchOp.reused? = [] := by
  rw [List.filterMap_map, List.filterMap_eq_nil_iff]
  exact fun entry _ => rfl

theorem Matching.bounded (matching : Matching previous next find) :
    ∀ i ∈ next.filterMap find, i < previous.length := by
  intro i member
  obtain ⟨key, inside, found⟩ := List.mem_filterMap.mp member
  obtain ⟨old, atI, _⟩ := matching.found key inside i found
  exact (List.getElem?_eq_some_iff.mp atI).1

theorem Matching.nodup (matching : Matching previous next find) : (next.filterMap find).Nodup := by
  refine List.pairwise_filterMap.mpr (matching.apart.imp ?_)
  rintro a b different i foundA j foundB rfl
  exact different i foundA foundB

/-- Every previous position is named once: as removed, or as found by a key. -/
theorem Matching.sources (matching : Matching previous next find) :
    ((buildPatch previous next find stable).filterMap RepeatPatchOp.source?).Perm
      (List.range previous.length) := by
  rw [buildPatch, List.filterMap_append, removed_sources, assigned_sources]
  refine (List.perm_ext_iff_of_nodup ?_ List.nodup_range).mpr fun i => ?_
  · refine List.Nodup.append (List.nodup_range.filter _) matching.nodup ?_
    intro i removed found
    simp only [List.mem_filter, Bool.not_eq_true', List.contains_eq_mem, decide_eq_false_iff_not] at removed
    exact removed.2 found
  · simp only [List.mem_append, List.mem_filter, List.mem_range, Bool.not_eq_true', List.contains_eq_mem,
      decide_eq_false_iff_not]
    constructor
    · rintro (⟨inside, _⟩ | found)
      · exact inside
      · exact matching.bounded i found
    · intro inside
      by_cases found : i ∈ next.filterMap find
      · exact Or.inr found
      · exact Or.inl ⟨inside, found⟩

theorem Matching.fits (matching : Matching previous next find) :
    ∀ op ∈ buildPatch previous next find stable, op.Fits previous next := by
  intro op member
  rcases List.mem_append.mp member with removed | assigned
  · obtain ⟨entry, inside, rfl⟩ := List.mem_map.mp removed
    exact List.mem_zipIdx_iff_getElem?.mp (List.mem_filter.mp inside).1
  · obtain ⟨entry, inside, rfl⟩ := List.mem_map.mp assigned
    have atTo := List.mem_zipIdx_iff_getElem?.mp inside
    have keyIn : entry.1 ∈ next := List.mem_of_getElem? atTo
    unfold assignOp
    cases found : find entry.1 with
    | none => exact atTo
    | some i =>
      have matched := matching.found entry.1 keyIn i found
      simp only
      split <;> exact ⟨atTo, matched⟩

/-- What a host shows in the place of a key of the next render. -/
def keptKey (previous : List RepeatKey) (find : RepeatKey → Option Nat) (key : RepeatKey) : RepeatKey :=
  match find key with
  | none => key
  | some i => (previous[i]?).getD key

theorem Matching.shown (matching : Matching previous next find) :
    (next.zipIdx.map (assignOp find stable)).filterMap (shownCopy previous) =
      next.map (keptKey previous find) := by
  rw [List.filterMap_map, ← List.filterMap_eq_map', ← zipIdx_filterMap_fst next]
  refine List.filterMap_congr fun entry inside => ?_
  have keyIn : entry.1 ∈ next := List.mem_of_getElem? (List.mem_zipIdx_iff_getElem?.mp inside)
  simp only [Function.comp_apply, assignOp, keptKey]
  cases found : find entry.1 with
  | none => rfl
  | some i =>
    obtain ⟨old, atI, _⟩ := matching.found entry.1 keyIn i found
    simp only [atI, Option.getD_some]
    split <;> exact atI

/-- Following the patch shows the next keys, as long as the reused copies keep their order. -/
theorem Matching.rebuilt (matching : Matching previous next find) (valid : ∀ key ∈ next, key.Valid)
    (inOrder : ((next.zipIdx.map (assignOp find stable)).filterMap RepeatPatchOp.reused?).Pairwise (· < ·)) :
    List.Forall₂ (fun shown key => RepeatKey.same shown key = true)
      (applyPatch previous (buildPatch previous next find stable)) next := by
  set rest := next.zipIdx.map (assignOp find stable) with restDef
  have known : ∀ op ∈ rest, ∀ i ∈ op.source?, i < previous.length := by
    intro op member i source
    refine matching.bounded i ?_
    rw [← assigned_sources]
    exact List.mem_filterMap.mpr ⟨op, member, source⟩
  have reusedBounds : ∀ i ∈ rest.filterMap RepeatPatchOp.reused?, 0 ≤ i ∧ i < 0 + previous.length := by
    intro i member
    obtain ⟨op, inside, reused⟩ := List.mem_filterMap.mp member
    refine ⟨Nat.zero_le i, ?_⟩
    rw [Nat.zero_add]
    cases op with
    | reuse key fromIndex toIndex => exact known _ inside i reused
    | remove | insert | move => cases reused
  have inPlace : copiesInPlace previous (buildPatch previous next find stable) =
      (rest.filterMap RepeatPatchOp.reused?).filterMap fun i => previous[i]? := by
    rw [copiesInPlace, buildPatch, List.filterMap_append, removed_reused, List.nil_append]
    exact filterMap_zipIdx_mem inOrder reusedBounds
  have skipped : ∀ (entries : List (RepeatKey × Nat)) (shown : List RepeatKey),
      (entries.map fun entry => RepeatPatchOp.remove entry.1 entry.2).foldl (placeCopy previous) shown = shown := by
    intro entries shown
    induction entries with
    | nil => rfl
    | cons entry entries ih => exact ih
  have restLength : rest.length = next.length := by simp [restDef]
  have placed := @placeCopies _ _ []
    (fun op member => by
      obtain ⟨entry, _, rfl⟩ := List.mem_map.mp member
      exact assignOp_isRemove entry)
    (by rw [restLength, restDef, assigned_targets]; simp) known
  rw [applyPatch, inPlace, buildPatch, List.foldl_append, skipped]
  rw [List.nil_append, List.nil_append] at placed
  rw [placed, matching.shown, List.forall₂_map_left_iff, List.forall₂_same]
  intro key member
  rw [keptKey]
  cases found : find key with
  | none => exact RepeatKey.same_refl (valid key member)
  | some i =>
    obtain ⟨old, atI, same⟩ := matching.found key member i found
    simp only [atI, Option.getD_some]
    exact same

theorem Matching.isPatch (matching : Matching previous next find) (valid : ∀ key ∈ next, key.Valid)
    (inOrder : ((next.zipIdx.map (assignOp find stable)).filterMap RepeatPatchOp.reused?).Pairwise (· < ·)) :
    IsPatch previous next (buildPatch previous next find stable) where
  sources := matching.sources
  targets := by
    rw [buildPatch, List.filterMap_append, removed_targets, assigned_targets, List.nil_append]
  fits := matching.fits
  ordered := by
    refine ⟨_, _, rfl, ?_, ?_, ?_⟩
    · intro op member
      obtain ⟨entry, _, rfl⟩ := List.mem_map.mp member
      rfl
    · intro op member
      obtain ⟨entry, _, rfl⟩ := List.mem_map.mp member
      exact assignOp_isRemove entry
    · rw [removed_sources]
      exact List.pairwise_lt_range.filter _
  rebuilt := matching.rebuilt valid inOrder

end Build

theorem tokenIndex_append (keys : List RepeatKey) (key : RepeatKey) (token : JSString) :
    tokenIndex (keys ++ [key]) token =
      if keyToken key = token then some keys.length else tokenIndex keys token := by
  rw [tokenIndex, List.zipIdx_append, List.foldl_append, Nat.zero_add]
  rfl

/-- With no token twice, the map holds each token at its one position. -/
theorem tokenIndex_eq_some {keys : List RepeatKey} {token : JSString} {i : Nat}
    (nodup : (keys.map keyToken).Nodup) :
    tokenIndex keys token = some i ↔ ∃ key, keys[i]? = some key ∧ keyToken key = token := by
  induction keys using List.reverseRecOn with
  | nil => simp [tokenIndex]
  | append_singleton keys key ih =>
    rw [List.map_append, List.map_singleton, ← List.concat_eq_append, List.nodup_concat] at nodup
    obtain ⟨fresh, rest⟩ := nodup
    rw [tokenIndex_append]
    split
    · rename_i here
      constructor
      · rintro ⟨⟩
        exact ⟨key, by simp, here⟩
      · rintro ⟨other, atI, same⟩
        rcases Nat.lt_trichotomy i keys.length with before | last | beyond
        · rw [List.getElem?_append_left before] at atI
          exact absurd (List.mem_map.mpr ⟨other, List.mem_of_getElem? atI, same.trans here.symm⟩) fresh
        · rw [last]
        · rw [List.getElem?_eq_none (by simp; omega)] at atI
          cases atI
    · rename_i elsewhere
      rw [ih rest]
      constructor
      · rintro ⟨other, atI, same⟩
        exact ⟨other, by rw [List.getElem?_append_left (List.getElem?_eq_some_iff.mp atI).1]; exact atI, same⟩
      · rintro ⟨other, atI, same⟩
        rcases Nat.lt_trichotomy i keys.length with before | last | beyond
        · exact ⟨other, by rwa [List.getElem?_append_left before] at atI, same⟩
        · subst last
          simp only [List.getElem?_append_right (Nat.le_refl _), Nat.sub_self, List.getElem?_cons_zero,
            Option.some.injEq] at atI
          exact absurd (atI ▸ same) elsewhere
        · rw [List.getElem?_eq_none (by simp; omega)] at atI
          cases atI

theorem ResolvedKeys.nodup {keys : List RepeatKey} (resolved : ResolvedKeys keys) :
    (keys.map keyToken).Nodup := by
  refine List.pairwise_map.mpr (List.Pairwise.imp_of_mem ?_ resolved.distinct)
  intro a b memberA memberB different same
  rw [(keyToken_eq_iff (resolved.valid a memberA) (resolved.valid b memberB)).mp same] at different
  cases different

/-- Where a key of the next render was in the previous one. -/
def previousPosition (previous : List RepeatKey) (key : RepeatKey) : Option Nat :=
  tokenIndex previous (keyToken key)

theorem previousPosition_matching {previous next : List RepeatKey} (old : ResolvedKeys previous)
    (new : ResolvedKeys next) : Matching previous next (previousPosition previous) where
  found := by
    intro key member i found
    obtain ⟨prior, atI, same⟩ := (tokenIndex_eq_some old.nodup).mp found
    refine ⟨prior, atI, (keyToken_eq_iff ?_ (new.valid key member)).mp same⟩
    exact old.valid prior (List.mem_of_getElem? atI)
  apart := by
    refine (List.pairwise_map.mp new.nodup).imp ?_
    intro a b different i foundA foundB
    obtain ⟨first, atFirst, sameA⟩ := (tokenIndex_eq_some old.nodup).mp foundA
    obtain ⟨second, atSecond, sameB⟩ := (tokenIndex_eq_some old.nodup).mp foundB
    obtain rfl := Option.some.inj (atFirst.symm.trans atSecond)
    exact different (sameA.symm.trans sameB)

/-- The kept keys of the next render, each with its next and its previous position. -/
def keptPairs (next : List RepeatKey) (find : RepeatKey → Option Nat) : List (Nat × Nat) :=
  next.zipIdx.filterMap fun entry => (find entry.1).map fun fromIndex => (entry.2, fromIndex)

/-- The next positions of the kept keys that are already in order. -/
def stablePositions (kept : List (Nat × Nat)) : List Nat :=
  (longestIncreasingSubsequence (kept.map Prod.snd)).filterMap fun i => (kept.map Prod.fst)[i]?

theorem keptPairs_sources (next : List RepeatKey) (find : RepeatKey → Option Nat) :
    (keptPairs next find).map Prod.snd = next.filterMap find := by
  rw [keptPairs, List.map_filterMap, ← zipIdx_filterMap_fst next find]
  refine List.filterMap_congr fun entry _ => ?_
  cases find entry.1 <;> rfl

theorem keptPairs_targets (next : List RepeatKey) (find : RepeatKey → Option Nat) :
    ((keptPairs next find).map Prod.fst).Pairwise (· < ·) := by
  have order : (next.zipIdx.map Prod.snd).Pairwise (· < ·) := by
    rw [List.zipIdx_map_snd, ← List.range_eq_range']
    exact List.pairwise_lt_range
  rw [List.pairwise_map] at order ⊢
  refine List.pairwise_filterMap.mpr (order.imp ?_)
  rintro a b less x foundA y foundB
  obtain ⟨_, _, rfl⟩ := Option.map_eq_some_iff.mp foundA
  obtain ⟨_, _, rfl⟩ := Option.map_eq_some_iff.mp foundB
  exact less

/-- The reused copies are the entries the longest increasing subsequence names. -/
theorem reused_eq (next : List RepeatKey) (find : RepeatKey → Option Nat) :
    (next.zipIdx.map (assignOp find (stablePositions (keptPairs next find)))).filterMap RepeatPatchOp.reused? =
      (longestIncreasingSubsequence (next.filterMap find)).filterMap fun i => (next.filterMap find)[i]? := by
  set kept := keptPairs next find with keptDef
  have sources : kept.map Prod.snd = next.filterMap find := keptPairs_sources next find
  have targets : (kept.map Prod.fst).Pairwise (· < ·) := keptPairs_targets next find
  obtain ⟨chain, bounds, _⟩ := longestIncreasingSubsequence_spec (kept.map Prod.snd)
  set chosen := longestIncreasingSubsequence (kept.map Prod.snd) with chosenDef
  have length : (kept.map Prod.snd).length = kept.length := List.length_map ..
  -- A next position is stable exactly when its place among the kept ones was chosen.
  have stableIff : ∀ entry ∈ kept.zipIdx, entry.1.1 ∈ stablePositions kept ↔ entry.2 ∈ chosen := by
    intro entry member
    have atPlace := List.mem_zipIdx_iff_getElem?.mp member
    have atTarget : (kept.map Prod.fst)[entry.2]? = some entry.1.1 := by rw [List.getElem?_map, atPlace]; rfl
    rw [stablePositions, List.mem_filterMap]
    constructor
    · rintro ⟨i, inside, atI⟩
      obtain ⟨boundI, valueI⟩ := List.getElem?_eq_some_iff.mp atI
      obtain ⟨boundE, valueE⟩ := List.getElem?_eq_some_iff.mp atTarget
      have nodup : (kept.map Prod.fst).Nodup := targets.imp fun less => Nat.ne_of_lt less
      have unique : i = entry.2 := nodup.getElem_inj_iff.mp (valueI.trans valueE.symm)
      exact unique ▸ inside
    · intro inside
      exact ⟨entry.2, inside, atTarget⟩
  have picked : (next.zipIdx.map (assignOp find (stablePositions kept))).filterMap RepeatPatchOp.reused? =
      kept.filterMap fun pair => if pair.1 ∈ stablePositions kept then some pair.2 else none := by
    rw [keptDef, keptPairs, List.filterMap_map, List.filterMap_filterMap]
    refine List.filterMap_congr fun entry _ => ?_
    simp only [Function.comp_apply, assignOp]
    cases find entry.1 with
    | none => rfl
    | some i =>
      simp only [List.contains_eq_mem, decide_eq_true_eq, Option.map_some, Option.bind_some]
      split <;> rfl
  have zipped : (kept.filterMap fun pair => if pair.1 ∈ stablePositions kept then some pair.2 else none) =
      (kept.zipIdx.filterMap fun entry => if entry.2 ∈ chosen then some entry.1 else none).map Prod.snd := by
    rw [← zipIdx_filterMap_fst, List.map_filterMap]
    refine List.filterMap_congr fun entry member => ?_
    simp only [stableIff entry member]
    split <;> rfl
  rw [picked, zipped, filterMap_zipIdx_mem (chain.imp fun follows => follows.1)
    (fun i member => ⟨Nat.zero_le i, by rw [Nat.zero_add, ← length]; exact bounds i member⟩), ← sources,
    List.map_filterMap]
  refine List.filterMap_congr fun i _ => ?_
  rw [List.getElem?_map]
  rfl

theorem chosen_elements (sequence : List Nat) :
    ((longestIncreasingSubsequence sequence).filterMap fun i => sequence[i]?) =
      (longestIncreasingSubsequence sequence).map (elementAt sequence) := by
  obtain ⟨_, bounds, _⟩ := longestIncreasingSubsequence_spec sequence
  rw [← List.filterMap_eq_map']
  refine List.filterMap_congr fun i member => ?_
  rw [elementAt, List.getD_eq_getElem?_getD, List.getElem?_eq_getElem (bounds i member), Option.getD_some]

theorem chosen_increasing (sequence : List Nat) :
    ((longestIncreasingSubsequence sequence).filterMap fun i => sequence[i]?).Pairwise (· < ·) := by
  rw [chosen_elements, List.pairwise_map]
  exact (longestIncreasingSubsequence_spec sequence).1.imp fun follows => follows.2

/-- Matching nothing reuses nothing: the patch that removes everything and inserts everything. -/
theorem isPatch_replaceAll (previous : List RepeatKey) {next : List RepeatKey}
    (valid : ∀ key ∈ next, key.Valid) : IsPatch previous next (removeAll previous ++ insertAll next) := by
  have none : next.filterMap (fun _ : RepeatKey => (Option.none : Option Nat)) = [] := by simp
  have same : buildPatch previous next (fun _ => Option.none) [] = removeAll previous ++ insertAll next := by
    rw [buildPatch, none, List.filter_eq_self.mpr (by simp)]
    rfl
  rw [← same]
  have nothing : Matching previous next fun _ => Option.none := by
    constructor
    · intro key _ i found
      cases found
    · exact List.pairwise_of_forall fun _ _ i found => by cases found
  refine nothing.isPatch valid ?_
  rw [List.filterMap_map, List.filterMap_eq_nil_iff.mpr]
  · exact List.Pairwise.nil
  · exact fun entry _ => rfl

/-- In one mode the patch is the one the positions of the previous keys give. -/
theorem diffRepeat_same {previous next : RepeatRender} (old : ResolvedKeys previous.keys)
    (mode : previous.mode = next.mode) (keeps : next.mode ≠ .replace) :
    diffRepeat (some previous) next = buildPatch previous.keys next.keys (previousPosition previous.keys)
      (stablePositions (keptPairs next.keys (previousPosition previous.keys))) := by
  have branch : ¬(next.mode = .replace ∨ previous.mode ≠ next.mode) := by
    rintro (replaced | changed)
    · exact keeps replaced
    · exact changed mode
  simp only [diffRepeat, if_neg branch]
  refine congrArg₂ (· ++ ·) (congrArg _ (List.filter_congr fun entry member => ?_)) rfl
  have atFrom := List.mem_zipIdx_iff_getElem?.mp member
  have found : keyToken entry.1 ∈ next.keys.map keyToken ↔
      entry.2 ∈ next.keys.filterMap (previousPosition previous.keys) := by
    rw [List.mem_map, List.mem_filterMap]
    refine exists_congr fun key => and_congr_right fun _ => ?_
    rw [previousPosition, tokenIndex_eq_some old.nodup]
    constructor
    · exact fun same => ⟨entry.1, atFrom, same.symm⟩
    · rintro ⟨prior, atI, same⟩
      rw [← same, Option.some.inj (atI.symm.trans atFrom)]
  simp only [List.contains_eq_mem, found]

/-- Every previous copy is removed, reused or moved. -/
theorem sources_length (ops : List RepeatPatchOp) :
    (ops.filterMap RepeatPatchOp.source?).length = ops.countP RepeatPatchOp.isRemove +
      (ops.filterMap RepeatPatchOp.reused?).length + ops.countP RepeatPatchOp.isMove := by
  induction ops with
  | nil => rfl
  | cons op ops ih =>
    cases op <;> simp only [List.filterMap_cons, RepeatPatchOp.source?, RepeatPatchOp.reused?, List.countP_cons,
      RepeatPatchOp.isRemove, RepeatPatchOp.isMove, List.length_cons, ih] <;> simp <;> omega

theorem IsPatch.count {previous next : List RepeatKey} {ops : List RepeatPatchOp}
    (patch : IsPatch previous next ops) :
    previous.length = ops.countP RepeatPatchOp.isRemove +
      (ops.filterMap RepeatPatchOp.reused?).length + ops.countP RepeatPatchOp.isMove := by
  rw [← sources_length, patch.sources.length_eq, List.length_range]

end Xript
