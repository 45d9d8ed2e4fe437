import Xript.Extends.Blocks

namespace Xript

open Collecting

/-- The keys the runtime sets by rules of their own. -/
def runtimeKeys : List JSString := resolveMapKeys ++ ["slots", "formats", "vocabularies"].map js ++ resolveScalarKeys

/-- The validator also has one for `execution`. -/
def validatorKeys : List JSString := js "execution" :: runtimeKeys

/-- Alike under every key but `execution`, and `extends`, which a resolution removes. -/
def SameBut (r v : Record Json) : Prop :=
  ∀ key, key ≠ js "execution" → key ≠ js "extends" → Record.get r key = Record.get v key

theorem runtimeKeys_plain {key : JSString} (inside : key ∈ runtimeKeys) :
    key ≠ js "execution" ∧ key ≠ js "extends" ∧ key ≠ js "__proto__" := by
  have all : ∀ key ∈ runtimeKeys, key ≠ js "execution" ∧ key ≠ js "extends" ∧ key ≠ js "__proto__" := by
    decide +kernel
  exact all key inside

theorem SameBut.block {baseR baseV childR childV : Record Json} (sameBase : SameBut baseR baseV)
    (sameChild : SameBut childR childV) {key : JSString} (inside : key ∈ runtimeKeys)
    (merge : Option Json → Option Json → Except ManifestError Json) :
    validatorBlock merge baseV childV key = validatorBlock merge baseR childR key := by
  obtain ⟨notExecution, notExtends, -⟩ := runtimeKeys_plain inside
  unfold validatorBlock
  simp only [← Record.get_isSome, sameBase key notExecution notExtends, sameChild key notExecution notExtends]

section

variable {baseR baseV childR childV : Record Json}

/-- The runtime's blocks next to the validator's, which holds one more. -/
def PairedBlocks (baseR baseV childV : Record Json) (blocks others : List Block) : Prop :=
  ∃ paired, List.Forall₂ (AlikeBlock baseR) blocks paired ∧
    others.Perm (paired ++
      [(js "execution", mergeExecution (Record.get baseV (js "execution")) (Record.get childV (js "execution")))])

theorem mirrors_blocks (tameBase : TameManifest baseR) (tameChild : TameManifest childR) (sameBase : SameBut baseR baseV)
    (sameChild : SameBut childR childV) :
    Mirrors (PairedBlocks baseR baseV childV) (runtimeBlocks baseR childR) (validatorBlocks baseV childV) := by
  have maps : Mirrors (List.Forall₂ (AlikeBlock baseR)) (resolveMapKeys.mapM (runtimeMap baseR childR))
      (resolveMapKeys.mapM fun mapKey => validatorBlock (fun baseMap childMap => do
        let merged ← validatorMergeMaps baseMap childMap mapKey
        return .obj merged) baseV childV mapKey) := by
    refine Mirrors.mapM fun key isMap => ?_
    rw [sameBase.block sameChild (List.mem_append_left _ (List.mem_append_left _ isMap))]
    exact mirrors_map (tameBase.maps key isMap) (tameChild.maps key isMap)
  have slots := mirrors_slots tameBase.slots tameChild.slots
  have formats := mirrors_declarations (js "format") mergesAlike_format tameBase.formats tameChild.formats
  have vocabularies :=
    mirrors_declarations (js "vocabulary") mergesAlike_vocabulary tameBase.vocabularies tameChild.vocabularies
  rw [← sameBase.block sameChild (by decide +kernel)] at slots formats vocabularies
  have scalars : List.Forall₂ (AlikeBlock baseR) (resolveScalarKeys.map fun key => (key, Record.get childR key))
      (resolveScalarKeys.map fun key => (key, Record.get childV key)) := by
    refine List.forall₂_map_left_iff.mpr (List.forall₂_map_right_iff.mpr (List.forall₂_same.mpr fun key inside => ?_))
    obtain ⟨notExecution, notExtends, -⟩ := runtimeKeys_plain (List.mem_append_right _ inside)
    exact ⟨rfl, by rw [sameChild key notExecution notExtends]⟩
  refine maps.bind fun as bs alikeMaps _ => ?_
  refine slots.bind fun a b alikeSlots _ => ?_
  refine formats.bind fun a' b' alikeFormats _ => ?_
  refine vocabularies.bind fun a'' b'' alikeVocabularies _ => .pure ?_
  refine ⟨bs ++ [b, b', b''] ++ resolveScalarKeys.map fun key => (key, Record.get childV key), ?_, ?_⟩
  · exact List.rel_append (List.rel_append alikeMaps
      (.cons alikeSlots (.cons alikeFormats (.cons alikeVocabularies .nil)))) scalars
  · rw [show ∀ e : Block, [b, b', b'', e] = [b, b', b''] ++ [e] from fun _ => rfl, ← List.append_assoc,
      List.append_assoc (resolveScalarKeys.map _)]
    exact List.Perm.append_right _ List.perm_append_comm

/-- What a block of a merged manifest is, by its key. -/
def BlockKind (key : JSString) (value : Json) : Prop :=
  (key ∈ resolveMapKeys → TameMap value) ∧ (key = js "slots" → TameSlots value) ∧
    (key = js "formats" ∨ key = js "vocabularies" → TameDeclarations value)

theorem bringsNoName_format : BringsNoName (mergeFormat runtimePolicy) :=
  fun _ _ _ _ returns => returns_mergeDeclaration returns

theorem bringsNoName_vocabulary : BringsNoName (mergeVocabulary runtimePolicy) :=
  fun _ _ _ _ returns => returns_mergeDeclaration returns

theorem returns_blocks {base child : Record Json} (tameBase : TameManifest base) (tameChild : TameManifest child) {blocks : List Block}
    (returns : Returns (runtimeBlocks base child) blocks) :
    Record.keys blocks = runtimeKeys ∧
      ∀ block ∈ blocks, ∀ value, settled base block = some value → BlockKind block.1 value := by
  obtain ⟨maps, mapped, returns⟩ := returns_bind returns
  obtain ⟨slots, madeSlots, returns⟩ := returns_bind returns
  obtain ⟨formats, madeFormats, returns⟩ := returns_bind returns
  obtain ⟨vocabularies, madeVocabularies, returns⟩ := returns_bind returns
  obtain rfl := returns_pure returns
  obtain ⟨slotsKey, slotsKind⟩ := returns_slots tameBase.slots madeSlots
  obtain ⟨formatsKey, formatsKind⟩ :=
    returns_declarations bringsNoName_format tameBase.formats tameChild.formats madeFormats
  obtain ⟨vocabulariesKey, vocabulariesKind⟩ :=
    returns_declarations bringsNoName_vocabulary tameBase.vocabularies tameChild.vocabularies madeVocabularies
  have mapKinds : ∀ keys : List JSString, keys ⊆ resolveMapKeys → ∀ maps : List Block,
      List.Forall₂ (fun key block => Returns (runtimeMap base child key) block) keys maps →
      Record.keys maps = keys ∧ ∀ block ∈ maps, block.1 ∈ resolveMapKeys ∧
        ∀ value, settled base block = some value → TameMap value := by
    intro keys areMaps maps mapped
    induction mapped with
    | nil => exact ⟨rfl, fun _ member => nomatch member⟩
    | @cons key block keys maps made rest ih =>
      have isMap := areMaps (List.mem_cons_self ..)
      have ⟨restKeys, restKinds⟩ := ih fun other inside => areMaps (List.mem_cons_of_mem _ inside)
      have ⟨named, kind⟩ := returns_map (tameBase.maps key isMap) (tameChild.maps key isMap) made
      refine ⟨?_, fun other member => ?_⟩
      · rw [Record.keys, List.map_cons, named]
        exact congrArg (key :: ·) restKeys
      · rcases List.mem_cons.mp member with rfl | later
        · exact ⟨named ▸ isMap, kind⟩
        · exact restKinds other later
  obtain ⟨mapKeys, kinds⟩ := mapKinds _ (List.Subset.refl _) maps (returns_mapM mapped)
  have apart : ∀ key ∈ resolveMapKeys, key ≠ js "slots" ∧ key ≠ js "formats" ∧ key ≠ js "vocabularies" := by
    decide +kernel
  have slotsApart : js "slots" ∉ resolveMapKeys ∧ js "slots" ≠ js "formats" ∧ js "slots" ≠ js "vocabularies" := by
    decide +kernel
  have formatsApart : js "formats" ∉ resolveMapKeys ∧ js "formats" ≠ js "slots" := by decide +kernel
  have vocabulariesApart : js "vocabularies" ∉ resolveMapKeys ∧ js "vocabularies" ≠ js "slots" := by decide +kernel
  have scalarsApart : ∀ key ∈ resolveScalarKeys, key ∉ resolveMapKeys ∧ key ≠ js "slots" ∧ key ≠ js "formats" ∧
      key ≠ js "vocabularies" := by decide +kernel
  refine ⟨?_, fun block member value found => ?_⟩
  · simp only [Record.keys, List.map_append, List.map_cons, List.map_nil, slotsKey, formatsKey, vocabulariesKey]
    rw [show maps.map Prod.fst = resolveMapKeys from mapKeys]
    simp [runtimeKeys, Function.comp_def]
  · rcases List.mem_append.mp member with member | scalar
    · rcases List.mem_append.mp member with map | other
      · obtain ⟨isMap, kind⟩ := kinds block map
        obtain ⟨notSlots, notFormats, notVocabularies⟩ := apart _ isMap
        exact ⟨fun _ => kind value found, fun same => absurd same notSlots,
          fun same => (same.elim notFormats notVocabularies).elim⟩
      · simp only [List.mem_cons, List.not_mem_nil, or_false] at other
        rcases other with rfl | rfl | rfl
        · exact ⟨fun isMap => absurd (slotsKey ▸ isMap) slotsApart.1, fun _ => slotsKind value found,
            fun same => (same.elim (slotsKey ▸ slotsApart.2.1) (slotsKey ▸ slotsApart.2.2)).elim⟩
        · exact ⟨fun isMap => absurd (formatsKey ▸ isMap) formatsApart.1,
            fun same => absurd (formatsKey ▸ same) formatsApart.2, fun _ => formatsKind value found⟩
        · exact ⟨fun isMap => absurd (vocabulariesKey ▸ isMap) vocabulariesApart.1,
            fun same => absurd (vocabulariesKey ▸ same) vocabulariesApart.2, fun _ => vocabulariesKind value found⟩
    · obtain ⟨key, isScalar, rfl⟩ := List.mem_map.mp scalar
      obtain ⟨notMap, notSlots, notFormats, notVocabularies⟩ := scalarsApart key isScalar
      exact ⟨fun isMap => absurd isMap notMap, fun same => absurd same notSlots,
        fun same => (same.elim notFormats notVocabularies).elim⟩

end

theorem get_setBlocks {blocks : List Block} (distinct : (Record.keys blocks).Nodup)
    (own : js "__proto__" ∉ Record.keys blocks) (base : Record Json) (key : JSString) :
    Record.get (setBlocks base blocks) key = ((Record.get blocks key).join).or (Record.get base key) := by
  induction blocks generalizing base with
  | nil => rfl
  | cons block blocks ih =>
    rw [Record.keys, List.map_cons] at distinct own
    obtain ⟨absent, rest⟩ := List.nodup_cons.mp distinct
    rw [setBlocks, List.foldl_cons, ← setBlocks, ih rest fun inside => own (List.mem_cons_of_mem _ inside),
      Record.get_cons]
    obtain ⟨name, value⟩ := block
    by_cases here : key = name
    · have gone : Record.get blocks key = none := Record.get_eq_none.2 (here ▸ absent)
      rw [gone, if_pos here]
      cases value with
      | none => rfl
      | some value =>
        have plain : name ≠ js "__proto__" := fun proto => own (proto ▸ List.mem_cons_self ..)
        show Record.get (Record.assign base name value) key = some value
        rw [here, Record.get_assign_self plain]
    · rw [if_neg here]
      cases value with
      | none => rfl
      | some value => exact congrArg _ (Record.get_assign_of_ne here value)

/-- What a merged manifest has under a key. -/
theorem get_assemble {base child : Record Json} {blocks : List Block} (distinct : (Record.keys child).Nodup)
    (own : js "__proto__" ∉ Record.keys child) (distinctBlocks : (Record.keys blocks).Nodup)
    (ownBlocks : js "__proto__" ∉ Record.keys blocks) (key : JSString) :
    Record.get (assemble base child blocks) key =
      if key = js "extends" then none
      else
        match Record.get blocks key with
        | some block => block.or (Record.get base key)
        | none => (Record.get child key).or (Record.get base key) := by
  unfold assemble
  rw [Record.get_erase]
  by_cases extending : key = js "extends"
  · rw [if_pos extending, if_pos extending]
  · rw [if_neg extending, if_neg extending]
    cases found : Record.get blocks key with
    | some block =>
      have skipped : key ∈ js "extends" :: blocks.map Prod.fst :=
        List.mem_cons_of_mem _ (Record.mem_keys_of_get found)
      rw [get_overlay_skipped skipped, get_setBlocks distinctBlocks ownBlocks, found]
      rfl
    | none =>
      have unskipped : key ∉ js "extends" :: blocks.map Prod.fst := fun inside =>
        (List.mem_cons.mp inside).elim extending (Record.get_eq_none.1 found)
      rw [get_overlay unskipped _ distinct own, get_setBlocks distinctBlocks ownBlocks, found]
      rfl

/-- The own keys of an object a merge keeps in order. -/
structure Tidy (manifest : Record Json) : Prop where
  distinct : (Record.keys manifest).Nodup
  own : js "__proto__" ∉ Record.keys manifest

theorem Tidy.assign {r : Record Json} (tidy : Tidy r) (key : JSString) (value : Json) :
    Tidy (Record.assign r key value) := by
  refine ⟨Record.nodup_keys_assign tidy.distinct key value, fun inside => ?_⟩
  unfold Record.assign at inside
  split at inside
  · exact tidy.own inside
  · rename_i sets
    rcases Record.mem_keys_set.1 inside with same | old
    · exact sets ⟨same.symm, same ▸ tidy.own⟩
    · exact tidy.own old

theorem Tidy.erase {r : Record Json} (tidy : Tidy r) (key : JSString) : Tidy (Record.erase r key) :=
  ⟨Record.nodup_keys_erase tidy.distinct key, fun inside =>
    tidy.own ((List.filter_sublist.map Prod.fst).subset inside)⟩

theorem Tidy.assemble {base : Record Json} (tidy : Tidy base) (child : Record Json) (blocks : List Block) :
    Tidy (assemble base child blocks) := by
  refine Tidy.erase ?_ _
  have set : ∀ (blocks : List Block) (r : Record Json), Tidy r → Tidy (setBlocks r blocks) := by
    intro blocks
    induction blocks with
    | nil => exact fun _ tidy => tidy
    | cons block blocks ih =>
      intro r tidy
      refine ih _ ?_
      simp only
      split
      · exact tidy.assign _ _
      · exact tidy
  have overlaid : ∀ (skip : List JSString) (child r : Record Json), Tidy r → Tidy (overlay skip r child) := by
    intro skip child
    induction child with
    | nil => exact fun _ tidy => tidy
    | cons entry child ih =>
      intro r tidy
      refine ih _ ?_
      simp only
      split
      · exact tidy
      · exact tidy.assign _ _
  exact overlaid _ _ _ (set _ _ tidy)

theorem TameManifest.tidy {manifest : Record Json} (tame : TameManifest manifest) : Tidy manifest := ⟨tame.distinct, tame.own⟩

theorem TameManifest.nil : TameManifest [] :=
  ⟨List.nodup_nil, List.not_mem_nil, fun _ _ _ found => (nomatch found), fun _ found => (nomatch found),
    fun _ found => (nomatch found), fun _ found => (nomatch found), fun _ found => (nomatch found)⟩

theorem Holds.erase {manifest : Record Json} {key removed : JSString} {kind : Json → Prop}
    (holds : Holds manifest key kind) : Holds (Record.erase manifest removed) key kind := by
  intro value found
  rw [Record.get_erase] at found
  split at found
  · cases found
  · exact holds value found

theorem TameManifest.erase {manifest : Record Json} (tame : TameManifest manifest) (key : JSString) : TameManifest (Record.erase manifest key) :=
  ⟨(tame.tidy.erase key).distinct, (tame.tidy.erase key).own, fun key isMap => (tame.maps key isMap).erase,
    tame.slots.erase, tame.formats.erase, tame.vocabularies.erase, tame.execution.erase⟩

/-- A merge of tame manifests is tame. -/
theorem TameManifest.assemble {base child : Record Json} (tameBase : TameManifest base) (tameChild : TameManifest child) {blocks : List Block}
    (named : Record.keys blocks = runtimeKeys)
    (kinds : ∀ block ∈ blocks, ∀ value, settled base block = some value → BlockKind block.1 value) :
    TameManifest (assemble base child blocks) := by
  have distinct : (Record.keys blocks).Nodup := named ▸ by decide +kernel
  have own : js "__proto__" ∉ Record.keys blocks := named ▸ by decide +kernel
  have blockKind : ∀ key ∈ runtimeKeys, Holds (Xript.assemble base child blocks) key (BlockKind key) := by
    intro key inside value found
    obtain ⟨-, notExtends, -⟩ := runtimeKeys_plain inside
    obtain ⟨block, atKey⟩ := Option.isSome_iff_exists.mp (Record.get_isSome.mpr (named ▸ inside))
    rw [get_assemble tameChild.distinct tameChild.own distinct own, if_neg notExtends, atKey] at found
    exact kinds (key, block) (Record.mem_of_get atKey) value found
  have tidy := tameBase.tidy.assemble child blocks
  refine ⟨tidy.distinct, tidy.own, ?_, ?_, ?_, ?_, ?_⟩
  · exact fun key isMap value found =>
      (blockKind key (List.mem_append_left _ (List.mem_append_left _ isMap)) value found).1 isMap
  · exact fun value found => (blockKind _ (by decide +kernel) value found).2.1 rfl
  · exact fun value found => (blockKind _ (by decide +kernel) value found).2.2 (Or.inl rfl)
  · exact fun value found => (blockKind _ (by decide +kernel) value found).2.2 (Or.inr rfl)
  · intro value found
    have unset : Record.get blocks (js "execution") = none := Record.get_eq_none.2 (named ▸ by decide +kernel)
    rw [get_assemble tameChild.distinct tameChild.own distinct own, if_neg (by decide +kernel), unset] at found
    simp only at found
    cases stated : Record.get child (js "execution") with
    | some own =>
      rw [stated] at found
      exact Option.some.inj found ▸ tameChild.execution own stated
    | none =>
      rw [stated] at found
      exact tameBase.execution value found

section

variable {baseR baseV childR childV : Record Json}

/-- What the runtime and the validator make of merging alike manifests over alike bases. -/
structure MergedAlike (baseR baseV childR childV r v : Record Json) : Prop where
  tame : TameManifest r
  tidy : Tidy v
  same : SameBut r v
  resolved : Record.get r (js "extends") = none ∧ Record.get v (js "extends") = none
  executionR : Record.get r (js "execution") =
    (Record.get childR (js "execution")).or (Record.get baseR (js "execution"))
  executionV : Record.get v (js "execution") =
    (mergeExecution (Record.get baseV (js "execution")) (Record.get childV (js "execution"))).or
      (Record.get baseV (js "execution"))

theorem get_alikeBlocks {base : Record Json} {blocks partners : List Block}
    (alike : List.Forall₂ (AlikeBlock base) blocks partners) (key : JSString) :
    (Record.get blocks key = none ∧ Record.get partners key = none) ∨
      ∃ block partner, Record.get blocks key = some block ∧ Record.get partners key = some partner ∧
        block.or (Record.get base key) = partner.or (Record.get base key) := by
  induction alike with
  | nil => exact Or.inl ⟨rfl, rfl⟩
  | @cons block partner blocks partners first rest ih =>
    rw [Record.get_cons, Record.get_cons, ← first.1]
    by_cases here : key = block.1
    · have settles : block.2.or (Record.get base block.1) = partner.2.or (Record.get base partner.1) := first.2
      rw [← first.1, ← here] at settles
      rw [if_pos here, if_pos here]
      exact Or.inr ⟨_, _, rfl, rfl, settles⟩
    · rw [if_neg here, if_neg here]
      exact ih

theorem PairedBlocks.mergedAlike (tameBase : TameManifest baseR) (tameChild : TameManifest childR) (tidyBase : Tidy baseV)
    (tidyChild : Tidy childV) (sameBase : SameBut baseR baseV) (sameChild : SameBut childR childV)
    {blocks others : List Block} (paired : PairedBlocks baseR baseV childV blocks others)
    (returns : Returns (runtimeBlocks baseR childR) blocks) :
    MergedAlike baseR baseV childR childV (assemble baseR childR blocks) (assemble baseV childV others) := by
  obtain ⟨named, kinds⟩ := returns_blocks tameBase tameChild returns
  obtain ⟨partners, alike, perm⟩ := paired
  have samePartners : Record.keys partners = runtimeKeys := by
    rw [← named]
    refine (List.forall₂_eq_eq_eq ▸ ?_ : Record.keys partners = Record.keys blocks)
    exact (List.forall₂_map_left_iff.mpr (List.forall₂_map_right_iff.mpr (alike.flip.imp fun _ _ h => h.1.symm)))
  have permKeys := perm.map Prod.fst
  have distinct : (Record.keys blocks).Nodup := named ▸ by decide +kernel
  have own : js "__proto__" ∉ Record.keys blocks := named ▸ by decide +kernel
  have keysOthers : (Record.keys others).Perm (runtimeKeys ++ [js "execution"]) := by
    rw [← samePartners]
    simpa [Record.keys] using permKeys
  have distinctOthers : (Record.keys others).Nodup := keysOthers.nodup_iff.mpr (by decide +kernel)
  have ownOthers : js "__proto__" ∉ Record.keys others := fun inside =>
    absurd (keysOthers.mem_iff.mp inside) (by decide +kernel)
  have getOthers : ∀ key, Record.get others key = (Record.get partners key).or (Record.get [(js "execution",
      mergeExecution (Record.get baseV (js "execution")) (Record.get childV (js "execution")))] key) := by
    intro key
    rw [Record.get_perm distinctOthers perm, Record.get_append]
  have getR := @get_assemble baseR _ _ tameChild.distinct tameChild.own distinct own
  have getV := @get_assemble baseV _ _ tidyChild.distinct tidyChild.own distinctOthers ownOthers
  refine ⟨tameBase.assemble tameChild named kinds, tidyBase.assemble childV others, ?_, ?_, ?_, ?_⟩
  · intro key notExecution notExtends
    rw [getR, getV, if_neg notExtends, if_neg notExtends, getOthers]
    have unset : Record.get [(js "execution", mergeExecution (Record.get baseV (js "execution"))
        (Record.get childV (js "execution")))] key = none := by
      rw [Record.get_cons, if_neg notExecution, Record.get_nil]
    rw [unset, Option.or_none, ← sameChild key notExecution notExtends, ← sameBase key notExecution notExtends]
    rcases get_alikeBlocks alike key with ⟨none, none'⟩ | ⟨block, partner, atKey, atKey', settles⟩
    · rw [none, none']
    · rw [atKey, atKey']
      exact settles
  · rw [getR, getV, if_pos rfl, if_pos rfl]
    exact ⟨rfl, rfl⟩
  · have unset : Record.get blocks (js "execution") = none := Record.get_eq_none.2 (named ▸ by decide +kernel)
    rw [getR, if_neg (by decide +kernel), unset]
  · have unset : Record.get partners (js "execution") = none :=
      Record.get_eq_none.2 (samePartners ▸ by decide +kernel)
    rw [getV, if_neg (by decide +kernel), getOthers, unset, Option.none_or, Record.get_cons, if_pos rfl]

end

end Xript
