import Xript.Fragment.Enclosing
import Xript.Fragment.Unpatched
import Xript.Repeat.PatchMinimal

namespace Xript

/-- The repeat `inner` stands in the copy `i` of the repeat `outer`, at any depth. -/
structure FragmentRepeat.InCopy (inner outer : FragmentRepeat) (i : Nat) : Prop where
  template : outer.site.template <+: inner.site.template
  within : ∃ key, outer.keys[i]? = some key ∧ outer.site.within ++ [key] <+: inner.site.within

/-- A patch reuses nothing inside what an enclosing patch draws anew. -/
def NestedPatchesAgree (repeats : List FragmentRepeat) : Prop :=
  ∀ outer ∈ repeats, ∀ inner ∈ repeats, ∀ i, inner.InCopy outer i →
    ((∃ key, RepeatPatchOp.insert key i ∈ outer.patch) → ∀ op ∈ inner.patch, op.isInsert = true) ∧
    ((∃ op ∈ inner.patch, op.isInsert = false) → ∃ op ∈ outer.patch, op.isKept = true ∧ op.target? = some i)

/-- Where a repeat is drawn anew, no repeat inside one of its copies had copies in the render before. -/
def KeepsEnclosing (earlier now : List FragmentRepeat) : Prop :=
  ∀ outer ∈ now, ∀ inner ∈ now, ∀ i, inner.InCopy outer i →
    ∀ old ∈ earlier, old.site.Same outer.site → Redraws old.render outer.render →
      ∀ seen ∈ earlier, seen.site.Same inner.site → seen.keys = []

theorem RepeatSite.Same.symm {a b : RepeatSite} (same : a.Same b) : b.Same a :=
  ⟨same.template.symm, same.tokens.symm⟩

theorem RepeatSite.Same.trans {a b c : RepeatSite} (first : a.Same b) (second : b.Same c) : a.Same c :=
  ⟨first.template.trans second.template, first.tokens.trans second.tokens⟩

section

variable {previous : Option RepeatState} {tree : FragmentTree} {repeats : List FragmentRepeat}

/-- The state a render leaves holds each of its repeats under its site, and nothing else. -/
theorem before_eq_some (expands : Expands previous tree [] 0 [] repeats) {site : RepeatSite} {render : RepeatRender} :
    before (some (repeats.map FragmentRepeat.entry).reverse) site = some render ↔
      ∃ r ∈ repeats, r.site.Same site ∧ r.render = render := by
  have entries : ∀ {entry : JSString × RepeatRender}, entry ∈ (repeats.map FragmentRepeat.entry).reverse ↔
      ∃ r ∈ repeats, r.entry = entry := by
    intro entry
    rw [List.mem_reverse, List.mem_map]
  have distinct : (Record.keys (repeats.map FragmentRepeat.entry).reverse).Nodup := by
    rw [Record.keys, List.map_reverse, List.nodup_reverse, List.map_map]
    refine List.pairwise_map.mpr (expands.distinct.imp ?_)
    intro a b apart same
    exact apart (repeatSiteId_eq_iff.1 same)
  constructor
  · intro found
    obtain ⟨r, member, same⟩ := entries.mp (Record.mem_of_get found)
    obtain ⟨id, same⟩ := Prod.mk.inj same
    exact ⟨r, member, repeatSiteId_eq_iff.1 id, same⟩
  · rintro ⟨r, member, same, rfl⟩
    refine Record.get_of_mem distinct (entries.mpr ⟨r, member, ?_⟩)
    rw [FragmentRepeat.entry, repeatSiteId_eq_iff.2 same]

theorem Expands.root (expands : Expands previous tree [] 0 [] repeats) {r : FragmentRepeat} (member : r ∈ repeats) :
    templateAt tree r.site.template = true ∧ r.site.within.length = templateDepth tree r.site.template := by
  obtain ⟨j, path, sited⟩ := expands.placed member
  have template : r.site.template = j :: path := by rw [sited.template, Nat.zero_add, List.nil_append]
  rw [template]
  exact ⟨sited.found, by rw [sited.depth, List.length_nil, Nat.zero_add]⟩

/-- A site that a render of the same tree drew before stood in a copy of the enclosing repeat then too. -/
theorem Expands.encloser {other : Option RepeatState} {now : List FragmentRepeat}
    (expands : Expands previous tree [] 0 [] repeats) (expandsNow : Expands other tree [] 0 [] now)
    {outer inner seen : FragmentRepeat} (outerNow : outer ∈ now)
    (template : outer.site.template <+: inner.site.template) {key : RepeatKey}
    (within : outer.site.within ++ [key] <+: inner.site.within) (member : seen ∈ repeats)
    (same : seen.site.Same inner.site) :
    ∃ old ∈ repeats, old.site.Same outer.site ∧ keyToken key ∈ old.keys.map keyToken := by
  have lengths : seen.site.within.length = inner.site.within.length := by
    have := congrArg List.length same.tokens
    rwa [List.length_map, List.length_map] at this
  have short : outer.site.within.length < seen.site.within.length := by
    have := within.length_le
    rw [List.length_append, List.length_singleton] at this
    omega
  obtain ⟨old, inside, key', keyOf, split, above⟩ := expands.enclosing member (Nat.zero_le _) short
  have tokens : old.site.within.map keyToken ++ [keyToken key'] = outer.site.within.map keyToken ++ [keyToken key] := by
    have taken := List.prefix_iff_eq_take.mp within
    rw [List.length_append, List.length_singleton] at taken
    calc old.site.within.map keyToken ++ [keyToken key'] = (old.site.within ++ [key']).map keyToken := by simp
      _ = (seen.site.within.map keyToken).take (outer.site.within.length + 1) := by rw [split, List.map_take]
      _ = (inner.site.within.take (outer.site.within.length + 1)).map keyToken := by rw [same.tokens, List.map_take]
      _ = outer.site.within.map keyToken ++ [keyToken key] := by rw [← taken]; simp
  obtain ⟨contexts, keys⟩ := List.append_inj' tokens rfl
  have depths : templateDepth tree old.site.template = templateDepth tree outer.site.template := by
    rw [← (expands.root inside).2, ← (expandsNow.root outerNow).2]
    have := congrArg List.length contexts
    rwa [List.length_map, List.length_map] at this
  -- Both templates are above the inner one, and as many templates are above each of them.
  have templates : old.site.template = outer.site.template := by
    by_contra different
    rcases List.prefix_or_prefix_of_prefix (same.template ▸ above) template with below | below
    · have := templateDepth_lt (expands.root inside).1 below different (expandsNow.root outerNow).1
      omega
    · have := templateDepth_lt (expandsNow.root outerNow).1 below (Ne.symm different) (expands.root inside).1
      omega
  refine ⟨old, inside, ⟨templates, contexts⟩, ?_⟩
  rw [← (List.cons.inj keys).1]
  exact List.mem_map_of_mem keyOf

end

section

variable (tree : FragmentTree) (profile : FormatProfile)

/-- What a tree expands to under some bindings, whatever was rendered before. -/
def expansion (bindings : Bindings) : List FragmentRepeat := (processTree tree bindings profile none).repeats

theorem keepsEnclosing_unpatched {earlier now : List FragmentRepeat} :
    KeepsEnclosing (earlier.map FragmentRepeat.unpatched) (now.map FragmentRepeat.unpatched) ↔
      KeepsEnclosing earlier now := by
  simp only [KeepsEnclosing, List.forall_mem_map]
  constructor
  · intro keeps outer outerNow inner innerNow i inside
    exact keeps outer outerNow inner innerNow i ⟨inside.template, inside.within⟩
  · intro keeps outer outerNow inner innerNow i inside
    exact keeps outer outerNow inner innerNow i ⟨inside.template, inside.within⟩

theorem keepsEnclosing_expansion (first second : Bindings) (previous other : Option RepeatState) :
    KeepsEnclosing (processTree tree first profile previous).repeats (processTree tree second profile other).repeats ↔
      KeepsEnclosing (expansion tree profile first) (expansion tree profile second) := by
  rw [← keepsEnclosing_unpatched, processTree_unpatched tree first profile previous none,
    processTree_unpatched tree second profile other none, keepsEnclosing_unpatched]
  rfl

/-- On a first render every patch inserts. -/
theorem first_agrees (bindings : Bindings) : NestedPatchesAgree (processTree tree bindings profile none).repeats := by
  obtain ⟨expands, -⟩ := processTree_expands tree bindings profile none
  have inserts : ∀ r ∈ (processTree tree bindings profile none).repeats, ∀ op ∈ r.patch, op.isInsert = true := by
    intro r member
    obtain ⟨resolved, patch⟩ := expands.resolved member
    have absent : before none r.site = none := rfl
    rw [patch, absent]
    have nothing : ∀ (P : RepeatRender → Prop), ∀ render ∈ (none : Option RepeatRender), P render :=
      fun P render is => nomatch is
    exact (diffRepeat_inserts (nothing _) resolved).mpr (nothing _)
  intro outer _ inner innerNow i _
  refine ⟨fun _ => inserts inner innerNow, ?_⟩
  rintro ⟨op, member, other⟩
  rw [inserts inner innerNow op member] at other
  cases other

/-- A later render keeps its nested patches exactly when no repeat was drawn anew around one that had
copies. -/
theorem later_agrees_iff (earlier bindings : Bindings) (previous : Option RepeatState) :
    NestedPatchesAgree (processTree tree bindings profile
        (some (processTree tree earlier profile previous).repeatState)).repeats ↔
      KeepsEnclosing (expansion tree profile earlier) (expansion tree profile bindings) := by
  rw [← keepsEnclosing_expansion tree profile earlier bindings previous
    (some (processTree tree earlier profile previous).repeatState)]
  obtain ⟨expandsThen, state⟩ := processTree_expands tree earlier profile previous
  obtain ⟨expandsNow, -⟩ := processTree_expands tree bindings profile
    (some (processTree tree earlier profile previous).repeatState)
  generalize (processTree tree bindings profile
    (some (processTree tree earlier profile previous).repeatState)).repeats = now at expandsNow ⊢
  rw [state] at expandsNow
  generalize (processTree tree earlier profile previous).repeats = shown at expandsThen expandsNow ⊢
  have found : ∀ {site : RepeatSite} {render : RepeatRender},
      before (some (shown.map FragmentRepeat.entry).reverse) site = some render ↔
        ∃ r ∈ shown, r.site.Same site ∧ r.render = render := before_eq_some expandsThen
  have old : ∀ (site : RepeatSite), ∀ render ∈ before (some (shown.map FragmentRepeat.entry).reverse) site,
      ResolvedKeys render.keys := by
    intro site render is
    obtain ⟨r, member, -, rfl⟩ := found.mp is
    exact (expandsThen.resolved member).1
  constructor
  · intro agrees outer outerNow inner innerNow i inside past pastThen sameOuter redraws seen seenThen sameInner
    obtain ⟨key, present, -⟩ := inside.within
    have inserted : ∃ k, RepeatPatchOp.insert k i ∈ outer.patch := by
      rw [(expandsNow.resolved outerNow).2]
      refine (diffRepeat_insert_at (old outer.site) present).mpr fun render is => Or.inl ?_
      have known := found.mpr ⟨past, pastThen, sameOuter, rfl⟩
      rw [Option.mem_def, known] at is
      exact Option.some.inj is ▸ redraws
    have all := (agrees outer outerNow inner innerNow i inside).1 inserted
    rw [(expandsNow.resolved innerNow).2] at all
    exact (diffRepeat_inserts (old inner.site) (expandsNow.resolved innerNow).1).mp all seen.render
      (found.mpr ⟨seen, seenThen, sameInner, rfl⟩)
  · intro keeps outer outerNow inner innerNow i inside
    obtain ⟨key, present, within⟩ := inside.within
    have fresh : (∃ k, RepeatPatchOp.insert k i ∈ outer.patch) → ∀ op ∈ inner.patch, op.isInsert = true := by
      intro inserted
      rw [(expandsNow.resolved outerNow).2] at inserted
      rw [(expandsNow.resolved innerNow).2]
      refine (diffRepeat_inserts (old inner.site) (expandsNow.resolved innerNow).1).mpr fun render is => ?_
      obtain ⟨seen, seenThen, sameInner, rfl⟩ := found.mp is
      obtain ⟨past, pastThen, sameOuter, kept⟩ := expandsThen.encloser expandsNow outerNow inside.template within
        seenThen sameInner
      have anew := (diffRepeat_insert_at (old outer.site) present).mp inserted past.render
        (found.mpr ⟨past, pastThen, sameOuter, rfl⟩)
      exact keeps outer outerNow inner innerNow i inside past pastThen sameOuter
        (anew.resolve_right fun gone => gone kept) seen seenThen sameInner
    refine ⟨fresh, ?_⟩
    rintro ⟨op, member, other⟩
    have stays : ¬∃ k, RepeatPatchOp.insert k i ∈ outer.patch := by
      intro inserted
      rw [fresh inserted op member] at other
      cases other
    rw [(expandsNow.resolved outerNow).2] at stays ⊢
    exact diffRepeat_kept_at (old outer.site) (expandsNow.resolved outerNow).1 present stays

/-- The renders of a fragment, each threaded the repeat state of the one before. -/
def renders (previous : Option RepeatState) : List Bindings → List BoundTree
  | [] => []
  | bindings :: inputs =>
    let bound := processTree tree bindings profile previous
    bound :: renders (some bound.repeatState) inputs

theorem renders_agree_iff (earlier : Bindings) (previous : Option RepeatState) (inputs : List Bindings) :
    (∀ bound ∈ renders tree profile (some (processTree tree earlier profile previous).repeatState) inputs,
        NestedPatchesAgree bound.repeats) ↔
      (earlier :: inputs).IsChain fun first second =>
        KeepsEnclosing (expansion tree profile first) (expansion tree profile second) := by
  induction inputs generalizing earlier previous with
  | nil => simp [renders]
  | cons bindings inputs ih =>
    rw [renders, List.forall_mem_cons, List.isChain_cons_cons, later_agrees_iff tree profile earlier bindings previous]
    exact and_congr_right fun _ => ih bindings _

end

/-- The nested patches of every render of a run agree with the enclosing ones exactly when no two successive
renders draw a repeat anew around one that had copies. -/
theorem nested_patches_agree_iff (tree : FragmentTree) (profile : FormatProfile) (inputs : List Bindings) :
    (∀ bound ∈ renders tree profile none inputs, NestedPatchesAgree bound.repeats) ↔
      inputs.IsChain fun earlier now =>
        KeepsEnclosing (expansion tree profile earlier) (expansion tree profile now) := by
  cases inputs with
  | nil => simp [renders]
  | cons bindings inputs =>
    rw [renders, List.forall_mem_cons]
    have later := renders_agree_iff tree profile bindings none inputs
    exact ⟨fun all => later.mp all.2, fun chain => ⟨first_agrees tree profile bindings, later.mpr chain⟩⟩

/-- A keyed list inside the copies of one that has no keys. -/
def unkeyedRows : FragmentTree :=
  [.element (js "div") [(js "data-each", .str (js "row in rows"))]
    [.element (js "b") [(js "data-each", .str (js "cell in row")), (js "data-key", .str (js "cell"))] [] false] false]

def oneCell : Bindings := ⟨[(js "rows", .arr [.arr [.str (js "x")]])], []⟩

/-- Rendered twice, the row is drawn anew and the cell inside it is said to be kept. -/
theorem fresh_copy_reuses :
    ¬∀ bound ∈ renders unkeyedRows textHtml none [oneCell, oneCell], NestedPatchesAgree bound.repeats := by
  intro agree
  have second := agree (processTree unkeyedRows oneCell textHtml
    (some (processTree unkeyedRows oneCell textHtml none).repeatState)) (by simp [renders])
  have repeats : (processTree unkeyedRows oneCell textHtml
      (some (processTree unkeyedRows oneCell textHtml none).repeatState)).repeats =
      [⟨⟨[0], []⟩, [], 0, 1, js "row in rows", none, .replace, [.number (F64.ofNat 0)],
          [.remove (.number (F64.ofNat 0)) 0, .insert (.number (F64.ofNat 0)) 0]⟩,
        ⟨⟨[0, 0], [.number (F64.ofNat 0)]⟩, [0], 0, 1, js "cell in row", some (js "cell"), .keyed, [.text (js "x")],
          [.reuse (.text (js "x")) 0 0]⟩] := by
    decide +kernel
  rw [repeats] at second
  have inside := (second _ (List.mem_cons_self ..) _ (List.mem_cons_of_mem _ (List.mem_cons_self ..)) 0
    ⟨by decide, .number (F64.ofNat 0), rfl, List.prefix_refl _⟩).1
    ⟨.number (F64.ofNat 0), List.mem_cons_of_mem _ (List.mem_cons_self ..)⟩
  cases inside _ (List.mem_cons_self ..)

end Xript
