import Xript.Fragment.Sites

namespace Xript

def FragmentNode.children : FragmentNode → List FragmentNode
  | .text _ _ => []
  | .element _ _ children _ => children

/-- What a render records about a repeat for the next one. -/
def FragmentRepeat.render (r : FragmentRepeat) : RepeatRender := ⟨r.mode, r.keys⟩

def FragmentRepeat.entry (r : FragmentRepeat) : JSString × RepeatRender := (repeatSiteId r.site, r.render)

/-- The previous render of a site. -/
def before (previous : Option RepeatState) (site : RepeatSite) : Option RepeatRender :=
  previous.bind fun state => state.lookup (repeatSiteId site)

/-- The repeats that the expansion of sibling nodes makes, in document order: `source` is the path of their
parent, `index` the place of the first, and `within` the keys of the enclosing copies. -/
inductive Expands (previous : Option RepeatState) :
    List FragmentNode → List Nat → Nat → List RepeatKey → List FragmentRepeat → Prop where
  | nil {source : List Nat} {index : Nat} {within : List RepeatKey} : Expands previous [] source index within []
  | text {value : JSString} {segments : Option (List TextSegment)} {nodes : List FragmentNode} {source : List Nat}
      {index : Nat} {within : List RepeatKey} {rest : List FragmentRepeat} :
      Expands previous nodes source (index + 1) within rest →
      Expands previous (.text value segments :: nodes) source index within rest
  | element {name : JSString} {props : Props} {children nodes : List FragmentNode} {selfClosing : Bool}
      {source : List Nat} {index : Nat} {within : List RepeatKey} {inner rest : List FragmentRepeat} :
      stringProp props "data-each" = none →
      Expands previous children (source ++ [index]) 0 within inner →
      Expands previous nodes source (index + 1) within rest →
      Expands previous (.element name props children selfClosing :: nodes) source index within (inner ++ rest)
  | template {name : JSString} {props : Props} {children nodes : List FragmentNode} {selfClosing : Bool}
      {source : List Nat} {index : Nat} {within : List RepeatKey} {each : JSString} {r : FragmentRepeat}
      {copies : List (RepeatKey × List FragmentRepeat)} {rest : List FragmentRepeat} :
      stringProp props "data-each" = some each → r.site = ⟨source ++ [index], within⟩ →
      r.patch = diffRepeat (before previous r.site) r.render → ResolvedKeys r.keys → r.keys = copies.map Prod.fst →
      (∀ copy ∈ copies, Expands previous children (source ++ [index]) 0 (within ++ [copy.1]) copy.2) →
      Expands previous nodes source (index + 1) within rest →
      Expands previous (.element name props children selfClosing :: nodes) source index within
        (r :: copies.flatMap Prod.snd ++ rest)

/-- From `st` to `st'` the pass recorded the repeats `new`. -/
structure Records (st st' : BindState) (new : List FragmentRepeat) : Prop where
  repeats : st'.repeats = st.repeats ++ new
  next : st'.next = (new.map FragmentRepeat.entry).reverse ++ st.next
  copies : st'.remainingCopies ≤ st.remainingCopies

namespace Records

theorem refl (st : BindState) : Records st st [] := ⟨(List.append_nil _).symm, rfl, Nat.le_refl _⟩

theorem trans {st st' st'' : BindState} {first second : List FragmentRepeat} (one : Records st st' first)
    (two : Records st' st'' second) : Records st st'' (first ++ second) where
  repeats := by rw [two.repeats, one.repeats, List.append_assoc]
  next := by rw [two.next, one.next, List.map_append, List.reverse_append, List.append_assoc]
  copies := two.copies.trans one.copies

end Records

theorem reportCondition_records (props : Props) (bindings : Bindings) (path : List Nat) (st : BindState) :
    Records st (reportCondition props bindings path st) [] := by
  unfold reportCondition
  split <;> exact ⟨(List.append_nil _).symm, rfl, Nat.le_refl _⟩

theorem writeBinding_records (profile : FormatProfile) (name : JSString) (props : Props) (children : List FragmentNode)
    (selfClosing : Bool) (bindings : Bindings) (path : List Nat) (st : BindState) :
    Records st (writeBinding profile name props children selfClosing bindings path st).2 [] := by
  have kept : Records st st [] := .refl st
  unfold writeBinding
  split
  · exact kept
  · dsimp only
    split
    · exact kept
    · split <;> exact ⟨(List.append_nil _).symm, rfl, Nat.le_refl _⟩

theorem bindElement_records {profile : FormatProfile} {bindKids : BindState → List FragmentNode × BindState}
    {name : JSString} {props : Props} {selfClosing : Bool} {bindings : Bindings} {path : List Nat} {st : BindState}
    {new : List FragmentRepeat} (kids : Records st (bindKids st).2 new) :
    Records st (bindElement profile bindKids name props selfClosing bindings path st).2 new := by
  have own := (reportCondition_records props bindings path (bindKids st).2).trans
    (writeBinding_records profile name props (bindKids st).1 selfClosing bindings path _)
  have whole := kids.trans own
  rw [List.append_nil, List.append_nil] at whole
  exact whole

theorem takeItems_records (name : JSString) (source : List Nat) (items : List ExprValue) (st : BindState) :
    Records st (takeItems name source items st).2 [] := by
  unfold takeItems
  dsimp only
  split <;> exact ⟨(List.append_nil _).symm, rfl, Nat.sub_le _ _⟩

theorem takeItems_length (name : JSString) (source : List Nat) (items : List ExprValue) (st : BindState) :
    (takeItems name source items st).1.length ≤ st.remainingCopies := by
  simp only [takeItems, List.length_take]
  exact Nat.min_le_left _ _

theorem reportKeyProblem_records (name : JSString) (source : List Nat) (keySource : Option JSString)
    (problem : Option RepeatKeyProblem) (st : BindState) :
    Records st (reportKeyProblem name source keySource problem st) [] := by
  unfold reportKeyProblem
  split <;> exact ⟨(List.append_nil _).symm, rfl, Nat.le_refl _⟩

theorem scanKeys_length {values : List ExprValue} {seen : List JSString} {duplicate found : Bool}
    (scanned : scanKeys seen duplicate values = some found) : (values.filterMap asRepeatKey).length = values.length := by
  induction values generalizing seen duplicate with
  | nil => rfl
  | cons value rest ih =>
    rw [scanKeys] at scanned
    split at scanned
    · cases scanned
    · rename_i key found
      rw [List.filterMap_cons_some found, List.length_cons, List.length_cons, ih scanned]

theorem indexKeys_length (n : Nat) : (indexKeys n).length = n := by rw [indexKeys, List.length_map, List.length_range]

/-- A repeat has one key a copy. -/
theorem resolveCopies_length (keySource : Option JSString) (scopes : List Bindings) :
    (resolveCopies keySource scopes).keys.length = scopes.length := by
  cases keySource with
  | none => exact indexKeys_length _
  | some keySource =>
    simp only [resolveCopies, resolveRepeatKeys]
    split
    · rw [indexKeys_length, List.length_map]
    · rw [indexKeys_length, List.length_map]
    · rename_i scanned
      rw [scanKeys_length scanned, List.length_map]

/-- The keys of a repeat are told apart by their tokens. -/
theorem resolveCopies_resolved (keySource : Option JSString) {scopes : List Bindings} (bounded : scopes.length ≤ 2 ^ 53) :
    ResolvedKeys (resolveCopies keySource scopes).keys := by
  cases keySource with
  | none => exact indexKeys_resolved bounded
  | some keySource =>
    refine resolveRepeatKeys_resolved _ ?_
    intro values same
    obtain rfl := Option.some.inj same
    rwa [List.length_map]

section

variable {profile : FormatProfile} {previous : Option RepeatState}

theorem bindCopies_records {children : List FragmentNode} {source : List Nat} {within : List RepeatKey} {limit : Nat}
    {bindCopy : Bindings → RepeatKey → Nat → BindState → FragmentNode × BindState}
    (each : ∀ scope key out st, st.remainingCopies ≤ limit → ∃ new, Records st (bindCopy scope key out st).2 new ∧
      Expands previous children source 0 (within ++ [key]) new) :
    ∀ (copies : List (Bindings × RepeatKey)) (out : Nat) (st : BindState), st.remainingCopies ≤ limit →
      ∃ made : List (RepeatKey × List FragmentRepeat), made.map Prod.fst = copies.map Prod.snd ∧
        Records st (bindCopies bindCopy copies out st).2 (made.flatMap Prod.snd) ∧
        ∀ copy ∈ made, Expands previous children source 0 (within ++ [copy.1]) copy.2 := by
  intro copies
  induction copies with
  | nil => exact fun out st _ => ⟨[], rfl, .refl st, fun copy member => nomatch member⟩
  | cons copy copies ih =>
    intro out st bounded
    obtain ⟨scope, key⟩ := copy
    obtain ⟨new, first, expands⟩ := each scope key out st bounded
    obtain ⟨made, keys, others, all⟩ := ih (out + 1) (bindCopy scope key out st).2 (first.copies.trans bounded)
    refine ⟨(key, new) :: made, by rw [List.map_cons, List.map_cons, keys], first.trans others, ?_⟩
    intro copy member
    rcases List.mem_cons.mp member with rfl | later
    · exact expands
    · exact all copy later

/-- One repeat: it is recorded before the repeats inside its copies. -/
theorem expandRepeat_records {children : List FragmentNode} {source : List Nat}
    {bindKids : Bindings → List Nat → List RepeatKey → BindState → List FragmentNode × BindState}
    (kids : ∀ bindings path within st, st.remainingCopies ≤ maxRepeatCopies →
      ∃ new, Records st (bindKids bindings path within st).2 new ∧ Expands previous children source 0 within new)
    (each name : JSString) (props : Props) (selfClosing : Bool) (bindings : Bindings) (parentPath : List Nat)
    (within : List RepeatKey) (out : Nat) (st : BindState) (bounded : st.remainingCopies ≤ maxRepeatCopies) :
    ∃ (r : FragmentRepeat) (copies : List (RepeatKey × List FragmentRepeat)),
      Records st (expandRepeat profile previous bindKids each name props selfClosing bindings parentPath source within
        out st).2 (r :: copies.flatMap Prod.snd) ∧
      r.site = ⟨source, within⟩ ∧ r.patch = diffRepeat (before previous r.site) r.render ∧ ResolvedKeys r.keys ∧
      r.keys = copies.map Prod.fst ∧
      ∀ copy ∈ copies, Expands previous children source 0 (within ++ [copy.1]) copy.2 := by
  unfold expandRepeat
  dsimp only
  generalize headerIs : (parseRepeatHeader each).toOption = header
  generalize itemsAre : (header.elim [] fun header => evaluateRepeatItems header bindings) = items
  generalize scopesAre : (header.elim [] fun header =>
    (takeItems name source items st).1.zipIdx.map fun entry => repeatScope bindings header entry.1 entry.2) = scopes
  have few : scopes.length ≤ 2 ^ 53 := by
    have taken := takeItems_length name source items st
    rw [← scopesAre]
    cases header with
    | none => exact Nat.zero_le _
    | some header =>
      simp only [Option.elim_some, List.length_map, List.length_zipIdx]
      exact (taken.trans bounded).trans (by decide)
  have resolved := resolveCopies_resolved (stringProp props "data-key") few
  have length := resolveCopies_length (stringProp props "data-key") scopes
  generalize resolveCopies (stringProp props "data-key") scopes = resolution at resolved length ⊢
  have reported := (takeItems_records name source items st).trans
    (reportKeyProblem_records name source (stringProp props "data-key") resolution.problem _)
  rw [List.append_nil] at reported
  generalize reportKeyProblem name source (stringProp props "data-key") resolution.problem
    (takeItems name source items st).2 = st₁ at reported ⊢
  let r : FragmentRepeat := ⟨⟨source, within⟩, parentPath, out, scopes.length, each, stringProp props "data-key",
    resolution.mode, resolution.keys,
    diffRepeat (before previous ⟨source, within⟩) ⟨resolution.mode, resolution.keys⟩⟩
  have recorded : Records st₁ { st₁ with next := r.entry :: st₁.next, repeats := st₁.repeats ++ [r] } [r] :=
    ⟨rfl, rfl, Nat.le_refl _⟩
  obtain ⟨made, keys, copied, all⟩ := @bindCopies_records _ _ _ _ _ (fun scope key position =>
      bindElement profile (bindKids scope (parentPath ++ [position]) (within ++ [key])) name
        (props.filter fun entry => entry.1 ≠ js "data-each" ∧ entry.1 ≠ js "data-key") selfClosing scope
        (parentPath ++ [position]))
    (fun scope key position st inside => by
      obtain ⟨new, records, expands⟩ := kids scope (parentPath ++ [position]) (within ++ [key]) st inside
      exact ⟨new, bindElement_records records, expands⟩)
    (scopes.zip resolution.keys) out { st₁ with next := r.entry :: st₁.next, repeats := st₁.repeats ++ [r] }
    (reported.copies.trans bounded)
  refine ⟨r, made, ?_, rfl, rfl, resolved, ?_, all⟩
  · exact (reported.trans recorded).trans copied
  · rw [keys, List.map_snd_zip (by rw [length])]

mutual

theorem bindInside_records : ∀ (node : FragmentNode) (source : List Nat) (bindings : Bindings) (path : List Nat)
    (within : List RepeatKey) (st : BindState), st.remainingCopies ≤ maxRepeatCopies →
    ∃ new, Records st (bindInside profile previous node source bindings path within st).2 new ∧
      Expands previous node.children source 0 within new
  | .text _ _, _, _, _, _, st, _ => by
    rw [bindInside]
    exact ⟨[], .refl st, .nil⟩
  | .element _ _ children _, source, bindings, path, within, st, bounded => by
    rw [bindInside]
    exact bindChildren_records children bindings path source 0 0 within st bounded

/-- The bind pass records exactly an expansion of the nodes it walks. -/
theorem bindChildren_records : ∀ (nodes : List FragmentNode) (bindings : Bindings) (parentPath source : List Nat)
    (index out : Nat) (within : List RepeatKey) (st : BindState), st.remainingCopies ≤ maxRepeatCopies →
    ∃ new, Records st (bindChildren profile previous nodes bindings parentPath source index out within st).2 new ∧
      Expands previous nodes source index within new
  | [], _, _, _, _, _, _, st, _ => by
    rw [bindChildren]
    exact ⟨[], .refl st, .nil⟩
  | node :: nodes, bindings, parentPath, source, index, out, within, st, bounded => by
    have kids := bindInside_records node (source ++ [index])
    have siblings := fun out => bindChildren_records nodes bindings parentPath source (index + 1) out within
    rw [bindChildren]
    cases node with
    | text value segments =>
      obtain ⟨rest, records, expands⟩ := siblings (out + 1) st bounded
      exact ⟨rest, records, .text expands⟩
    | element name props children selfClosing =>
      rw [bindSibling]
      cases each : stringProp props "data-each" with
      | none =>
        obtain ⟨inner, records, expands⟩ := kids bindings (parentPath ++ [out]) within st bounded
        have own := @bindElement_records profile _ name props selfClosing bindings (parentPath ++ [out]) _ _ records
        obtain ⟨rest, others, expandsRest⟩ := siblings (out + 1) _ (own.copies.trans bounded)
        exact ⟨inner ++ rest, own.trans others, .element each expands expandsRest⟩
      | some text =>
        obtain ⟨r, copies, records, site, patch, resolved, keys, all⟩ := expandRepeat_records kids
          text name props selfClosing bindings parentPath within out st bounded
        obtain ⟨rest, others, expandsRest⟩ := siblings _ _ (records.copies.trans bounded)
        exact ⟨r :: copies.flatMap Prod.snd ++ rest, records.trans others,
          .template each site patch resolved keys all expandsRest⟩

end

end

/-- What a render records: an expansion of the tree, and the state that names it. -/
theorem processTree_expands (tree : FragmentTree) (bindings : Bindings) (profile : FormatProfile)
    (previous : Option RepeatState) :
    Expands previous tree [] 0 [] (processTree tree bindings profile previous).repeats ∧
      (processTree tree bindings profile previous).repeatState =
        ((processTree tree bindings profile previous).repeats.map FragmentRepeat.entry).reverse := by
  obtain ⟨new, records, expands⟩ := bindChildren_records tree bindings [] []
    0 0 [] .start (Nat.le_refl _)
  have repeats : (processTree tree bindings profile previous).repeats = new := records.repeats
  have next : (processTree tree bindings profile previous).repeatState =
      (new.map FragmentRepeat.entry).reverse ++ [] := records.next
  rw [repeats]
  exact ⟨expands, by rw [next, List.append_nil]⟩

end Xript
