import Xript.Fragment.Expansion

namespace Xript

/-- Whether the node at a path is a `data-each` template. -/
def templateAt : List FragmentNode → List Nat → Bool
  | _, [] => false
  | nodes, j :: path =>
    match nodes[j]? with
    | some (.element _ props children _) =>
      if path = [] then (stringProp props "data-each").isSome else templateAt children path
    | _ => false

/-- The number of templates above a path. -/
def templateDepth : List FragmentNode → List Nat → Nat
  | _, [] => 0
  | nodes, j :: path =>
    match nodes[j]? with
    | some (.element _ props children _) =>
      if path = [] then 0
      else (if (stringProp props "data-each").isSome then 1 else 0) + templateDepth children path
    | _ => 0

theorem templateAt_cons (node : FragmentNode) (nodes : List FragmentNode) (j : Nat) (path : List Nat) :
    templateAt (node :: nodes) ((j + 1) :: path) = templateAt nodes (j :: path) := by
  rw [templateAt, templateAt, List.getElem?_cons_succ]

theorem templateDepth_cons (node : FragmentNode) (nodes : List FragmentNode) (j : Nat) (path : List Nat) :
    templateDepth (node :: nodes) ((j + 1) :: path) = templateDepth nodes (j :: path) := by
  rw [templateDepth, templateDepth, List.getElem?_cons_succ]

/-- A template inside another has one template more above it. -/
theorem templateDepth_lt {nodes : List FragmentNode} {outer inner : List Nat} (template : templateAt nodes outer = true)
    (inside : outer <+: inner) (other : outer ≠ inner) (found : templateAt nodes inner = true) :
    templateDepth nodes outer < templateDepth nodes inner := by
  induction outer generalizing nodes inner with
  | nil => cases template
  | cons j outer ih =>
    obtain ⟨rest, rfl⟩ := inside
    rw [List.cons_append] at found other ⊢
    rw [templateAt] at template found
    rw [templateDepth, templateDepth]
    cases node : nodes[j]? with
    | none =>
      rw [node] at template
      cases template
    | some node' =>
      rw [node] at template found
      cases node' with
      | text => cases template
      | element name props children selfClosing =>
        dsimp only at template found ⊢
        have more : outer ++ rest ≠ [] := by
          intro empty
          obtain ⟨rfl, rfl⟩ := List.append_eq_nil_iff.mp empty
          exact other rfl
        rw [if_neg more] at found ⊢
        by_cases last : outer = []
        · rw [if_pos last] at template ⊢
          rw [if_pos template]
          omega
        · rw [if_neg last] at template ⊢
          have deeper := ih template (List.prefix_append outer rest) (fun same => other (by rw [← same])) found
          omega

section

variable {previous : Option RepeatState} {nodes : List FragmentNode} {source : List Nat} {index : Nat}
  {within : List RepeatKey} {new : List FragmentRepeat}

/-- Where a repeat stands: at a template among the nodes, inside one copy of each template above it. -/
structure SitedAt (nodes : List FragmentNode) (source : List Nat) (index : Nat) (within : List RepeatKey)
    (site : RepeatSite) (j : Nat) (path : List Nat) : Prop where
  template : site.template = source ++ (index + j) :: path
  found : templateAt nodes (j :: path) = true
  inside : within <+: site.within
  depth : site.within.length = within.length + templateDepth nodes (j :: path)

theorem SitedAt.later {node : FragmentNode} {site : RepeatSite} {j : Nat} {path : List Nat}
    (placed : SitedAt nodes source (index + 1) within site j path) :
    SitedAt (node :: nodes) source index within site (j + 1) path where
  template := by rw [placed.template, Nat.add_right_comm, Nat.add_assoc]
  found := by rw [templateAt_cons, placed.found]
  inside := placed.inside
  depth := by rw [templateDepth_cons, placed.depth]

theorem Expands.placed (expands : Expands previous nodes source index within new) {r : FragmentRepeat}
    (member : r ∈ new) : ∃ j path, SitedAt nodes source index within r.site j path := by
  induction expands with
  | nil => cases member
  | text _ ih =>
    obtain ⟨j, path, placed⟩ := ih member
    exact ⟨j + 1, path, placed.later⟩
  | @element name props children nodes selfClosing source index within inner rest plain _ _ first second =>
    rcases List.mem_append.mp member with below | later
    · obtain ⟨j, path, placed⟩ := first below
      refine ⟨0, j :: path, ?_, ?_, placed.inside, ?_⟩
      · rw [placed.template, List.append_assoc, Nat.zero_add]
        rfl
      · rw [templateAt, List.getElem?_cons_zero]
        exact placed.found
      · rw [templateDepth, List.getElem?_cons_zero]
        simp only [plain, Option.isSome_none, Bool.false_eq_true, if_false, Nat.zero_add, reduceCtorEq]
        exact placed.depth
    · obtain ⟨j, path, placed⟩ := second later
      exact ⟨j + 1, path, placed.later⟩
  | @template name props children nodes selfClosing source index within each r copies rest isTemplate site _ _ _ _ _
      first second =>
    rcases List.mem_append.mp member with here | later
    · rcases List.mem_cons.mp here with rfl | below
      · refine ⟨0, [], ?_, ?_, ?_, ?_⟩
        · rw [site, Nat.add_zero]
        · rw [templateAt, List.getElem?_cons_zero]
          simp only [isTemplate, Option.isSome_some, if_true]
        · rw [site]
        · rw [site, templateDepth, List.getElem?_cons_zero]
          rfl
      · obtain ⟨copy, inside, below⟩ := List.mem_flatMap.mp below
        obtain ⟨j, path, placed⟩ := first copy inside below
        refine ⟨0, j :: path, ?_, ?_, (List.prefix_append ..).trans placed.inside, ?_⟩
        · rw [placed.template, List.append_assoc, Nat.zero_add]
          rfl
        · rw [templateAt, List.getElem?_cons_zero]
          exact placed.found
        · rw [templateDepth, List.getElem?_cons_zero, placed.depth, List.length_append, List.length_singleton]
          simp only [isTemplate, Option.isSome_some, if_true, reduceCtorEq, if_false]
          omega
    · obtain ⟨j, path, placed⟩ := second later
      exact ⟨j + 1, path, placed.later⟩

/-- Each key of `within` beyond the context's own is a key of a repeat recorded with it. -/
theorem Expands.enclosing (expands : Expands previous nodes source index within new) {r : FragmentRepeat}
    (member : r ∈ new) {n : Nat} (beyond : within.length ≤ n) (short : n < r.site.within.length) :
    ∃ outer ∈ new, ∃ key ∈ outer.keys, outer.site.within ++ [key] = r.site.within.take (n + 1) ∧
      outer.site.template <+: r.site.template := by
  induction expands with
  | nil => cases member
  | text _ ih => exact ih member beyond
  | element _ _ _ first second =>
    rcases List.mem_append.mp member with below | later
    · obtain ⟨outer, inside, rest⟩ := first below beyond
      exact ⟨outer, List.mem_append_left _ inside, rest⟩
    · obtain ⟨outer, inside, rest⟩ := second later beyond
      exact ⟨outer, List.mem_append_right _ inside, rest⟩
  | @template name props children nodes selfClosing source index within each own copies rest isTemplate site _ _ keys
      expanded _ first second =>
    rcases List.mem_append.mp member with here | later
    · rcases List.mem_cons.mp here with rfl | below
      · rw [site] at short
        exact absurd short (Nat.not_lt.mpr beyond)
      · obtain ⟨copy, inside, below⟩ := List.mem_flatMap.mp below
        rcases Nat.eq_or_lt_of_le beyond with rfl | deeper
        · obtain ⟨j, path, placed⟩ := (expanded copy inside).placed below
          refine ⟨own, List.mem_append_left _ (List.mem_cons_self ..), copy.1,
            keys ▸ List.mem_map_of_mem inside, ?_, ?_⟩
          · have taken := List.prefix_iff_eq_take.mp placed.inside
            rw [List.length_append, List.length_singleton] at taken
            rw [site]
            exact taken
          · rw [site, placed.template]
            exact List.prefix_append ..
        · obtain ⟨outer, recorded, rest⟩ := first copy inside below
            (by rw [List.length_append, List.length_singleton]; exact deeper)
          exact ⟨outer, List.mem_append_left _ (List.mem_cons_of_mem _ (List.mem_flatMap.mpr ⟨copy, inside, recorded⟩)),
            rest⟩
    · obtain ⟨outer, inside, rest⟩ := second later beyond
      exact ⟨outer, List.mem_append_right _ inside, rest⟩

/-- Two recorded repeats of one site are at one place among the siblings. -/
theorem Expands.apart {more : List FragmentNode} {others : List FragmentRepeat} {k : Nat} {deep : List RepeatKey}
    (below : Expands previous nodes (source ++ [index]) 0 deep new)
    (later : Expands previous more source (index + 1 + k) within others) {a b : FragmentRepeat} (first : a ∈ new)
    (second : b ∈ others) : ¬a.site.Same b.site := by
  intro same
  obtain ⟨i, path, placedA⟩ := below.placed first
  obtain ⟨j, path', placedB⟩ := later.placed second
  have templates := same.template
  rw [placedA.template, placedB.template, List.append_assoc] at templates
  have heads := (List.cons.inj (List.append_cancel_left templates)).1
  omega

/-- No two repeats of a render have the same site. -/
theorem Expands.distinct (expands : Expands previous nodes source index within new) :
    new.Pairwise fun a b => ¬a.site.Same b.site := by
  induction expands with
  | nil => exact .nil
  | text _ ih => exact ih
  | element _ below later first second =>
    exact List.pairwise_append.mpr ⟨first, second, fun a inA b inB => below.apart (k := 0) later inA inB⟩
  | @template name props children nodes selfClosing source index within each own copies rest isTemplate site _ resolved
      keys below later first second =>
    have sibling : ∀ b ∈ rest, ¬own.site.Same b.site := by
      intro b inB same
      obtain ⟨j, path, placed⟩ := later.placed inB
      have templates := same.template
      rw [site, placed.template] at templates
      have heads := (List.cons.inj (List.append_cancel_left templates)).1
      omega
    have nested : ∀ b ∈ copies.flatMap Prod.snd, ¬own.site.Same b.site := by
      intro b inB same
      obtain ⟨copy, inside, inB⟩ := List.mem_flatMap.mp inB
      obtain ⟨j, path, placed⟩ := (below copy inside).placed inB
      have templates := congrArg List.length same.template
      rw [site, placed.template] at templates
      simp at templates
    have tokens : (copies.map fun copy => keyToken copy.1).Nodup := by
      have nodup := resolved.nodup
      rw [keys, List.map_map] at nodup
      exact nodup
    have within' : (copies.flatMap Prod.snd).Pairwise fun a b => ¬a.site.Same b.site := by
      refine List.pairwise_flatMap.mpr ⟨fun copy inside => first copy inside, ?_⟩
      refine (List.pairwise_map.mp tokens).imp_of_mem ?_
      intro copyA copyB inA inB different a memberA b memberB same
      obtain ⟨_, _, placedA⟩ := (below copyA inA).placed memberA
      obtain ⟨_, _, placedB⟩ := (below copyB inB).placed memberB
      obtain ⟨restA, splitA⟩ := placedA.inside
      obtain ⟨restB, splitB⟩ := placedB.inside
      have tokens := same.tokens
      rw [← splitA, ← splitB] at tokens
      simp only [List.map_append, List.map_cons, List.append_assoc, List.singleton_append] at tokens
      exact different (List.cons.inj (List.append_cancel_left tokens)).1
    rw [List.cons_append, List.pairwise_cons, List.pairwise_append]
    refine ⟨?_, within', second, ?_⟩
    · intro b inB
      rcases List.mem_append.mp inB with inner | sib
      · exact nested b inner
      · exact sibling b sib
    · intro a inA b inB
      obtain ⟨copy, inside, inA⟩ := List.mem_flatMap.mp inA
      exact (below copy inside).apart (k := 0) later inA inB

theorem Expands.resolved (expands : Expands previous nodes source index within new) {r : FragmentRepeat}
    (member : r ∈ new) : ResolvedKeys r.keys ∧ r.patch = diffRepeat (before previous r.site) r.render := by
  induction expands with
  | nil => cases member
  | text _ ih => exact ih member
  | element _ _ _ first second =>
    rcases List.mem_append.mp member with below | later
    · exact first below
    · exact second later
  | template _ _ patch resolved _ _ _ first second =>
    rcases List.mem_append.mp member with here | later
    · rcases List.mem_cons.mp here with rfl | below
      · exact ⟨resolved, patch⟩
      · obtain ⟨copy, inside, below⟩ := List.mem_flatMap.mp below
        exact first copy inside below
    · exact second later

end

end Xript
