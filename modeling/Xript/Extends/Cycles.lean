import Mathlib.Data.List.Perm.Subperm
import Mathlib.Logic.Relation
import Xript.Extends.Resolve
import Xript.Number.Decimal

namespace Xript

section

variable (r : Resolver) (manifests : Manifests)

/-- A manifest's reference to another, by their paths. -/
def Refers (path other : JSString) : Prop :=
  ∃ raw base refs ref, Record.get manifests path = some (some raw) ∧ r.asBase raw = some base ∧
    r.refs base = .ok (some refs) ∧ ref ∈ refs ∧ other = r.pathOf (r.dirOf path) ref

/-- The paths a manifest reaches along references. -/
def ReachesPath (manifest : Record Json) (dir path : JSString) : Prop :=
  ∃ refs ref, r.refs manifest = .ok (some refs) ∧ ref ∈ refs ∧
    Relation.ReflTransGen (Refers r manifests) (r.pathOf dir ref) path

/-- Some manifest that is reached reaches itself along references. -/
def Cyclic (manifest : Record Json) (dir : JSString) : Prop :=
  ∃ path, ReachesPath r manifests manifest dir path ∧ Relation.TransGen (Refers r manifests) path path

/-- The manifests a resolution comes to, each with the directory and the chain of paths that led to it. -/
inductive Walked (root : Record Json) (rootDir : JSString) : Record Json → JSString → List JSString → Prop
  | root : Walked root rootDir root rootDir []
  | base {manifest base : Record Json} {dir ref : JSString} {chain refs : List JSString}
      (walked : Walked root rootDir manifest dir chain) (extending : r.refs manifest = .ok (some refs))
      (names : ref ∈ refs) (loads : r.load manifests chain ref (r.pathOf dir ref) = .ok base) :
      Walked root rootDir base (r.dirOf (r.pathOf dir ref)) (chain ++ [r.pathOf dir ref])

/-- An error about a reference that leads back to a manifest being resolved. -/
def ClosesCycle (root : Record Json) (rootDir : JSString) (error : ManifestError) : Prop :=
  ∃ manifest dir chain refs, Walked r manifests root rootDir manifest dir chain ∧
    r.refs manifest = .ok (some refs) ∧
    ∃ ref ∈ refs, r.pathOf dir ref ∈ chain ∧ error = r.circular chain (r.pathOf dir ref)

/-- An error a manifest gives on its own: its `extends` is malformed, a base of it cannot be read, or it does not
merge. -/
def FailsOtherwise (root : Record Json) (rootDir : JSString) (error : ManifestError) : Prop :=
  ∃ manifest dir chain, Walked r manifests root rootDir manifest dir chain ∧
    (r.refs manifest = .error error ∨
      ∃ refs, r.refs manifest = .ok (some refs) ∧
        ((∃ ref ∈ refs, r.load manifests [] ref (r.pathOf dir ref) = .error error) ∨
          ∃ base child, r.merge base child = .error error))

variable {r manifests}

theorem load_ok {chain : List JSString} {ref path : JSString} {base : Record Json}
    (ok : r.load manifests chain ref path = .ok base) :
    path ∉ chain ∧ ∃ raw, Record.get manifests path = some (some raw) ∧ r.asBase raw = some base := by
  unfold Resolver.load at ok
  split at ok
  · cases ok
  · rename_i fresh
    split at ok
    · cases ok
    · cases ok
    · rename_i raw found
      split at ok
      · cases ok
      · rename_i made isBase
        obtain rfl := Except.ok.inj ok
        exact ⟨fresh, raw, found, isBase⟩

theorem load_error {chain : List JSString} {ref path : JSString} {error : ManifestError}
    (failed : r.load manifests chain ref path = .error error) :
    (path ∈ chain ∧ error = r.circular chain path) ∨ r.load manifests [] ref path = .error error := by
  by_cases inside : path ∈ chain
  · rw [Resolver.load, if_pos inside] at failed
    exact Or.inl ⟨inside, (Except.error.inj failed).symm⟩
  · rw [Resolver.load, if_neg inside] at failed
    refine Or.inr ?_
    rwa [Resolver.load, if_neg (List.not_mem_nil)]

/-- Each reference of a resolution that returns is resolved on a longer chain. -/
theorem Resolving.reference {P : Record Json → Record Json → Prop} {composed result : Record Json} {dir ref : JSString}
    {chain refs : List JSString} (resolving : Resolving r manifests P (.bases composed dir chain refs) result)
    (names : ref ∈ refs) :
    ∃ base resolved, r.load manifests chain ref (r.pathOf dir ref) = .ok base ∧
      Resolving r manifests P (.manifest base (r.dirOf (r.pathOf dir ref)) (chain ++ [r.pathOf dir ref])) resolved := by
  induction refs generalizing composed with
  | nil => cases names
  | cons first refs ih =>
    cases resolving with
    | follow loads resolves merges here rest =>
      rcases List.mem_cons.mp names with rfl | later
      · exact ⟨_, _, loads, resolves⟩
      · exact ih rest later

/-- A manifest resolved on a chain that holds its own path. -/
def ResolvedOn (r : Resolver) (manifests : Manifests) (chain : List JSString) (path : JSString) : Prop :=
  path ∈ chain ∧ ∃ raw base result, Record.get manifests path = some (some raw) ∧ r.asBase raw = some base ∧
    Resolving r manifests (fun _ _ => True) (.manifest base (r.dirOf path) chain) result

theorem resolvedOn_reference {manifest result : Record Json} {dir ref : JSString} {chain refs : List JSString}
    (resolving : Resolving r manifests (fun _ _ => True) (.manifest manifest dir chain) result)
    (extending : r.refs manifest = .ok (some refs)) (names : ref ∈ refs) :
    r.pathOf dir ref ∉ chain ∧ ResolvedOn r manifests (chain ++ [r.pathOf dir ref]) (r.pathOf dir ref) := by
  cases resolving with
  | flat flat => cases extending.symm.trans flat
  | extending found bases merges here =>
    obtain rfl := Option.some.inj (Except.ok.inj (found.symm.trans extending))
    obtain ⟨base, resolved, loads, inner⟩ := bases.reference names
    obtain ⟨fresh, raw, read, isBase⟩ := load_ok loads
    exact ⟨fresh, List.mem_append_right _ (List.mem_singleton_self _), raw, base, resolved, read, isBase, inner⟩

/-- A reference of a resolved manifest leads off its chain. -/
theorem ResolvedOn.step {chain : List JSString} {path other : JSString} (resolved : ResolvedOn r manifests chain path)
    (refers : Refers r manifests path other) :
    other ∉ chain ∧ ∃ longer, chain ⊆ longer ∧ ResolvedOn r manifests longer other := by
  obtain ⟨-, raw, base, result, found, isBase, resolving⟩ := resolved
  obtain ⟨raw', base', refs, ref, found', isBase', extending, names, rfl⟩ := refers
  obtain rfl := Option.some.inj (Option.some.inj (found.symm.trans found'))
  obtain rfl := Option.some.inj (isBase.symm.trans isBase')
  obtain ⟨fresh, inner⟩ := resolvedOn_reference resolving extending names
  exact ⟨fresh, _, List.subset_append_left _ _, inner⟩

/-- However far references lead from a resolved manifest, they lead off its chain. -/
theorem ResolvedOn.reaches {chain : List JSString} {path other : JSString} (resolved : ResolvedOn r manifests chain path)
    (reaches : Relation.TransGen (Refers r manifests) path other) :
    other ∉ chain ∧ ∃ longer, chain ⊆ longer ∧ ResolvedOn r manifests longer other := by
  induction reaches with
  | single refers => exact resolved.step refers
  | tail _ refers ih =>
    obtain ⟨-, longer, inside, next⟩ := ih
    obtain ⟨fresh, longest, further, last⟩ := next.step refers
    exact ⟨fun member => fresh (inside member), longest, List.Subset.trans inside further, last⟩

/-- A resolution that returns has met no cycle. -/
theorem Resolving.acyclic {manifest result : Record Json} {dir : JSString}
    (resolving : Resolving r manifests (fun _ _ => True) (.manifest manifest dir []) result) :
    ¬ Cyclic r manifests manifest dir := by
  rintro ⟨path, ⟨refs, ref, extending, names, reaches⟩, cycle⟩
  obtain ⟨-, first⟩ := resolvedOn_reference resolving extending names
  have resolved : ∃ chain, ResolvedOn r manifests chain path := by
    rcases Relation.reflTransGen_iff_eq_or_transGen.mp reaches with rfl | further
    · exact ⟨_, first⟩
    · obtain ⟨-, longer, -, last⟩ := first.reaches further
      exact ⟨longer, last⟩
  obtain ⟨chain, resolved⟩ := resolved
  exact (resolved.reaches cycle).1 resolved.1

/-- A computation that never runs out of fuel. -/
def Deep {α : Type} (x : Except ResolveFailure α) : Prop := x ≠ .error .tooDeep

theorem Deep.mapError {α : Type} (x : Except ManifestError α) : Deep (x.mapError .refused) := by
  cases x <;> nofun

theorem Deep.bind {α β : Type} {x : Except ResolveFailure α} {f : α → Except ResolveFailure β} (first : Deep x)
    (next : ∀ a, x = .ok a → Deep (f a)) : Deep (x >>= f) := by
  cases x with
  | error e => exact fun same => first (congrArg Except.error (Except.error.inj same))
  | ok a => exact next a rfl

theorem Deep.foldlM {α β : Type} {f : β → α → Except ResolveFailure β} (each : ∀ b a, Deep (f b a)) (entries : List α)
    (start : β) : Deep (entries.foldlM f start) := by
  induction entries generalizing start with
  | nil => nofun
  | cons entry entries ih =>
    rw [List.foldlM_cons]
    exact (each start entry).bind fun next _ => ih next

/-- The chain of a resolution grows by one of the manifests at each level, so their number bounds the depth. -/
theorem resolve_deep : ∀ (fuel : Nat) (manifest : Record Json) (dir : JSString) (chain : List JSString), chain.Nodup →
    chain ⊆ Record.keys manifests → manifests.length < fuel + chain.length →
    Deep (r.resolve manifests fuel manifest dir chain) ∧
      ∀ more, r.resolve manifests (fuel + more) manifest dir chain = r.resolve manifests fuel manifest dir chain := by
  intro fuel
  induction fuel with
  | zero =>
    intro manifest dir chain distinct known deep
    have bound := (distinct.subperm known).length_le
    simp only [Record.keys, List.length_map] at bound
    omega
  | succ fuel ih =>
    intro manifest dir chain distinct known deep
    have inner : ∀ ref base, r.load manifests chain ref (r.pathOf dir ref) = .ok base →
        Deep (r.resolve manifests fuel base (r.dirOf (r.pathOf dir ref)) (chain ++ [r.pathOf dir ref])) ∧
        ∀ more, r.resolve manifests (fuel + more) base (r.dirOf (r.pathOf dir ref)) (chain ++ [r.pathOf dir ref]) =
          r.resolve manifests fuel base (r.dirOf (r.pathOf dir ref)) (chain ++ [r.pathOf dir ref]) := by
      intro ref base loads
      obtain ⟨fresh, raw, found, -⟩ := load_ok loads
      refine ih base _ _ ?_ ?_ ?_
      · exact distinct.append (List.nodup_singleton _) fun path inside same => fresh (List.mem_singleton.mp same ▸ inside)
      · exact List.append_subset.mpr ⟨known, List.cons_subset.mpr ⟨Record.mem_keys_of_get found, List.nil_subset _⟩⟩
      · rw [List.length_append, List.length_singleton]
        omega
    have follows : ∀ more, r.follow manifests (r.resolve manifests (fuel + more)) dir chain =
        r.follow manifests (r.resolve manifests fuel) dir chain := by
      intro more
      funext composed ref
      simp only [Resolver.follow]
      cases loads : r.load manifests chain ref (r.pathOf dir ref) with
      | error e => rfl
      | ok base =>
        show (r.resolve manifests (fuel + more) base _ _ >>= _) = (r.resolve manifests fuel base _ _ >>= _)
        rw [(inner ref base loads).2 more]
    constructor
    · rw [Resolver.resolve]
      refine (Deep.mapError _).bind fun found _ => ?_
      cases found with
      | none =>
        intro same
        cases same
      | some refs =>
        refine (Deep.foldlM (fun composed ref => ?_) refs []).bind fun _ _ => Deep.mapError _
        refine (Deep.mapError _).bind fun base loads => ?_
        exact (inner ref base (mapError_eq_ok loads)).1.bind fun _ _ => Deep.mapError _
    · intro more
      rw [show fuel + 1 + more = fuel + more + 1 by omega, Resolver.resolve, Resolver.resolve, follows more]

theorem mapError_eq_error {α : Type} {x : Except ManifestError α} {error : ManifestError}
    (failed : x.mapError ResolveFailure.refused = .error (.refused error)) : x = .error error := by
  cases x with
  | error e =>
    cases failed
    rfl
  | ok a => cases failed

theorem bind_eq_error {α β ε : Type} {x : Except ε α} {f : α → Except ε β} {e : ε} (failed : (x >>= f) = .error e) :
    x = .error e ∨ ∃ a, x = .ok a ∧ f a = .error e := by
  cases x with
  | error e' => exact Or.inl (congrArg Except.error (Except.error.inj failed))
  | ok a => exact Or.inr ⟨a, rfl, failed⟩

theorem foldlM_eq_error {α β ε : Type} {f : β → α → Except ε β} {entries : List α} {start : β} {e : ε}
    (failed : entries.foldlM f start = .error e) : ∃ made, ∃ entry ∈ entries, f made entry = .error e := by
  induction entries generalizing start with
  | nil => cases failed
  | cons entry entries ih =>
    rw [List.foldlM_cons] at failed
    rcases bind_eq_error failed with first | ⟨next, -, rest⟩
    · exact ⟨start, entry, List.mem_cons_self .., first⟩
    · obtain ⟨made, other, inside, here⟩ := ih rest
      exact ⟨made, other, List.mem_cons_of_mem _ inside, here⟩

/-- A resolution that is refused closes a cycle or fails for what a manifest of it says. -/
theorem resolve_refused {root : Record Json} {rootDir : JSString} {error : ManifestError} :
    ∀ (fuel : Nat) (manifest : Record Json) (dir : JSString) (chain : List JSString),
      Walked r manifests root rootDir manifest dir chain →
      r.resolve manifests fuel manifest dir chain = .error (.refused error) →
      ClosesCycle r manifests root rootDir error ∨ FailsOtherwise r manifests root rootDir error := by
  intro fuel
  induction fuel with
  | zero => exact fun _ _ _ _ refused => by cases refused
  | succ fuel ih =>
    intro manifest dir chain walked refused
    rw [Resolver.resolve] at refused
    rcases bind_eq_error refused with noRefs | ⟨found, extending, refused⟩
    · exact Or.inr ⟨manifest, dir, chain, walked, Or.inl (mapError_eq_error noRefs)⟩
    · replace extending := mapError_eq_ok extending
      cases found with
      | none => cases refused
      | some refs =>
        have otherwise : ((∃ ref ∈ refs, r.load manifests [] ref (r.pathOf dir ref) = .error error) ∨
            ∃ base child, r.merge base child = .error error) → FailsOtherwise r manifests root rootDir error :=
          fun reason => ⟨manifest, dir, chain, walked, Or.inr ⟨refs, extending, reason⟩⟩
        rcases bind_eq_error refused with follows | ⟨composed, -, merges⟩
        · obtain ⟨composed, ref, names, follow⟩ := foldlM_eq_error follows
          rcases bind_eq_error follow with loads | ⟨base, loads, follow⟩
          · rcases load_error (mapError_eq_error loads) with ⟨inside, same⟩ | unread
            · exact Or.inl ⟨manifest, dir, chain, refs, walked, extending, ref, names, inside, same⟩
            · exact Or.inr (otherwise (Or.inl ⟨ref, names, unread⟩))
          · rcases bind_eq_error follow with resolves | ⟨resolved, -, merges⟩
            · exact ih base _ _ (.base walked extending names (mapError_eq_ok loads)) resolves
            · exact Or.inr (otherwise (Or.inr ⟨_, _, mapError_eq_error merges⟩))
        · exact Or.inr (otherwise (Or.inr ⟨_, _, mapError_eq_error merges⟩))

end

/-- What is no object has no named property. -/
theorem get_spread_named {key : JSString} (named : key.all isDigit = false) {value : Json}
    (noObject : ∀ members, value ≠ .obj members) : Record.get (spread value) key = none := by
  have apart : ∀ n, decimal n ≠ key := by
    rintro n rfl
    rw [decimal_digits] at named
    cases named
  cases value with
  | obj members => exact absurd rfl (noObject members)
  | arr items =>
    refine Record.get_eq_none.2 fun inside => ?_
    obtain ⟨entry, member, same⟩ := List.mem_map.mp inside
    obtain ⟨item, -, rfl⟩ := List.mem_map.mp member
    exact apart _ same
  | str s =>
    refine Record.get_eq_none.2 fun inside => ?_
    obtain ⟨entry, member, same⟩ := List.mem_map.mp inside
    obtain ⟨item, -, rfl⟩ := List.mem_map.mp member
    exact apart _ same
  | _ => rfl

/-- A manifest whose first base is missing and whose second refers to itself. -/
def loopingChild : Json := .obj [(js "extends", .arr [.str (js "missing.json"), .str (js "loop.json")])]

def loopBase : Record Json := [(js "extends", .str (js "loop.json"))]

def firstMessage : Except ResolveFailure Json → Option JSString
  | .error (.refused (.validation (issue :: _))) => some issue.message
  | _ => none

end Xript
