import Xript.Extends.MergeAgrees

namespace Xript

open Collecting

/-- The references a manifest's `extends` makes. -/
def extendsOf (manifest : Record Json) : List JSString :=
  match Record.get manifest (js "extends") with
  | none => []
  | some value => (asExtendsList value).getD []

/-- The `execution` a manifest states itself. -/
def ownExecution (manifest : Record Json) : List (Record Json) :=
  match Record.get manifest (js "execution") with
  | some (.obj members) => [members]
  | _ => []

/-- The `execution`s stated by a manifest and the manifests it builds on, in the order they merge. -/
def statedExecutions (manifests : Manifests) : Nat → Record Json → JSString → List (Record Json)
  | 0, _, _ => []
  | fuel + 1, manifest, dir =>
    (extendsOf manifest).flatMap (fun ref =>
      match Record.get manifests (joinPath dir ref) with
      | some (some (.obj base)) => statedExecutions manifests fuel base (dirOf (joinPath dir ref))
      | _ => []) ++ ownExecution manifest

/-- Those one reference brings. -/
def statedBy (manifests : Manifests) (fuel : Nat) (dir ref : JSString) : List (Record Json) :=
  match Record.get manifests (joinPath dir ref) with
  | some (some (.obj base)) => statedExecutions manifests fuel base (dirOf (joinPath dir ref))
  | _ => []

/-- The manifests a resolution reaches, each with its directory in the runtime and in the validator. -/
inductive Reached (manifests : Manifests) (manifest : Record Json) (baseDir : JSString) :
    Record Json → JSString → JSString → Prop
  | start : Reached manifests manifest baseDir manifest baseDir baseDir
  | base {child base : Record Json} {dirR dirV ref : JSString} (reached : Reached manifests manifest baseDir child dirR dirV)
      (names : ref ∈ extendsOf child) (found : Record.get manifests (joinPath dirR ref) = some (some (.obj base))) :
      Reached manifests manifest baseDir base (dirOf (joinPath dirR ref)) (dirname (joinPath dirR ref))

/-- A manifest both resolvers read the same way: its blocks are tame, `extends` is no empty list, and each
reference names the same path in both, where no array stands for a manifest. -/
structure ReadAlike (cwd : JSString) (manifests : Manifests) (manifest : Record Json) (dirR dirV : JSString) : Prop where
  tame : TameManifest manifest
  refers : Record.get manifest (js "extends") ≠ some (.arr [])
  paths : ∀ ref ∈ extendsOf manifest, resolvePath cwd dirV ref = joinPath dirR ref
  objects : ∀ ref ∈ extendsOf manifest, ∀ items, Record.get manifests (joinPath dirR ref) ≠ some (some (.arr items))

/-- The last `execution` stated states all that any of them states. -/
def Overriding (stated : List (Record Json)) : Prop :=
  ∀ last, stated.getLast? = some last → ∀ earlier ∈ stated, ∀ key ∈ Record.keys earlier, key ∈ Record.keys last

/-- What the runtime and the validator have under `execution` once these are merged. -/
def Executions (stated : List (Record Json)) (r v : Record Json) : Prop :=
  match stated.getLast? with
  | none => Record.get r (js "execution") = none ∧ Record.get v (js "execution") = none
  | some last => Record.get r (js "execution") = some (.obj last) ∧
      ∃ members, Record.get v (js "execution") = some (.obj members) ∧ (Record.keys members).Nodup ∧
        ∀ id, Record.get members id = stated.reverse.findSome? fun earlier => Record.get earlier id

/-- Resolved manifests that agree but for what their bases' `execution` still states. -/
structure Corresponds (stated : List (Record Json)) (r v : Record Json) : Prop where
  tame : TameManifest r
  tidy : Tidy v
  same : SameBut r v
  executions : Executions stated r v

theorem get_foldl_set {child : Record Json} (distinct : (Record.keys child).Nodup) (base : Record Json) (key : JSString) :
    Record.get (child.foldl (fun merged entry => Record.set merged entry.1 entry.2) base) key =
      (Record.get child key).or (Record.get base key) := by
  induction child generalizing base with
  | nil => rfl
  | cons entry child ih =>
    have ⟨absent, rest⟩ := List.nodup_cons.mp distinct
    rw [List.foldl_cons, ih rest, Record.get_cons, Record.get_set]
    by_cases here : key = entry.1
    · have gone : Record.get child key = none := Record.get_eq_none.2 (here ▸ absent)
      rw [gone, if_pos here, if_pos here]
      rfl
    · rw [if_neg here, if_neg here]

theorem nodup_foldl_set {child base : Record Json} (distinct : (Record.keys base).Nodup) :
    (Record.keys (child.foldl (fun merged entry => Record.set merged entry.1 entry.2) base)).Nodup := by
  induction child generalizing base with
  | nil => exact distinct
  | cons entry child ih => exact ih (Record.nodup_keys_set distinct entry.1 entry.2)

theorem Executions.merge {stated more : List (Record Json)} {baseR baseV childR childV r v : Record Json}
    (base : Executions stated baseR baseV) (child : Executions more childR childV)
    (executionR : Record.get r (js "execution") =
      (Record.get childR (js "execution")).or (Record.get baseR (js "execution")))
    (executionV : Record.get v (js "execution") =
      (mergeExecution (Record.get baseV (js "execution")) (Record.get childV (js "execution"))).or
        (Record.get baseV (js "execution"))) :
    Executions (stated ++ more) r v := by
  unfold Executions at base child ⊢
  rw [List.getLast?_append]
  cases lastMore : more.getLast? with
  | none =>
    obtain rfl := List.getLast?_eq_none_iff.mp lastMore
    obtain ⟨noneR, noneV⟩ : Record.get childR (js "execution") = none ∧ Record.get childV (js "execution") = none := child
    rw [noneR, Option.none_or] at executionR
    rw [noneV] at executionV
    rw [List.append_nil, executionR, executionV]
    cases lastStated : stated.getLast? with
    | none =>
      rw [lastStated] at base
      obtain ⟨baseR, baseV⟩ := base
      exact ⟨baseR, by rw [baseV]; rfl⟩
    | some last =>
      rw [lastStated] at base
      obtain ⟨statesR, members, statesV, distinct, latest⟩ := base
      exact ⟨statesR, members, by rw [statesV]; rfl, distinct, latest⟩
  | some last =>
    rw [lastMore] at child
    obtain ⟨statesR, members, statesV, distinct, latest⟩ := child
    refine ⟨by rw [executionR, statesR]; rfl, ?_⟩
    rw [executionV, statesV]
    cases lastStated : stated.getLast? with
    | none =>
      obtain rfl := List.getLast?_eq_none_iff.mp lastStated
      obtain ⟨-, noneV⟩ : Record.get baseR (js "execution") = none ∧ Record.get baseV (js "execution") = none := base
      exact ⟨members, by rw [noneV]; rfl, distinct, latest⟩
    | some before =>
      rw [lastStated] at base
      obtain ⟨-, old, statesBase, distinctOld, latestOld⟩ := base
      refine ⟨_, by rw [statesBase]; rfl, nodup_foldl_set distinctOld, fun id => ?_⟩
      rw [get_foldl_set distinct, latest, latestOld, List.reverse_append, List.findSome?_append]

theorem Executions.own {manifest : Record Json} (tame : TameManifest manifest) (childV : Record Json)
    (same : Record.get childV (js "execution") = Record.get manifest (js "execution")) :
    Executions (ownExecution manifest) manifest childV := by
  unfold Executions ownExecution
  rw [same]
  cases stated : Record.get manifest (js "execution") with
  | none => exact ⟨rfl, rfl⟩
  | some value =>
    obtain ⟨members, rfl, distinct⟩ := tame.execution value stated
    refine ⟨rfl, members, rfl, distinct, fun id => ?_⟩
    cases found : Record.get members id <;> simp [found]

theorem Corresponds.nil : Corresponds [] [] [] :=
  ⟨.nil, TameManifest.nil.tidy, fun _ _ _ => rfl, ⟨rfl, rfl⟩⟩

/-- What one merge does to corresponding manifests: both fail, or both make corresponding ones. -/
theorem Corresponds.merge {stated more : List (Record Json)} {baseR baseV childR childV : Record Json}
    (base : Corresponds stated baseR baseV) (child : Corresponds more childR childV) :
    (∃ r v, runtimeMerge baseR childR = .ok r ∧ validatorMerge baseV childV = .ok v ∧
        Corresponds (stated ++ more) r v) ∨
      (∃ e, runtimeMerge baseR childR = .error e) ∧ ∃ e, validatorMerge baseV childV = .error e := by
  have mirrors : Mirrors (MergedAlike baseR baseV childR childV)
      (runtimeBlocks baseR childR >>= fun blocks => pure (assemble baseR childR blocks))
      (validatorBlocks baseV childV >>= fun blocks => pure (assemble baseV childV blocks)) :=
    (mirrors_blocks base.tame child.tame base.same child.same).bind
      fun blocks others paired returns => .pure (paired.mergedAlike base.tame child.tame base.tidy child.tidy
        base.same child.same returns)
  rcases mirrors.settle .validation with ⟨r, v, merged, -, validator, runtime⟩ | ⟨validator, runtime⟩
  · refine Or.inl ⟨r, v, runtime, validator, ⟨merged.tame, merged.tidy, merged.same, ?_⟩⟩
    exact base.executions.merge child.executions merged.executionR merged.executionV
  · exact Or.inr ⟨runtime, validator⟩

section

variable (cwd : JSString) (wording : JSString → JSString) (manifests : Manifests)

/-- Both resolutions end in corresponding manifests, or both are refused. -/
def EndAlike (stated : List (Record Json)) (runtime validator : Except ResolveFailure (Record Json)) : Prop :=
  (∃ r v, runtime = .ok r ∧ validator = .ok v ∧ Corresponds stated r v) ∨
    (∃ e, runtime = .error (.refused e)) ∧ ∃ e, validator = .error (.refused e)

theorem EndAlike.bind {stated more : List (Record Json)} {x y : Except ResolveFailure (Record Json)}
    {f g : Record Json → Except ResolveFailure (Record Json)} (first : EndAlike stated x y)
    (next : ∀ r v, Corresponds stated r v → EndAlike more (f r) (g v)) : EndAlike more (x >>= f) (y >>= g) := by
  rcases first with ⟨r, v, rfl, rfl, corresponds⟩ | ⟨⟨e, rfl⟩, e', rfl⟩
  · exact next r v corresponds
  · exact Or.inr ⟨⟨e, rfl⟩, e', rfl⟩

theorem Corresponds.endAlike {stated more : List (Record Json)} {baseR baseV childR childV : Record Json}
    (base : Corresponds stated baseR baseV) (child : Corresponds more childR childV) :
    EndAlike (stated ++ more) ((runtimeMerge baseR childR).mapError .refused)
      ((validatorMerge baseV childV).mapError .refused) := by
  rcases base.merge child with ⟨r, v, runtime, validator, corresponds⟩ | ⟨⟨e, runtime⟩, e', validator⟩
  · rw [runtime, validator]
    exact Or.inl ⟨r, v, rfl, rfl, corresponds⟩
  · rw [runtime, validator]
    exact Or.inr ⟨⟨_, rfl⟩, _, rfl⟩

/-- Where no manifest in reach is an array, the two loaders give the same. -/
theorem load_alike {manifests : Manifests} {path : JSString}
    (object : ∀ items, Record.get manifests path ≠ some (some (.arr items))) (chain : List JSString) (ref : JSString) :
    (∃ base, Record.get manifests path = some (some (.obj base)) ∧ path ∉ chain ∧
        (runtimeResolver wording).load manifests chain ref path = .ok base ∧
        (validatorResolver cwd).load manifests chain ref path = .ok base) ∨
      (∃ e, (runtimeResolver wording).load manifests chain ref path = .error e) ∧
        ∃ e, (validatorResolver cwd).load manifests chain ref path = .error e := by
  unfold Resolver.load
  by_cases circular : path ∈ chain
  · rw [if_pos circular, if_pos circular]
    exact Or.inr ⟨⟨_, rfl⟩, _, rfl⟩
  · rw [if_neg circular, if_neg circular]
    match found : Record.get manifests path with
    | none => exact Or.inr ⟨⟨_, rfl⟩, _, rfl⟩
    | some none => exact Or.inr ⟨⟨_, rfl⟩, _, rfl⟩
    | some (some (.obj base)) => exact Or.inl ⟨base, rfl, circular, rfl, rfl⟩
    | some (some (.arr items)) => exact absurd found (object items)
    | some (some .null) | some (some (.bool _)) | some (some (.num _)) | some (some (.str _)) =>
      exact Or.inr ⟨⟨_, rfl⟩, _, rfl⟩

theorem asExtendsList_eq_nil {value : Json} (none : asExtendsList value = some []) : value = .arr [] := by
  match value with
  | .arr [] => rfl
  | .arr (.str ref :: items) => simp [asExtendsList, Option.bind_eq_some_iff] at none
  | .arr (.null :: items) | .arr (.bool _ :: items) | .arr (.num _ :: items) | .arr (.arr _ :: items) |
    .arr (.obj _ :: items) => simp [asExtendsList] at none
  | .str _ => cases none
  | .null | .bool _ | .num _ | .obj _ => cases none

theorem refs_alike {manifest : Record Json} (refers : Record.get manifest (js "extends") ≠ some (.arr [])) :
    ((runtimeResolver wording).refs manifest = .ok none ∧ (validatorResolver cwd).refs manifest = .ok none ∧
        extendsOf manifest = []) ∨
      ((runtimeResolver wording).refs manifest = .ok (some (extendsOf manifest)) ∧
        (validatorResolver cwd).refs manifest = .ok (some (extendsOf manifest))) ∨
      ((∃ e, (runtimeResolver wording).refs manifest = .error e) ∧
        ∃ e, (validatorResolver cwd).refs manifest = .error e) := by
  unfold extendsOf runtimeResolver validatorResolver
  simp only
  cases stated : Record.get manifest (js "extends") with
  | none => exact Or.inl ⟨rfl, rfl, rfl⟩
  | some value =>
    simp only
    cases refs : asExtendsList value with
    | none => exact Or.inr (Or.inr ⟨⟨_, rfl⟩, _, rfl⟩)
    | some list =>
      cases list with
      | nil => exact absurd (asExtendsList_eq_nil refs ▸ stated) refers
      | cons ref refs => exact Or.inr (Or.inl ⟨rfl, rfl⟩)

theorem TameManifest.corresponds {manifest : Record Json} (tame : TameManifest manifest) :
    Corresponds (ownExecution manifest) (manifest.erase (js "extends")) manifest := by
  have apart : js "execution" ≠ js "extends" := by decide +kernel
  have unchanged : ownExecution (manifest.erase (js "extends")) = ownExecution manifest := by
    unfold ownExecution
    rw [Record.get_erase, if_neg apart]
  refine ⟨tame.erase _, tame.tidy, fun key _ notExtends => ?_, ?_⟩
  · rw [Record.get_erase, if_neg notExtends]
  · rw [← unchanged]
    refine Executions.own (tame.erase _) manifest ?_
    rw [Record.get_erase, if_neg apart]

theorem Corresponds.erase {stated : List (Record Json)} {r v : Record Json} (corresponds : Corresponds stated r v) :
    Corresponds stated r (v.erase (js "extends")) := by
  refine ⟨corresponds.tame, corresponds.tidy.erase _, fun key notExecution notExtends => ?_, ?_⟩
  · rw [Record.get_erase, if_neg notExtends]
    exact corresponds.same key notExecution notExtends
  · have executions := corresponds.executions
    unfold Executions at executions ⊢
    rw [Record.get_erase, if_neg (by decide +kernel)]
    exact executions

/-- Resolving what both read alike ends alike: by the depth that is left, and over the references of one manifest
from left to right. -/
theorem resolve_alike {manifest : Record Json} {baseDir : JSString}
    (alike : ∀ child dirR dirV, Reached manifests manifest baseDir child dirR dirV →
      ReadAlike cwd manifests child dirR dirV) :
    ∀ (fuel : Nat) (child : Record Json) (dirR dirV : JSString) (chain : List JSString),
      Reached manifests manifest baseDir child dirR dirV → chain.Nodup → chain ⊆ Record.keys manifests →
      manifests.length < fuel + chain.length →
      EndAlike (statedExecutions manifests fuel child dirR)
        ((runtimeResolver wording).resolve manifests fuel child dirR chain)
        ((validatorResolver cwd).resolve manifests fuel child dirV chain) := by
  intro fuel
  induction fuel with
  | zero =>
    intro child dirR dirV chain _ distinct known deep
    have bound := (distinct.subperm known).length_le
    simp only [Record.keys, List.length_map] at bound
    omega
  | succ fuel ih =>
    intro child dirR dirV chain reached distinct known deep
    have reads := alike child dirR dirV reached
    have follows : ∀ ref ∈ extendsOf child, ∀ stated r v, Corresponds stated r v →
        EndAlike (stated ++ statedBy manifests fuel dirR ref)
          ((runtimeResolver wording).follow manifests ((runtimeResolver wording).resolve manifests fuel) dirR chain r ref)
          ((validatorResolver cwd).follow manifests ((validatorResolver cwd).resolve manifests fuel) dirV chain v ref) := by
      intro ref names stated r v corresponds
      have path : (validatorResolver cwd).pathOf dirV ref = joinPath dirR ref := reads.paths ref names
      unfold Resolver.follow
      simp only [path]
      rcases load_alike cwd wording (reads.objects ref names) chain ref with
        ⟨base, found, fresh, runtime, validator⟩ | ⟨⟨e, runtime⟩, e', validator⟩
      · have step := ih base _ _ (chain ++ [joinPath dirR ref]) (.base reached names found)
          (distinct.append (List.nodup_singleton _) fun path inside same => fresh (List.mem_singleton.mp same ▸ inside))
          (List.append_subset.mpr ⟨known, List.cons_subset.mpr ⟨Record.mem_keys_of_get found, List.nil_subset _⟩⟩)
          (by rw [List.length_append, List.length_singleton]; omega)
        have states : statedBy manifests fuel dirR ref =
            statedExecutions manifests fuel base (dirOf (joinPath dirR ref)) := by
          rw [statedBy, found]
        rw [validator, states]
        show EndAlike _ (((runtimeResolver wording).load manifests chain ref (joinPath dirR ref)).mapError .refused >>= _) _
        rw [runtime]
        exact step.bind fun _ _ resolved => corresponds.endAlike resolved
      · rw [validator]
        show EndAlike _ (((runtimeResolver wording).load manifests chain ref (joinPath dirR ref)).mapError .refused >>= _) _
        rw [runtime]
        exact Or.inr ⟨⟨_, rfl⟩, _, rfl⟩
    have all : ∀ refs, refs ⊆ extendsOf child → ∀ stated r v, Corresponds stated r v →
        EndAlike (stated ++ refs.flatMap (statedBy manifests fuel dirR))
          (refs.foldlM ((runtimeResolver wording).follow manifests
            ((runtimeResolver wording).resolve manifests fuel) dirR chain) r)
          (refs.foldlM ((validatorResolver cwd).follow manifests
            ((validatorResolver cwd).resolve manifests fuel) dirV chain) v) := by
      intro refs
      induction refs with
      | nil =>
        intro _ stated r v corresponds
        rw [List.flatMap_nil, List.append_nil]
        exact Or.inl ⟨r, v, rfl, rfl, corresponds⟩
      | cons ref refs rest =>
        intro inside stated r v corresponds
        rw [List.foldlM_cons, List.foldlM_cons, List.flatMap_cons, ← List.append_assoc]
        refine (follows ref (inside (List.mem_cons_self ..)) stated r v corresponds).bind fun r' v' next => ?_
        exact rest (fun other member => inside (List.mem_cons_of_mem _ member)) _ r' v' next
    rw [statedExecutions, Resolver.resolve, Resolver.resolve]
    rcases refs_alike cwd wording reads.refers with
      ⟨runtime, validator, none⟩ | ⟨runtime, validator⟩ | ⟨⟨e, runtime⟩, e', validator⟩
    · rw [runtime, validator, none]
      exact Or.inl ⟨_, _, rfl, rfl, reads.tame.corresponds.erase⟩
    · rw [runtime, validator]
      exact (all _ (List.Subset.refl _) [] [] [] .nil).bind fun r v composed =>
        composed.endAlike reads.tame.corresponds
    · rw [runtime, validator]
      exact Or.inr ⟨⟨_, rfl⟩, _, rfl⟩

/-- A resolver's result never has `extends`. -/
theorem Resolver.resolve_extends {r : Resolver} {manifests : Manifests}
    (merged : ∀ base child result, r.merge base child = .ok result → Record.get result (js "extends") = none)
    {fuel : Nat} {manifest result : Record Json} {dir : JSString} {chain : List JSString}
    (resolves : r.resolve manifests fuel manifest dir chain = .ok result) : Record.get result (js "extends") = none := by
  cases fuel with
  | zero => cases resolves
  | succ fuel =>
    rw [Resolver.resolve] at resolves
    cases stated : r.refs manifest with
    | error e =>
      rw [stated] at resolves
      cases resolves
    | ok found =>
      rw [stated] at resolves
      cases found with
      | none =>
        obtain rfl := Except.ok.inj resolves
        rw [Record.get_erase, if_pos rfl]
      | some refs =>
        replace resolves : Except.bind (refs.foldlM (r.follow manifests (r.resolve manifests fuel) dir chain) [])
            (fun composed => (r.merge composed (r.own manifest)).mapError ResolveFailure.refused) = .ok result := resolves
        cases composed : refs.foldlM (r.follow manifests (r.resolve manifests fuel) dir chain) [] with
        | error e =>
          rw [composed] at resolves
          cases resolves
        | ok made =>
          rw [composed] at resolves
          replace resolves : (r.merge made (r.own manifest)).mapError ResolveFailure.refused = .ok result := resolves
          cases last : r.merge made (r.own manifest) with
          | error e =>
            rw [last] at resolves
            cases resolves
          | ok final =>
            rw [last] at resolves
            obtain rfl := Except.ok.inj resolves
            exact merged _ _ _ last

theorem get_assemble_extends (base child : Record Json) (blocks : List Block) :
    Record.get (assemble base child blocks) (js "extends") = none := by
  rw [assemble, Record.get_erase, if_pos rfl]

theorem runtimeMerge_extends {base child result : Record Json} (merged : runtimeMerge base child = .ok result) :
    Record.get result (js "extends") = none := by
  unfold runtimeMerge settle at merged
  split at merged
  · cases merged
  · rename_i made found run
    split at merged
    · obtain rfl := Except.ok.inj merged
      obtain ⟨blocks, -, returns⟩ := returns_bind ⟨found, run⟩
      exact returns_pure returns ▸ get_assemble_extends ..
    · cases merged

theorem validatorMerge_extends {base child result : Record Json} (merged : validatorMerge base child = .ok result) :
    Record.get result (js "extends") = none := by
  unfold validatorMerge at merged
  cases blocks : validatorBlocks base child with
  | error e =>
    rw [blocks] at merged
    cases merged
  | ok made =>
    rw [blocks] at merged
    obtain rfl := Except.ok.inj merged
    exact get_assemble_extends ..

end

/-- The same value, or objects with the same value under every id. -/
def SameValue (a b : Option Json) : Prop :=
  a = b ∨ ∃ m n, a = some (.obj m) ∧ b = some (.obj n) ∧ ∀ id, Record.get m id = Record.get n id

/-- Manifests with the same value under every key. -/
def SameManifest (r v : Json) : Prop :=
  ∃ m n, r = .obj m ∧ v = .obj n ∧ ∀ key, SameValue (Record.get m key) (Record.get n key)

/-- Both resolvers return the same manifest, or both refuse. -/
def ResolveAlike (cwd : JSString) (wording : JSString → JSString) (manifests : Manifests) (manifest : Json)
    (baseDir : JSString) : Prop :=
  (∃ r v, runtimeResolveExtends wording manifests manifest baseDir = .ok r ∧
      validatorResolveExtends cwd manifests manifest baseDir = .ok v ∧ SameManifest r v) ∨
    (∃ e, runtimeResolveExtends wording manifests manifest baseDir = .error (.refused e)) ∧
      ∃ e, validatorResolveExtends cwd manifests manifest baseDir = .error (.refused e)

/-- Every manifest a resolution reaches is read alike, or none is followed. -/
def AllReadAlike (cwd : JSString) (manifests : Manifests) (manifest : Record Json) (baseDir : JSString) : Prop :=
  Record.get manifest (js "extends") = none ∨
    ∀ child dirR dirV, Reached manifests manifest baseDir child dirR dirV → ReadAlike cwd manifests child dirR dirV

theorem findSome_latest {last : Record Json} {stated : List (Record Json)} (ends : stated.getLast? = some last)
    (id : JSString) :
    (stated.reverse.findSome? fun earlier => Record.get earlier id) =
      (Record.get last id).or (stated.dropLast.reverse.findSome? fun earlier => Record.get earlier id) := by
  obtain ⟨before, rfl⟩ := List.getLast?_eq_some_iff.mp ends
  rw [List.reverse_append, List.reverse_singleton, List.singleton_append, List.findSome?_cons, List.dropLast_concat]
  cases Record.get last id <;> rfl

/-- Corresponding manifests are the same exactly when the last `execution` states all that any does. -/
theorem Corresponds.same_iff {stated : List (Record Json)} {r v : Record Json} (corresponds : Corresponds stated r v)
    (resolvedR : Record.get r (js "extends") = none) (resolvedV : Record.get v (js "extends") = none) :
    SameManifest (.obj r) (.obj v) ↔ Overriding stated := by
  have executions := corresponds.executions
  unfold Executions at executions
  constructor
  · rintro ⟨m, n, sameR, sameV, same⟩ last ends earlier inside key names
    cases sameR
    cases sameV
    rw [ends] at executions
    obtain ⟨statesR, members, statesV, -, latest⟩ := executions
    have alike : ∀ id, Record.get last id = Record.get members id := by
      rcases same (js "execution") with equal | ⟨m, n, inR, inV, alike⟩
      · rw [statesR, statesV] at equal
        cases equal
        exact fun _ => rfl
      · rw [statesR] at inR
        rw [statesV] at inV
        cases inR
        cases inV
        exact alike
    have found : (stated.reverse.findSome? fun earlier => Record.get earlier key).isSome :=
      List.findSome?_isSome_iff.mpr ⟨earlier, List.mem_reverse.mpr inside, Record.get_isSome.mpr names⟩
    rw [← latest, ← alike] at found
    exact Record.get_isSome.mp found
  · intro overriding
    refine ⟨r, v, rfl, rfl, fun key => ?_⟩
    by_cases isExecution : key = js "execution"
    · subst isExecution
      cases ends : stated.getLast? with
      | none =>
        rw [ends] at executions
        exact Or.inl (executions.1.trans executions.2.symm)
      | some last =>
        rw [ends] at executions
        obtain ⟨statesR, members, statesV, -, latest⟩ := executions
        refine Or.inr ⟨last, members, statesR, statesV, fun id => ?_⟩
        rw [latest, findSome_latest ends]
        cases here : Record.get last id with
        | some value => rfl
        | none =>
          refine (List.findSome?_eq_none_iff.mpr fun earlier inside => ?_).symm
          have among : earlier ∈ stated := List.mem_of_mem_dropLast (List.mem_reverse.mp inside)
          exact Record.get_eq_none.2 fun names =>
            Record.get_eq_none.1 here (overriding last ends earlier among id names)
    · by_cases isExtends : key = js "extends"
      · exact Or.inl (isExtends ▸ resolvedR.trans resolvedV.symm)
      · exact Or.inl (corresponds.same key isExecution isExtends)

theorem overriding_own (manifest : Record Json) : Overriding (ownExecution manifest) := by
  unfold ownExecution
  split
  · intro last ends earlier inside key names
    cases ends
    exact List.mem_singleton.mp inside ▸ names
  · intro last ends
    cases ends

/-- Whether a resolved manifest has an id in a block. -/
def states (resolved : Except ResolveFailure Json) (block id : JSString) : Bool :=
  match resolved with
  | .ok (.obj members) => decide (id ∈ Record.keys (objectOr (Record.get members block)))
  | _ => false

theorem ResolveAlike.states {cwd : JSString} {wording : JSString → JSString} {manifests : Manifests} {manifest : Json}
    {baseDir : JSString} (alike : ResolveAlike cwd wording manifests manifest baseDir) (block id : JSString) :
    Xript.states (runtimeResolveExtends wording manifests manifest baseDir) block id =
      Xript.states (validatorResolveExtends cwd manifests manifest baseDir) block id := by
  rcases alike with ⟨r, v, runtime, validator, m, n, rfl, rfl, same⟩ | ⟨⟨e, runtime⟩, e', validator⟩
  · rw [runtime, validator]
    simp only [Xript.states, ← Record.get_isSome]
    rcases same block with equal | ⟨a, b, inR, inV, alike⟩
    · rw [equal]
    · have same : Record.get (objectOr (some (.obj a))) id = Record.get (objectOr (some (.obj b))) id := alike id
      rw [inR, inV, same]
  · rw [runtime, validator]
    rfl

/-- A base that states both axes of `execution`, and a child that states one. -/
def executionBase : Json := .obj [(js "xript", .str (js "0.8")), (js "name", .str (js "base")),
  (js "execution", .obj [(js "duration", .str (js "long")), (js "affinity", .str (js "pinned"))])]

def executionChild : Record Json := [(js "xript", .str (js "0.8")), (js "name", .str (js "child")),
  (js "execution", .obj [(js "duration", .str (js "brief"))]), (js "extends", .str (js "./base.json"))]

theorem tame_plain {manifest : Record Json} (distinct : (Record.keys manifest).Nodup)
    (own : js "__proto__" ∉ Record.keys manifest)
    (few : ∀ key ∈ resolveMapKeys ++ ["slots", "formats", "vocabularies"].map js, key ∉ Record.keys manifest)
    (execution : Holds manifest (js "execution") TameExecution) : TameManifest manifest := by
  have none : ∀ key ∈ resolveMapKeys ++ ["slots", "formats", "vocabularies"].map js, ∀ kind, Holds manifest key kind :=
    fun key inside _ _ found => absurd (Record.mem_keys_of_get found) (few key inside)
  exact ⟨distinct, own, fun key isMap => none key (List.mem_append_left _ isMap) _, none _ (by decide +kernel) _,
    none _ (by decide +kernel) _, none _ (by decide +kernel) _, execution⟩

end Xript
