import Xript.Extends.Cycles
import Xript.Extends.Kept

namespace Xript

open Collecting

section

variable (r : Resolver) (manifests : Manifests)

/-- A resolution that succeeds, with the manifests that take part in it in the order they merge, and with `P` at each
merge: of the manifests before and what they compose, and of those that come with what is merged onto it. -/
inductive Composes (P : List (Record Json) → Record Json → List (Record Json) → Record Json → Prop) :
    ResolveTask → List (Record Json) → List (Record Json) → Record Json → Prop
  | flat {manifest : Record Json} {dir : JSString} {chain : List JSString} (flat : r.refs manifest = .ok none) :
      Composes P (.manifest manifest dir chain) [] [manifest] (manifest.erase (js "extends"))
  | extending {manifest composed result : Record Json} {dir : JSString} {chain refs : List JSString}
      {before : List (Record Json)} (extending : r.refs manifest = .ok (some refs))
      (bases : Composes P (.bases [] dir chain refs) [] before composed)
      (merges : r.merge composed (r.own manifest) = .ok result) (here : P before composed [manifest] (r.own manifest)) :
      Composes P (.manifest manifest dir chain) [] (before ++ [manifest]) result
  | done {composed : Record Json} {dir : JSString} {chain : List JSString} {before : List (Record Json)} :
      Composes P (.bases composed dir chain []) before before composed
  | follow {composed base resolved merged result : Record Json} {dir ref : JSString} {chain refs : List JSString}
      {before after all : List (Record Json)}
      (loads : r.load manifests chain ref (r.pathOf dir ref) = .ok base)
      (resolves : Composes P (.manifest base (r.dirOf (r.pathOf dir ref)) (chain ++ [r.pathOf dir ref])) [] after resolved)
      (merges : r.merge composed resolved = .ok merged) (here : P before composed after resolved)
      (rest : Composes P (.bases merged dir chain refs) (before ++ after) all result) :
      Composes P (.bases composed dir chain (ref :: refs)) before all result

/-- A merge a resolution comes to, everything before it done. -/
inductive ComesTo : ResolveTask → Record Json → Record Json → Prop
  | own {manifest composed : Record Json} {dir : JSString} {chain refs : List JSString}
      (extending : r.refs manifest = .ok (some refs))
      (bases : Resolving r manifests (fun _ _ => True) (.bases [] dir chain refs) composed) :
      ComesTo (.manifest manifest dir chain) composed (r.own manifest)
  | bases {manifest base child : Record Json} {dir : JSString} {chain refs : List JSString}
      (extending : r.refs manifest = .ok (some refs)) (comes : ComesTo (.bases [] dir chain refs) base child) :
      ComesTo (.manifest manifest dir chain) base child
  | here {composed base resolved : Record Json} {dir ref : JSString} {chain refs : List JSString}
      (loads : r.load manifests chain ref (r.pathOf dir ref) = .ok base)
      (resolves : Resolving r manifests (fun _ _ => True)
        (.manifest base (r.dirOf (r.pathOf dir ref)) (chain ++ [r.pathOf dir ref])) resolved) :
      ComesTo (.bases composed dir chain (ref :: refs)) composed resolved
  | inside {composed loaded base child : Record Json} {dir ref : JSString} {chain refs : List JSString}
      (loads : r.load manifests chain ref (r.pathOf dir ref) = .ok loaded)
      (comes : ComesTo (.manifest loaded (r.dirOf (r.pathOf dir ref)) (chain ++ [r.pathOf dir ref])) base child) :
      ComesTo (.bases composed dir chain (ref :: refs)) base child
  | later {composed loaded resolved merged base child : Record Json} {dir ref : JSString} {chain refs : List JSString}
      (loads : r.load manifests chain ref (r.pathOf dir ref) = .ok loaded)
      (resolves : Resolving r manifests (fun _ _ => True)
        (.manifest loaded (r.dirOf (r.pathOf dir ref)) (chain ++ [r.pathOf dir ref])) resolved)
      (merges : r.merge composed resolved = .ok merged) (comes : ComesTo (.bases merged dir chain refs) base child) :
      ComesTo (.bases composed dir chain (ref :: refs)) base child

/-- Runs a task, a manifest one level above its bases. -/
def ResolveTask.run (fuel : Nat) : ResolveTask → Except ResolveFailure (Record Json)
  | .manifest root dir chain => r.resolve manifests (fuel + 1) root dir chain
  | .bases composed dir chain refs => refs.foldlM (r.follow manifests (r.resolve manifests fuel) dir chain) composed

/-- A task ends alike on any fuel from some on. -/
def ResolveTask.Ends (task : ResolveTask) (outcome : Except ResolveFailure (Record Json)) : Prop :=
  ∃ fuel, ∀ more, task.run r manifests (fuel + more) = outcome

variable {r manifests}

theorem ends_manifest {manifest composed : Record Json} {dir : JSString} {chain refs : List JSString}
    {outcome : Except ResolveFailure (Record Json)} (extending : r.refs manifest = .ok (some refs))
    (bases : (ResolveTask.bases [] dir chain refs).Ends r manifests (.ok composed))
    (merges : (r.merge composed (r.own manifest)).mapError .refused = outcome) :
    (ResolveTask.manifest manifest dir chain).Ends r manifests outcome := by
  obtain ⟨fuel, bases⟩ := bases
  refine ⟨fuel, fun more => ?_⟩
  have follows : refs.foldlM (r.follow manifests (r.resolve manifests (fuel + more)) dir chain) [] = .ok composed :=
    bases more
  rw [ResolveTask.run, Resolver.resolve, extending]
  show (refs.foldlM (r.follow manifests (r.resolve manifests (fuel + more)) dir chain) [] >>= _) = _
  rw [follows]
  exact merges

theorem ends_manifest_error {manifest : Record Json} {dir : JSString} {chain refs : List JSString} {e : ResolveFailure}
    (extending : r.refs manifest = .ok (some refs))
    (bases : (ResolveTask.bases [] dir chain refs).Ends r manifests (.error e)) :
    (ResolveTask.manifest manifest dir chain).Ends r manifests (.error e) := by
  obtain ⟨fuel, bases⟩ := bases
  refine ⟨fuel, fun more => ?_⟩
  have follows : refs.foldlM (r.follow manifests (r.resolve manifests (fuel + more)) dir chain) [] = .error e :=
    bases more
  rw [ResolveTask.run, Resolver.resolve, extending]
  show (refs.foldlM (r.follow manifests (r.resolve manifests (fuel + more)) dir chain) [] >>= _) = _
  rw [follows]
  rfl

section

variable {composed loaded resolved merged : Record Json} {dir ref : JSString} {chain refs : List JSString}
  (loads : r.load manifests chain ref (r.pathOf dir ref) = .ok loaded)

include loads

theorem follow_resolved {fuel : Nat}
    (resolves : r.resolve manifests fuel loaded (r.dirOf (r.pathOf dir ref)) (chain ++ [r.pathOf dir ref]) = .ok resolved) :
    r.follow manifests (r.resolve manifests fuel) dir chain composed ref =
      (r.merge composed resolved).mapError .refused := by
  simp only [Resolver.follow, loads]
  show (r.resolve manifests fuel loaded _ _ >>= _) = _
  rw [resolves]
  rfl

theorem ends_bases {outcome : Except ResolveFailure (Record Json)}
    (resolves : (ResolveTask.manifest loaded (r.dirOf (r.pathOf dir ref)) (chain ++ [r.pathOf dir ref])).Ends r manifests
      (.ok resolved)) (merges : r.merge composed resolved = .ok merged)
    (rest : (ResolveTask.bases merged dir chain refs).Ends r manifests outcome) :
    (ResolveTask.bases composed dir chain (ref :: refs)).Ends r manifests outcome := by
  obtain ⟨inner, resolves⟩ := resolves
  obtain ⟨outer, rest⟩ := rest
  refine ⟨inner + 1 + outer, fun more => ?_⟩
  have here := @follow_resolved _ _ composed _ _ _ _ _ loads _ (resolves (outer + more))
  have later := rest (inner + 1 + more)
  rw [show inner + (outer + more) + 1 = inner + 1 + outer + more by omega] at here
  rw [show outer + (inner + 1 + more) = inner + 1 + outer + more by omega] at later
  rw [ResolveTask.run, List.foldlM_cons, here, merges]
  exact later

theorem ends_bases_merge {error : ManifestError}
    (resolves : (ResolveTask.manifest loaded (r.dirOf (r.pathOf dir ref)) (chain ++ [r.pathOf dir ref])).Ends r manifests
      (.ok resolved)) (fails : r.merge composed resolved = .error error) :
    (ResolveTask.bases composed dir chain (ref :: refs)).Ends r manifests (.error (.refused error)) := by
  obtain ⟨fuel, resolves⟩ := resolves
  refine ⟨fuel + 1, fun more => ?_⟩
  have here := @follow_resolved _ _ composed _ _ _ _ _ loads _ (resolves more)
  rw [show fuel + more + 1 = fuel + 1 + more by omega] at here
  rw [ResolveTask.run, List.foldlM_cons, here, fails]
  rfl

theorem ends_bases_error {e : ResolveFailure}
    (fails : (ResolveTask.manifest loaded (r.dirOf (r.pathOf dir ref)) (chain ++ [r.pathOf dir ref])).Ends r manifests
      (.error e)) : (ResolveTask.bases composed dir chain (ref :: refs)).Ends r manifests (.error e) := by
  obtain ⟨fuel, fails⟩ := fails
  refine ⟨fuel + 1, fun more => ?_⟩
  have inner : r.resolve manifests (fuel + 1 + more) loaded (r.dirOf (r.pathOf dir ref)) (chain ++ [r.pathOf dir ref]) =
      .error e := by
    rw [show fuel + 1 + more = fuel + more + 1 by omega]
    exact fails more
  rw [ResolveTask.run, List.foldlM_cons]
  simp only [Resolver.follow, loads]
  show (r.resolve manifests _ loaded _ _ >>= _) >>= _ = _
  rw [inner]
  rfl

end

/-- A derivation of a resolution is one run of it. -/
theorem Resolving.ends {P : Record Json → Record Json → Prop} {task : ResolveTask} {result : Record Json}
    (resolving : Resolving r manifests P task result) : task.Ends r manifests (.ok result) := by
  induction resolving with
  | flat flat =>
    refine ⟨0, fun more => ?_⟩
    rw [ResolveTask.run, Resolver.resolve, flat]
    rfl
  | extending extending _ merges _ ih => exact ends_manifest extending ih (by rw [merges]; rfl)
  | done => exact ⟨0, fun _ => rfl⟩
  | follow loads _ merges _ _ resolves rest => exact ends_bases loads resolves merges rest

/-- Where the merge a resolution comes to fails, the resolution fails with its error. -/
theorem ComesTo.ends {task : ResolveTask} {base child : Record Json} (comes : ComesTo r manifests task base child)
    {error : ManifestError} (fails : r.merge base child = .error error) :
    task.Ends r manifests (.error (.refused error)) := by
  induction comes with
  | own extending bases => exact ends_manifest extending bases.ends (by rw [fails]; rfl)
  | bases extending _ ih => exact ends_manifest_error extending (ih fails)
  | here loads resolves => exact ends_bases_merge loads resolves.ends fails
  | inside loads _ ih => exact ends_bases_error loads (ih fails)
  | later loads resolves merges _ ih => exact ends_bases loads resolves.ends merges (ih fails)

/-- What a manifest ends with on some fuel it ends with on the fuel of all manifests. -/
theorem ResolveTask.Ends.resolve {manifest : Record Json} {dir : JSString}
    {outcome : Except ResolveFailure (Record Json)}
    (ends : (ResolveTask.manifest manifest dir []).Ends r manifests outcome) :
    r.resolve manifests manifests.depth manifest dir [] = outcome := by
  obtain ⟨fuel, ends⟩ := ends
  obtain ⟨-, same⟩ := @resolve_deep r manifests manifests.depth manifest dir [] List.nodup_nil
    (List.nil_subset _) (by simp [Manifests.depth])
  have enough := ends manifests.depth
  rw [ResolveTask.run, show fuel + manifests.depth + 1 = manifests.depth + (fuel + 1) by omega, same] at enough
  exact enough

end

end Xript
