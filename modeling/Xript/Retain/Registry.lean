import Xript.Fragment.Sites

namespace Xript

namespace Retain

/-- The name of a loaded mod: validation refuses the empty one. -/
abbrev Mod := { name : JSString // name ≠ [] }

variable {Fn : Type} [DecidableEq Fn]

structure RetainedRecord (Fn : Type) where
  key : JSString
  fn : Fn
  owner : Option Mod
  binding : JSString
  released : Bool

/-- A registry with the sandbox-realm numbering of functions. A handle is the place of its record among all that were
ever made. -/
structure Registry (Fn : Type) where
  ids : List (Fn × Nat)
  next : Nat
  idOf : Bool
  records : List (RetainedRecord Fn)
  live : List (JSString × Nat)

inductive RetainFailure where
  | undeclared
  | limit
  | useAfterFree

inductive CallbackFailure where
  | released
  | foreign

namespace Registry

def start : Registry Fn := ⟨[], 0, true, [], []⟩

/-- `functionId`: the number of a function, a new one at its first sight. -/
def functionId (s : Registry Fn) (fn : Fn) : Nat × Registry Fn :=
  match s.ids.lookup fn with
  | some id => (id, s)
  | none => (s.next + 1, { s with ids := (fn, s.next + 1) :: s.ids, next := s.next + 1 })

/-- `${id}:${owner ?? ""}`. -/
def keyOf (id : Nat) (owner : Option Mod) : JSString :=
  decimal id ++ 58 :: (owner.map Subtype.val).getD []

def retain (limit : Nat) (s : Registry Fn) (caller : Option Mod) (fn : Fn) (binding : JSString) (retainable : Bool) :
    Except RetainFailure Nat × Registry Fn :=
  if s.idOf then
    let (id, s) := s.functionId fn
    let key := keyOf id caller
    match s.live.lookup key with
    | some handle => (.ok handle, s)
    | none =>
      if retainable then
        if limit ≤ s.live.length then (.error .limit, s)
        else (.ok s.records.length, { s with
          records := s.records ++ [⟨key, fn, caller, binding, false⟩]
          live := s.live ++ [(key, s.records.length)] })
      else (.error .undeclared, s)
  else (.error .useAfterFree, s)

/-- `release`: marks the record and takes its key off the live ones. -/
def release (s : Registry Fn) (handle : Nat) : Registry Fn :=
  match s.records[handle]? with
  | some record =>
    if record.released then s
    else { s with
      records := s.records.set handle { record with released := true }
      live := s.live.eraseP fun entry => entry.1 = record.key }
  | none => s

/-- The loop of `releaseOwner` over the records that were live at its start. -/
def releaseOwned (mod : Mod) : List Nat → Registry Fn → Nat × Registry Fn
  | [], s => (0, s)
  | handle :: handles, s =>
    if (s.records[handle]?).bind RetainedRecord.owner = some mod then
      let (released, s) := releaseOwned mod handles (s.release handle)
      (released + 1, s)
    else releaseOwned mod handles s

def releaseOwner (s : Registry Fn) (mod : Mod) : Nat × Registry Fn := releaseOwned mod (s.live.map Prod.snd) s

def dispose (s : Registry Fn) : Registry Fn :=
  { (s.live.map Prod.snd).foldl release s with idOf := false }

/-- `invoke`, up to the call: whom it is credited to and what it runs. -/
def invoke (s : Registry Fn) (handle : Nat) : Except CallbackFailure (Option Mod × Fn) :=
  match s.records[handle]? with
  | some record => if record.released then .error .released else .ok (record.owner, record.fn)
  | none => .error .released

/-- `resolve`, by whether the handle crosses into the context it came from. -/
def resolve (s : Registry Fn) (handle : Nat) (own : Bool) (current : Option Mod) : Except CallbackFailure Fn :=
  match s.records[handle]? with
  | some record =>
    if record.released then .error .released
    else if ¬ own ∨ (current ≠ none ∧ current ≠ record.owner) then .error .foreign
    else .ok record.fn
  | none => .error .released

end Registry

/-- What reaches a registry. The script a call runs reaches it by the events that follow the call. -/
inductive RegistryEvent (Fn : Type) where
  | retain (caller : Option Mod) (fn : Fn) (binding : JSString) (retainable : Bool)
  | release (handle : Nat)
  | releaseOwner (mod : Mod)
  | call (handle : Nat)
  | resolve (handle : Nat) (own : Bool) (current : Option Mod)
  | dispose

def Registry.step (limit : Nat) (s : Registry Fn) : RegistryEvent Fn → Registry Fn
  | .retain caller fn binding retainable => (s.retain limit caller fn binding retainable).2
  | .release handle => s.release handle
  | .releaseOwner mod => (s.releaseOwner mod).2
  | .call _ => s
  | .resolve _ _ _ => s
  | .dispose => s.dispose

def Registry.run (limit : Nat) (s : Registry Fn) (events : List (RegistryEvent Fn)) : Registry Fn :=
  events.foldl (Registry.step limit) s

end Retain

end Xript
