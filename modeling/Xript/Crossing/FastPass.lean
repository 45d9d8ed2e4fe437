import Mathlib.Data.List.Nodup
import Xript.Crossing.Inbound

namespace Xript

/-- The deepest the engine's own recursive `JSON.stringify` is trusted with. -/
def nativeStringifyDepth : Nat := 1000

/-- How many containers the pass takes without following which ones it is inside. -/
def untrackedContainers : Nat := 900

/-- What a pass keeps. A holder is a container, or none for the object `JSON.stringify` wraps the value in; `stack` is
innermost first, and its length is `depth`. A list that is null is empty, and a `top` or an `opened` that is null none. -/
structure FastPass where
  functionsCross : Bool
  marked : Bool
  leaves : List Nat
  tracking : Bool
  limit : Nat
  containers : Nat
  stack : List (Option Nat)
  top : Option (Option Nat)
  opened : Option Nat
  deriving DecidableEq

namespace FastPass

/-- The pass `run` starts with. -/
def start (crossFunctions trackFromStart : Bool) : FastPass where
  functionsCross := crossFunctions
  marked := false
  leaves := []
  tracking := trackFromStart
  limit := if trackFromStart then nativeStringifyDepth else nativeStringifyDepth - untrackedContainers
  containers := 0
  stack := []
  top := none
  opened := none

def mark (pass : FastPass) (text : JSString) : GraphValue × FastPass :=
  (.prim (.str text), { pass with marked := true })

def startTracking (pass : FastPass) (holder : Option Nat) : FastPass :=
  { pass with tracking := true, top := some holder, stack := [holder] }

def follow (pass : FastPass) (holder : Option Nat) : FastPass :=
  if holder ≠ none ∧ holder = pass.opened then
    { pass with top := some holder, stack := holder :: pass.stack }
  else
    match pass.stack.dropWhile (· ≠ holder) with
    | [] => { pass with top := some holder, stack := [holder] }
    | stack => { pass with top := some holder, stack }

section Replacer

variable (toNumber : JSString → F64) (nonce : JSString)

def numberOf : Primitive → F64
  | .undefined => .nan
  | .null | .bool false => F64.ofNat 0
  | .bool true => F64.ofNat 1
  | .number x => x
  | .bigint n => F64.ofInt n
  | .str s => toNumber s

def special (pass : FastPass) (item : Primitive) : GraphValue × FastPass :=
  if item = .number .nan then pass.mark (nonce ++ js "n")
  else if item = .number (.finite (.zero false)) ∨ item = .number (.finite (.zero true)) then pass.mark (nonce ++ js "z")
  else if (F64.ofNat 0).lt (numberOf toNumber item) then pass.mark (nonce ++ js "i")
  else pass.mark (nonce ++ js "j")

/-- The spelling of a number JSON would change, and any other value as it is: `raw - raw !== 0 || (raw === 0 && 1 / raw < 0)`. -/
def plain (pass : FastPass) (raw : Primitive) : GraphValue × FastPass :=
  if (numberOf toNumber raw).isFinite = false ∨ raw = .number (.finite (.zero true)) then pass.special toNumber nonce raw
  else (.prim raw, pass)

def unwrapped (pass : FastPass) : Primitive → GraphValue × FastPass
  | .bigint n => pass.mark (nonce ++ js "b" ++ bigintText n)
  | raw => pass.plain toNumber nonce raw

def leaf (pass : FastPass) (id : Nat) : GraphValue × FastPass :=
  { pass with leaves := pass.leaves ++ [id] }.mark (nonce ++ js "f" ++ decimal pass.leaves.length)

/-- The end of `replacer` for a container, once it is followed: none where it throws `DEEP`. -/
def openContainer (pass : FastPass) (ref : Nat) : Option (GraphValue × FastPass) :=
  match pass.stack.idxOf? (some ref) with
  | some above => some (pass.mark (nonce ++ js "c" ++ decimal (above + 1)))
  | none =>
    if pass.limit ≤ pass.stack.length then none else some (.object ref, { pass with opened := some ref })

/-- `replacer`, called with its holder: `raw` is what `unwrap` makes of an object under `Number.prototype` or
`BigInt.prototype`, and none where that is the object itself. None where it throws `DEEP`. -/
def replacer (raw : Option Primitive) (pass : FastPass) (holder : Option Nat) (item : GraphValue) :
    Option (GraphValue × FastPass) :=
  let pass := if pass.tracking = true ∧ pass.top ≠ some holder then pass.follow holder else pass
  match item with
  | .prim (.number x) => some (pass.plain toNumber nonce (.number x))
  | .object ref =>
    match raw with
    | some raw => some (pass.unwrapped toNumber nonce raw)
    | none =>
      if pass.tracking = true then pass.openContainer nonce ref
      else
        let pass := { pass with containers := pass.containers + 1 }
        if pass.containers ≤ untrackedContainers then some (item, pass)
        else (pass.startTracking holder).openContainer nonce ref
  | .prim .undefined => some (pass.mark (nonce ++ js "u"))
  | .prim (.bigint n) => some (pass.mark (nonce ++ js "b" ++ bigintText n))
  | .func id => if pass.functionsCross = true then some (pass.leaf nonce id) else some (item, pass)
  | .prim (.str _) | .prim .null | .prim (.bool _) | .symbol _ => some (item, pass)

end Replacer

end FastPass

/-- A script value as `JSON.stringify` reads it: a container with what its keys or elements give in order, whatever
getters, proxies and `toJSON` answer, and a read that throws. A wrapper is an object `unwrap` makes `raw` of, and a
String or Boolean object a container with nothing to read. -/
inductive Script where
  | prim (p : Primitive)
  | symbol (description : Option JSString)
  | func (id : Nat)
  | wrapper (ref : Nat) (raw : Primitive)
  | container (ref : Nat) (items : List Script)
  | throws

inductive PassStop where
  | deep
  | circular
  | threw
  deriving DecidableEq

namespace Script

mutual

/-- How many containers a value nests, inside some containers: a reference back to one of them nests no further. -/
def nesting (inside : List Nat) : Script → Nat
  | .container ref items => if ref ∈ inside then 0 else nestingOf (ref :: inside) items + 1
  | .prim _ | .symbol _ | .func _ | .wrapper _ _ | .throws => 0

def nestingOf (inside : List Nat) : List Script → Nat
  | [] => 0
  | item :: items => max (item.nesting inside) (nestingOf inside items)

end

mutual

/-- How many containers are read. -/
def containers : Script → Nat
  | .container _ items => containersOf items + 1
  | .prim _ | .symbol _ | .func _ | .wrapper _ _ | .throws => 0

def containersOf : List Script → Nat
  | [] => 0
  | item :: items => item.containers + containersOf items

end

end Script

namespace FastPass

/-- What `JSON.stringify` does with a value it enters nothing of. -/
def visited (entered : List Nat) : Option (GraphValue × FastPass) → Nat × Except PassStop FastPass
  | none => (entered.length, .error .deep)
  | some (_, pass) => (entered.length, .ok pass)

section Stringify

variable (toNumber : JSString → F64) (nonce : JSString)

mutual

/-- `JSON.stringify` with a pass's replacer on a value it is given inside the containers it has entered, innermost
first: the most containers it is inside of at once, and how it ends. -/
def stringify (pass : FastPass) (entered : List Nat) : Script → Nat × Except PassStop FastPass
  | .throws => (entered.length, .error .threw)
  | .prim p => visited entered (pass.replacer toNumber nonce none entered.head? (.prim p))
  | .symbol description => visited entered (pass.replacer toNumber nonce none entered.head? (.symbol description))
  | .func id => visited entered (pass.replacer toNumber nonce none entered.head? (.func id))
  | .wrapper ref raw => visited entered (pass.replacer toNumber nonce (some raw) entered.head? (.object ref))
  | .container ref items =>
    match pass.replacer toNumber nonce none entered.head? (.object ref) with
    | some (.object _, pass) =>
      if ref ∈ entered then (entered.length, .error .circular) else pass.stringifyItems (ref :: entered) items
    | result => visited entered result

def stringifyItems (pass : FastPass) (entered : List Nat) : List Script → Nat × Except PassStop FastPass
  | [] => (entered.length, .ok pass)
  | item :: items =>
    let first := pass.stringify entered item
    match first.2 with
    | .error stop => (first.1, .error stop)
    | .ok pass =>
      let rest := pass.stringifyItems entered items
      (max first.1 rest.1, rest.2)

end

end Stringify

end FastPass

/-- `fastPass`: the most containers `JSON.stringify` is inside of at once, and how the pass ends. -/
def fastPass (toNumber : JSString → F64) (nonce : JSString) (value : Script) (functionsCross trackFromStart : Bool) :
    Nat × Except PassStop FastPass :=
  (FastPass.start functionsCross trackFromStart).stringify toNumber nonce [] value

namespace FastPass

/-- The holders a value inside some containers has, innermost first. -/
def holders (entered : List Nat) : List (Option Nat) := entered.map some ++ [none]

theorem head_holders (entered : List Nat) : ∃ outer, holders entered = entered.head? :: outer := by
  cases entered with
  | nil => exact ⟨[], rfl⟩
  | cons ref entered => exact ⟨holders entered, rfl⟩

theorem length_holders (entered : List Nat) : (holders entered).length = entered.length + 1 := by
  simp [holders]

theorem some_mem_holders {entered : List Nat} {ref : Nat} : some ref ∈ holders entered ↔ ref ∈ entered := by
  simp [holders]

theorem holders_nodup {entered : List Nat} (distinct : entered.Nodup) : (holders entered).Nodup := by
  refine List.Nodup.append (distinct.map (Option.some_injective _)) (List.nodup_singleton _) ?_
  simp [List.disjoint_singleton]

theorem holders_suffix {entered inside : List Nat} (suffix : entered <:+ inside) : holders entered <:+ holders inside := by
  obtain ⟨left, rfl⟩ := suffix
  exact ⟨left.map some, by simp [holders]⟩

/-- Where a pass that follows its holders stands at a visit: it has the innermost of them, and has opened none of the
outer ones last. -/
structure Placed (pass : FastPass) (entered : List Nat) (outer : List (Option Nat)) : Prop where
  distinct : entered.Nodup
  tracking : pass.tracking = true
  whole : pass.stack ++ outer = holders entered
  top : pass.top = some entered.head?
  opened : ∀ ref, pass.opened = some ref → ref ∈ entered → entered.head? = some ref

/-- Where it stands between two visits: nothing is followed yet, or containers were left, or the innermost one was opened
last and gave no item so far. -/
inductive Following (pass : FastPass) : List Nat → List (Option Nat) → Prop
  | unvisited (tracking : pass.tracking = true) (stack : pass.stack = []) (top : pass.top = none)
      (opened : pass.opened = none) : Following pass [] []
  | left {inside entered : List Nat} {outer : List (Option Nat)} (placed : pass.Placed inside outer)
      (suffix : entered <:+ inside) : Following pass entered outer
  | opened {inside : List Nat} {outer : List (Option Nat)} {ref : Nat} (placed : pass.Placed inside outer)
      (fresh : ref ∉ inside) (last : pass.opened = some ref) : Following pass (ref :: inside) outer

theorem suffix_unique {α : Type} {whole one other : List α} {head : α} (distinct : whole.Nodup)
    (first : head :: one <:+ whole) (second : head :: other <:+ whole) : one = other := by
  have same : ∀ {long short : List α}, head :: long <:+ whole → head :: short <:+ head :: long → long = short := by
    intro long short inside shorter
    rcases List.suffix_cons_iff.mp shorter with equal | below
    · exact (List.cons.inj equal).2.symm
    · have twice := (List.nodup_cons.mp (distinct.sublist inside.sublist)).1
      exact absurd (below.subset (List.mem_cons_self ..)) twice
  rcases List.suffix_or_suffix_of_suffix first second with shorter | shorter
  · exact (same second shorter).symm
  · exact same first shorter

/-- Unwinding to a holder finds it among the followed ones, with what they were inside of, or among the others. -/
theorem unwind {α : Type} [DecidableEq α] {stack outer whole rest : List α} {holder : α} (distinct : whole.Nodup)
    (split : stack ++ outer = whole) (suffix : holder :: rest <:+ whole) :
    (∃ under, stack.dropWhile (· ≠ holder) = holder :: under ∧ under ++ outer = rest) ∨
      stack.dropWhile (· ≠ holder) = [] ∧ holder :: rest <:+ outer := by
  induction stack generalizing whole with
  | nil => exact Or.inr ⟨rfl, by simpa [← split] using suffix⟩
  | cons top stack ih =>
    by_cases same : top = holder
    · subst same
      refine Or.inl ⟨stack, by simp, ?_⟩
      exact suffix_unique distinct (split ▸ List.suffix_refl _) suffix
    · subst split
      rw [List.cons_append, List.suffix_cons_iff] at suffix
      rw [List.dropWhile_cons_of_pos (by simpa using same)]
      rcases suffix with equal | below
      · exact absurd (List.cons.inj equal).1.symm same
      · exact ih (List.nodup_cons.mp distinct).2 rfl below

theorem Placed.follow {pass : FastPass} {inside entered : List Nat} {outer : List (Option Nat)}
    (placed : pass.Placed inside outer) (suffix : entered <:+ inside) (moved : pass.top ≠ some entered.head?) :
    ∃ above, (pass.follow entered.head?).Placed entered above ∧ above.length ≤ outer.length ∧
      (entered ≠ [] → outer ≠ [] → above ≠ []) := by
  have opened : ∀ ref, pass.opened = some ref → ref ∈ entered → inside.head? = some ref := fun ref last member =>
    placed.opened ref last (suffix.subset member)
  have still : ∀ ref, pass.opened = some ref → ref ∉ entered := by
    intro ref last member
    have first := opened ref last member
    rw [placed.top, first] at moved
    cases inside with
    | nil => cases first
    | cons innermost inside =>
      rw [List.head?_cons, Option.some.injEq] at first
      subst first
      rcases List.suffix_cons_iff.mp suffix with equal | below
      · rw [equal] at moved
        exact moved rfl
      · exact (List.nodup_cons.mp placed.distinct).1 (below.subset member)
  have other : ¬(entered.head? ≠ none ∧ entered.head? = pass.opened) := by
    intro both
    obtain ⟨ref, head⟩ := Option.ne_none_iff_exists'.mp both.1
    exact still ref (both.2 ▸ head) (List.mem_of_mem_head? head)
  obtain ⟨rest, spelled⟩ := head_holders entered
  have within := holders_suffix suffix
  rw [spelled] at within
  rw [FastPass.follow, if_neg other]
  rcases unwind (holders_nodup placed.distinct) placed.whole within with ⟨under, found, same⟩ | ⟨absent, beyond⟩
  · rw [found]
    refine ⟨outer, ⟨placed.distinct.sublist suffix.sublist, placed.tracking, ?_, rfl, fun ref last member => ?_⟩, le_rfl,
      fun _ outside => outside⟩
    · rw [spelled, List.cons_append, same]
    · exact absurd member (still ref last)
  · rw [absent]
    refine ⟨rest, ⟨placed.distinct.sublist suffix.sublist, placed.tracking, spelled.symm, rfl, fun ref last member => ?_⟩,
      ?_, fun nonempty _ => ?_⟩
    · exact absurd member (still ref last)
    · have length := beyond.length_le
      rw [List.length_cons] at length
      omega
    · rintro rfl
      have length := congrArg List.length spelled
      rw [length_holders] at length
      exact nonempty (List.length_eq_zero_iff.mp (by simpa using length))

theorem head_unique {inside entered : List Nat} (distinct : inside.Nodup) (suffix : entered <:+ inside)
    (same : entered.head? = inside.head?) : entered = inside := by
  cases entered with
  | nil => exact (List.head?_eq_none_iff.mp same.symm).symm
  | cons ref entered =>
    cases inside with
    | nil => cases same
    | cons innermost inside =>
      obtain rfl := Option.some.inj same
      rw [suffix_unique distinct suffix (List.suffix_refl _)]

/-- A visit brings the pass to where `JSON.stringify` is, with no more outside of what it follows. -/
theorem Following.placed {pass : FastPass} {entered : List Nat} {outer : List (Option Nat)}
    (following : pass.Following entered outer) :
    ∃ above, (if pass.tracking = true ∧ pass.top ≠ some entered.head? then pass.follow entered.head? else pass).Placed
      entered above ∧ above.length ≤ outer.length ∧ (entered ≠ [] → outer ≠ [] → above ≠ []) := by
  cases following with
  | unvisited tracking stack top opened =>
    rw [if_pos ⟨tracking, by simp [top]⟩]
    refine ⟨[], ⟨List.nodup_nil, ?_, ?_, ?_, by simp⟩, le_rfl, fun nonempty => absurd rfl nonempty⟩
    all_goals simp [FastPass.follow, stack, tracking, holders]
  | left placed suffix =>
    by_cases moved : pass.top = some entered.head?
    · rw [if_neg (by simp [moved])]
      have same := head_unique placed.distinct suffix (Option.some.inj (moved.symm.trans placed.top))
      exact ⟨outer, same ▸ placed, le_rfl, fun _ outside => outside⟩
    · rw [if_pos ⟨placed.tracking, moved⟩]
      exact placed.follow suffix moved
  | @opened inside _ ref placed fresh last =>
    have moved : pass.top ≠ some (some ref) := by
      rw [placed.top]
      intro same
      exact fresh (List.mem_of_mem_head? (Option.some.inj same))
    rw [List.head?_cons, if_pos ⟨placed.tracking, moved⟩, FastPass.follow, if_pos ⟨by simp, last.symm⟩]
    refine ⟨outer, ⟨List.nodup_cons.mpr ⟨fresh, placed.distinct⟩, placed.tracking, ?_, rfl, ?_⟩, le_rfl,
      fun _ outside => outside⟩
    · rw [List.cons_append, placed.whole]
      rfl
    · intro other same _
      exact last.symm.trans same

/-- What holds inside some containers: before anything is followed there are no more of these than containers read, and
afterwards the ones outside of what is followed leave room for what may still be. -/
structure Bounded (pass : FastPass) (stands : List Nat → List (Option Nat) → Prop) (entered : List Nat) : Prop where
  distinct : entered.Nodup
  depth : entered.length < nativeStringifyDepth
  untracked : pass.tracking = false → pass.limit = nativeStringifyDepth - untrackedContainers ∧ pass.opened = none ∧
    pass.containers ≤ untrackedContainers ∧ entered.length ≤ pass.containers
  tracked : pass.tracking = true → ∃ outer, stands entered outer ∧ outer.length + pass.limit ≤ nativeStringifyDepth ∧
    (pass.limit ≠ nativeStringifyDepth → outer ≠ [] ∧ untrackedContainers < pass.containers)

theorem Bounded.still {pass : FastPass} {entered : List Nat} (bounded : pass.Bounded pass.Placed entered) :
    pass.Bounded pass.Following entered := by
  refine ⟨bounded.distinct, bounded.depth, bounded.untracked, fun tracking => ?_⟩
  obtain ⟨outer, placed, room⟩ := bounded.tracked tracking
  exact ⟨outer, .left placed (List.suffix_refl _), room⟩

theorem Bounded.shown {pass : FastPass} {entered : List Nat} (bounded : pass.Bounded pass.Placed entered) (marked : Bool)
    (leaves : List Nat) : FastPass.Bounded { pass with marked, leaves } (FastPass.Placed { pass with marked, leaves }) entered := by
  refine ⟨bounded.distinct, bounded.depth, bounded.untracked, fun tracking => ?_⟩
  obtain ⟨outer, placed, room⟩ := bounded.tracked tracking
  exact ⟨outer, ⟨placed.distinct, placed.tracking, placed.whole, placed.top, placed.opened⟩, room⟩

/-- The pass a call of `replacer` goes on with. -/
def moved (pass : FastPass) (holder : Option Nat) : FastPass :=
  if pass.tracking = true ∧ pass.top ≠ some holder then pass.follow holder else pass

theorem moved_same (pass : FastPass) (holder : Option Nat) :
    (pass.moved holder).limit = pass.limit ∧ (pass.moved holder).containers = pass.containers ∧
      (pass.moved holder).tracking = pass.tracking := by
  unfold moved FastPass.follow
  split
  · split
    · exact ⟨rfl, rfl, rfl⟩
    · split <;> exact ⟨rfl, rfl, rfl⟩
  · exact ⟨rfl, rfl, rfl⟩

theorem Bounded.moved {pass : FastPass} {entered : List Nat} (bounded : pass.Bounded pass.Following entered)
    (inner : entered = [] → pass.containers = 0) :
    (pass.moved entered.head?).Bounded (pass.moved entered.head?).Placed entered := by
  obtain ⟨limit, containers, tracking⟩ := pass.moved_same entered.head?
  refine ⟨bounded.distinct, bounded.depth, fun untracked => ?_, fun tracked => ?_⟩
  · rw [tracking] at untracked
    rw [FastPass.moved, if_neg (by simp [untracked])]
    exact bounded.untracked untracked
  · rw [tracking] at tracked
    obtain ⟨outer, following, room, outside⟩ := bounded.tracked tracked
    obtain ⟨above, placed, fewer, some⟩ := following.placed
    rw [limit, containers]
    refine ⟨above, placed, by omega, fun first => ?_⟩
    obtain ⟨nonempty, past⟩ := outside first
    refine ⟨some (fun empty => ?_) nonempty, past⟩
    rw [inner empty] at past
    exact absurd past (Nat.not_lt_zero _)

theorem plain_pass (pass : FastPass) (toNumber : JSString → F64) (nonce : JSString) (raw : Primitive) :
    ∃ marked, (pass.plain toNumber nonce raw).2 = { pass with marked } := by
  unfold plain special
  split_ifs
  all_goals exact ⟨_, rfl⟩

theorem unwrapped_pass (pass : FastPass) (toNumber : JSString → F64) (nonce : JSString) (raw : Primitive) :
    ∃ marked, (pass.unwrapped toNumber nonce raw).2 = { pass with marked } := by
  cases raw with
  | bigint n => exact ⟨_, rfl⟩
  | undefined | null | bool | number | str => exact pass.plain_pass toNumber nonce _

/-- Any item but a container is answered, and what the pass follows stays. -/
theorem replacer_flat {toNumber : JSString → F64} {nonce : JSString} {raw : Option Primitive} (pass : FastPass)
    (holder : Option Nat) {item : GraphValue} (flat : ∀ ref, item = .object ref → raw ≠ none) :
    ∃ value marked leaves, pass.replacer toNumber nonce raw holder item =
      some (value, { pass.moved holder with marked, leaves }) := by
  cases item with
  | prim p =>
    cases p with
    | number x =>
      obtain ⟨marked, same⟩ := (pass.moved holder).plain_pass toNumber nonce (.number x)
      exact ⟨_, marked, (pass.moved holder).leaves, congrArg some (Prod.ext rfl same)⟩
    | undefined | null | bool | bigint | str => exact ⟨_, _, _, rfl⟩
  | symbol => exact ⟨_, _, _, rfl⟩
  | func id =>
    by_cases cross : (pass.moved holder).functionsCross = true
    · exact ⟨_, _, _, if_pos cross⟩
    · exact ⟨_, _, _, if_neg cross⟩
  | object ref =>
    obtain ⟨raw, rfl⟩ := Option.ne_none_iff_exists'.mp (flat ref rfl)
    obtain ⟨marked, same⟩ := (pass.moved holder).unwrapped_pass toNumber nonce raw
    exact ⟨_, marked, (pass.moved holder).leaves, congrArg some (Prod.ext rfl same)⟩

/-- What is known of a value read inside some containers, by how deep it nests and how many containers it reads. -/
structure Answered (pass : FastPass) (entered : List Nat) (nests reads : Nat) (result : Nat × Except PassStop FastPass) :
    Prop where
  deepest : result.1 < nativeStringifyDepth
  going : ∀ after, result.2 = .ok after →
    after.limit = pass.limit ∧ after.containers ≤ pass.containers + reads ∧ after.Bounded after.Following entered
  deep : result.2 = .error .deep → pass.limit ≤ entered.length + nests ∧ (pass.limit ≠ nativeStringifyDepth →
    pass.limit < entered.length + nests ∧ untrackedContainers < pass.containers + reads)

theorem answered_stop {pass : FastPass} {entered : List Nat} {nests reads deepest : Nat} {stop : PassStop}
    (depth : deepest < nativeStringifyDepth) (other : stop ≠ .deep) :
    pass.Answered entered nests reads (deepest, .error stop) := by
  refine ⟨depth, fun _ ok => ?_, fun deep => ?_⟩
  · cases ok
  · exact absurd (Except.error.inj deep) other

theorem answered_flat {toNumber : JSString → F64} {nonce : JSString} {raw : Option Primitive} {pass : FastPass}
    {entered : List Nat} (bounded : pass.Bounded pass.Following entered) (inner : entered = [] → pass.containers = 0)
    {item : GraphValue} (flat : ∀ ref, item = .object ref → raw ≠ none) :
    pass.Answered entered 0 0 (visited entered (pass.replacer toNumber nonce raw entered.head? item)) := by
  obtain ⟨value, marked, leaves, answer⟩ := pass.replacer_flat entered.head? flat
  obtain ⟨limit, containers, -⟩ := pass.moved_same entered.head?
  rw [answer]
  refine ⟨bounded.depth, ?_, fun deep => by cases deep⟩
  rintro _ ⟨⟩
  exact ⟨limit, containers.le, ((bounded.moved inner).shown marked leaves).still⟩

/-- A container the pass refuses, and the ones it is in, are as many as the limit. -/
theorem Bounded.refused {pass : FastPass} {entered : List Nat} (bounded : pass.Bounded pass.Placed entered)
    (tracking : pass.tracking = true) {ref nests : Nat} (unseen : some ref ∉ pass.stack)
    (full : pass.limit ≤ pass.stack.length) (nested : ref ∉ entered → 1 ≤ nests) :
    pass.limit ≤ entered.length + nests ∧ (pass.limit ≠ nativeStringifyDepth →
      pass.limit < entered.length + nests ∧ untrackedContainers < pass.containers) := by
  obtain ⟨outer, placed, room, outside⟩ := bounded.tracked tracking
  have length := congrArg List.length placed.whole
  rw [List.length_append, length_holders] at length
  have above : pass.limit ≤ entered.length + nests ∧ (0 < outer.length → pass.limit < entered.length + nests) := by
    by_cases within : ref ∈ entered
    · have back : some ref ∈ pass.stack ++ outer := placed.whole ▸ some_mem_holders.mpr within
      have beyond := (List.mem_append.mp back).resolve_left unseen
      have more : outer.length ≠ 1 := by
        intro single
        obtain ⟨only, rfl⟩ := List.length_eq_one_iff.mp single
        have last := (List.append_inj' placed.whole rfl).2
        rw [last, List.mem_singleton] at beyond
        cases beyond
      have nonempty := List.length_pos_of_mem beyond
      omega
    · have one := nested within
      omega
  refine ⟨above.1, fun first => ?_⟩
  obtain ⟨nonempty, past⟩ := outside first
  exact ⟨above.2 (List.length_pos_iff.mpr nonempty), past⟩

theorem Bounded.opened {pass : FastPass} {entered : List Nat} (bounded : pass.Bounded pass.Placed entered)
    (tracking : pass.tracking = true) {ref : Nat} (fresh : ref ∉ entered) (space : pass.stack.length < pass.limit) :
    FastPass.Bounded { pass with opened := some ref } (FastPass.Following { pass with opened := some ref })
      (ref :: entered) := by
  obtain ⟨outer, placed, room, outside⟩ := bounded.tracked tracking
  have length := congrArg List.length placed.whole
  rw [List.length_append, length_holders] at length
  have next : FastPass.Placed { pass with opened := some ref } entered outer := by
    refine ⟨placed.distinct, placed.tracking, placed.whole, placed.top, ?_⟩
    rintro _ ⟨⟩ member
    exact absurd member fresh
  refine ⟨List.nodup_cons.mpr ⟨fresh, bounded.distinct⟩, ?_, fun untracked => ?_, fun _ => ?_⟩
  · rw [List.length_cons]
    omega
  · rw [show pass.tracking = false from untracked] at tracking
    cases tracking
  · exact ⟨outer, .opened next fresh rfl, room, outside⟩

/-- The pass starts to follow at the holder of a container past the first ones. -/
theorem Bounded.started {pass : FastPass} {entered : List Nat} (bounded : pass.Bounded pass.Placed entered)
    (untracked : pass.tracking = false) (inner : entered = [] → pass.containers = 0)
    (past : untrackedContainers < pass.containers + 1) :
    (FastPass.startTracking { pass with containers := pass.containers + 1 } entered.head?).Bounded
      (FastPass.startTracking { pass with containers := pass.containers + 1 } entered.head?).Placed entered := by
  obtain ⟨limit, opened, few, shallow⟩ := bounded.untracked untracked
  refine ⟨bounded.distinct, bounded.depth, fun off => Bool.noConfusion off, fun _ => ?_⟩
  obtain ⟨outer, whole⟩ := head_holders entered
  have length := congrArg List.length whole
  rw [length_holders, List.length_cons] at length
  refine ⟨outer, ⟨bounded.distinct, rfl, whole.symm, rfl, fun ref last => ?_⟩, ?_, fun _ => ⟨?_, past⟩⟩
  · rw [startTracking, opened] at last
    cases last
  · simp only [startTracking, limit, nativeStringifyDepth, untrackedContainers] at few ⊢
    omega
  · rintro rfl
    have none := inner (List.length_eq_zero_iff.mp (by simpa using length))
    rw [none] at past
    exact absurd past (by decide)

/-- The ways `replacer` answers a container: with the mark of a cycle, with `DEEP`, or with the container itself. -/
inductive Opening (limit containers : Nat) (entered : List Nat) (ref : Nat) : Option (GraphValue × FastPass) → Prop
  | cycle {text : Primitive} {after : FastPass} (same : after.limit = limit) (read : after.containers ≤ containers)
      (bounded : after.Bounded after.Placed entered) : Opening limit containers entered ref (some (.prim text, after))
  | refused (deep : ∀ nests, (ref ∉ entered → 1 ≤ nests) → limit ≤ entered.length + nests ∧
      (limit ≠ nativeStringifyDepth → limit < entered.length + nests ∧ untrackedContainers < containers)) :
      Opening limit containers entered ref none
  | entered {after : FastPass} (same : after.limit = limit) (read : after.containers ≤ containers)
      (bounded : ref ∉ entered → after.Bounded after.Following (ref :: entered)) :
      Opening limit containers entered ref (some (.object ref, after))

theorem Bounded.opening {pass : FastPass} {entered : List Nat} (bounded : pass.Bounded pass.Placed entered)
    (tracking : pass.tracking = true) (nonce : JSString) (ref : Nat) {containers : Nat}
    (read : pass.containers ≤ containers) : Opening pass.limit containers entered ref (pass.openContainer nonce ref) := by
  unfold openContainer
  split
  · exact .cycle rfl read (bounded.shown true pass.leaves)
  next unseen =>
    rw [List.idxOf?_eq_none_iff] at unseen
    split
    next full =>
      refine .refused fun nests nested => ?_
      obtain ⟨near, first⟩ := bounded.refused tracking unseen full nested
      exact ⟨near, fun other => ⟨(first other).1, (first other).2.trans_le read⟩⟩
    next space => exact .entered rfl read fun fresh => bounded.opened tracking fresh (not_le.mp space)

theorem replacer_container (toNumber : JSString → F64) (nonce : JSString) (pass : FastPass) (holder : Option Nat)
    (ref : Nat) : pass.replacer toNumber nonce none holder (.object ref) =
      let here := pass.moved holder
      if here.tracking = true then here.openContainer nonce ref
      else if here.containers + 1 ≤ untrackedContainers then
        some (.object ref, { here with containers := here.containers + 1 })
      else (startTracking { here with containers := here.containers + 1 } holder).openContainer nonce ref := rfl

theorem Bounded.replaced {pass : FastPass} {entered : List Nat} (bounded : pass.Bounded pass.Following entered)
    (inner : entered = [] → pass.containers = 0) (toNumber : JSString → F64) (nonce : JSString) (ref : Nat) :
    Opening pass.limit (pass.containers + 1) entered ref
      (pass.replacer toNumber nonce none entered.head? (.object ref)) := by
  have placed := bounded.moved inner
  obtain ⟨limit, containers, -⟩ := pass.moved_same entered.head?
  rw [replacer_container, ← limit, ← containers]
  rw [← containers] at inner
  generalize pass.moved entered.head? = here at placed inner ⊢
  by_cases tracking : here.tracking = true
  · rw [if_pos tracking]
    exact placed.opening tracking nonce ref (Nat.le_succ _)
  · have untracked := Bool.eq_false_iff.mpr tracking
    rw [if_neg tracking]
    split
    next few =>
      refine .entered rfl le_rfl fun fresh => ?_
      obtain ⟨limit, opened, -, shallow⟩ := placed.untracked untracked
      refine ⟨List.nodup_cons.mpr ⟨fresh, placed.distinct⟩, ?_, fun _ => ⟨limit, opened, few, ?_⟩, fun on => absurd on tracking⟩
      · simp only [untrackedContainers, nativeStringifyDepth, List.length_cons] at few ⊢
        omega
      · exact Nat.succ_le_succ shallow
    next past =>
      exact (placed.started untracked inner (not_le.mp past)).opening rfl nonce ref le_rfl

theorem Following.leave {pass : FastPass} {entered : List Nat} {outer : List (Option Nat)} {ref : Nat}
    (following : pass.Following (ref :: entered) outer) : pass.Following entered outer := by
  cases following with
  | left placed suffix => exact .left placed ((List.suffix_cons ref entered).trans suffix)
  | opened placed => exact .left placed (List.suffix_refl _)

theorem Bounded.leave {pass : FastPass} {entered : List Nat} {ref : Nat}
    (bounded : pass.Bounded pass.Following (ref :: entered)) : pass.Bounded pass.Following entered := by
  refine ⟨(List.nodup_cons.mp bounded.distinct).2, (Nat.lt_succ_self _).trans bounded.depth, fun untracked => ?_,
    fun tracking => ?_⟩
  · obtain ⟨limit, opened, few, shallow⟩ := bounded.untracked untracked
    exact ⟨limit, opened, few, (Nat.le_succ _).trans shallow⟩
  · obtain ⟨outer, following, room⟩ := bounded.tracked tracking
    exact ⟨outer, following.leave, room⟩

mutual

theorem stringify_answered (toNumber : JSString → F64) (nonce : JSString) : ∀ (value : Script) {pass : FastPass}
    {entered : List Nat}, pass.Bounded pass.Following entered → (entered = [] → pass.containers = 0) →
      pass.Answered entered (value.nesting entered) value.containers (pass.stringify toNumber nonce entered value)
  | .throws, pass, entered, bounded, _ => by
    rw [stringify]
    exact answered_stop bounded.depth (by decide)
  | .prim _, pass, entered, bounded, inner | .symbol _, pass, entered, bounded, inner
  | .func _, pass, entered, bounded, inner => by
    rw [stringify]
    exact answered_flat bounded inner fun _ same => by cases same
  | .wrapper _ _, pass, entered, bounded, inner => by
    rw [stringify]
    exact answered_flat bounded inner fun _ _ => Option.some_ne_none _
  | .container ref items, pass, entered, bounded, inner => by
    rw [stringify, Script.nesting, Script.containers]
    have opening := bounded.replaced inner toNumber nonce ref
    generalize pass.replacer toNumber nonce none entered.head? (.object ref) = answer at opening
    cases opening with
    | cycle same read placed =>
      refine ⟨bounded.depth, ?_, fun deep => by cases deep⟩
      rintro _ ⟨⟩
      exact ⟨same, by omega, placed.still⟩
    | refused deep =>
      refine ⟨bounded.depth, fun _ ok => (by cases ok), fun _ => ?_⟩
      have nested : ref ∉ entered → 1 ≤ if ref ∈ entered then 0 else Script.nestingOf (ref :: entered) items + 1 := by
        intro fresh
        rw [if_neg fresh]
        exact Nat.succ_pos _
      obtain ⟨near, first⟩ := deep _ nested
      exact ⟨near, fun other => ⟨(first other).1, (first other).2.trans_le (by omega)⟩⟩
    | @entered after same read further =>
      dsimp only
      split
      · exact answered_stop bounded.depth (by decide)
      next fresh =>
        have inside := items_answered toNumber nonce items (further fresh)
        refine ⟨inside.deepest, fun last ok => ?_, fun stop => ?_⟩
        · obtain ⟨limit, count, still⟩ := inside.going last ok
          exact ⟨limit.trans same, by omega, still.leave⟩
        · obtain ⟨near, first⟩ := inside.deep stop
          rw [List.length_cons, same] at near first
          refine ⟨by omega, fun other => ?_⟩
          obtain ⟨past, many⟩ := first other
          exact ⟨by omega, by omega⟩

theorem items_answered (toNumber : JSString → F64) (nonce : JSString) : ∀ (items : List Script) {pass : FastPass}
    {ref : Nat} {entered : List Nat}, pass.Bounded pass.Following (ref :: entered) →
      pass.Answered (ref :: entered) (Script.nestingOf (ref :: entered) items) (Script.containersOf items)
        (pass.stringifyItems toNumber nonce (ref :: entered) items)
  | [], pass, ref, entered, bounded => by
    refine ⟨bounded.depth, ?_, fun deep => by cases deep⟩
    rintro _ ⟨⟩
    exact ⟨rfl, le_rfl, bounded⟩
  | item :: items, pass, ref, entered, bounded => by
    have first := stringify_answered toNumber nonce item bounded fun empty => by cases empty
    rw [stringifyItems, Script.nestingOf, Script.containersOf]
    generalize pass.stringify toNumber nonce (ref :: entered) item = answer at first
    obtain ⟨deepest, stop | after⟩ := answer
    · refine ⟨first.deepest, fun _ ok => (by cases ok), fun deep => ?_⟩
      obtain ⟨near, past⟩ := first.deep deep
      refine ⟨near.trans (by omega), fun other => ?_⟩
      obtain ⟨further, many⟩ := past other
      exact ⟨by omega, by omega⟩
    · obtain ⟨limit, read, still⟩ := first.going after rfl
      have rest := items_answered toNumber nonce items still
      refine ⟨max_lt first.deepest rest.deepest, fun last ok => ?_, fun deep => ?_⟩
      · obtain ⟨same, more, kept⟩ := rest.going last ok
        exact ⟨same.trans limit, by omega, kept⟩
      · obtain ⟨near, past⟩ := rest.deep deep
        rw [limit] at near past
        refine ⟨by omega, fun other => ?_⟩
        obtain ⟨further, many⟩ := past other
        exact ⟨by omega, by omega⟩

end

theorem start_bounded (functionsCross trackFromStart : Bool) :
    (start functionsCross trackFromStart).Bounded (start functionsCross trackFromStart).Following [] := by
  refine ⟨List.nodup_nil, by decide, fun untracked => ?_, fun tracking => ?_⟩
  · exact ⟨by rw [start, if_neg (by simpa [start] using untracked)], rfl, Nat.zero_le _, le_rfl⟩
  · refine ⟨[], .unvisited tracking rfl rfl rfl, ?_, fun other => ?_⟩
    all_goals simp_all [start]

end FastPass

/-- A pass never has the engine inside of as many containers as it is trusted with. The second pass, which follows its
holders from the start, refuses as too deep only a value that nests as many, and the first one only a value that has more
containers than it takes without following them, and nests more of them than it then has room to follow. -/
theorem fastPass_bounded (toNumber : JSString → F64) (nonce : JSString) (value : Script) (functionsCross : Bool) :
    (∀ trackFromStart, (fastPass toNumber nonce value functionsCross trackFromStart).1 < nativeStringifyDepth) ∧
      ((fastPass toNumber nonce value functionsCross true).2 = .error .deep →
        nativeStringifyDepth ≤ value.nesting []) ∧
      ((fastPass toNumber nonce value functionsCross false).2 = .error .deep →
        nativeStringifyDepth - untrackedContainers < value.nesting [] ∧ untrackedContainers < value.containers) := by
  have answered := fun trackFromStart => FastPass.stringify_answered toNumber nonce value
    (FastPass.start_bounded functionsCross trackFromStart) fun _ => rfl
  refine ⟨fun trackFromStart => (answered trackFromStart).deepest, fun deep => ?_, fun deep => ?_⟩
  · simpa [FastPass.start] using ((answered true).deep deep).1
  · have first : (FastPass.start functionsCross false).limit ≠ nativeStringifyDepth := by
      simp [FastPass.start, nativeStringifyDepth, untrackedContainers]
    simpa [FastPass.start] using ((answered false).deep deep).2 first

/-- A container with 899 empty ones and a chain of 100. -/
def wideThenDeep : Script :=
  .container 0 ((List.range 899).map (fun n => .container (n + 1) []) ++
    [(List.range 99).foldr (fun n inner => .container (n + 1000) [inner]) (.container 2000 [])])

theorem fastPass_wide : wideThenDeep.nesting [] = 101 ∧
    (fastPass (fun _ => .nan) (js "n") wideThenDeep true false).2 = .error .deep := by
  decide +kernel

end Xript
