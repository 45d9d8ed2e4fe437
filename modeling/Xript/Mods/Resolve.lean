import Xript.Number.Compare
import Xript.Order.Stable
import Xript.Sanitize.Profiles

namespace Xript

/-- What the resolvers read of a slot the host declares; `multiple` is `slot.multiple === true`. -/
structure SlotDeclaration where
  id : JSString
  multiple : Bool

/-- What the resolvers read of a loaded fragment: its `priority` is whatever its fill says, `0` where it says none. -/
structure FragmentInstance where
  id : JSString
  slot : JSString
  format : JSString
  priority : Json

/-- A command a mod contributes: its priority is a number of its fill, `0` where that says none. -/
structure CommandFill where
  mod : JSString
  slot : JSString
  id : JSString
  title : JSString
  description : Option JSString
  icon : Option JSString
  group : Option JSString
  keywords : List JSString
  handler : JSString
  args : Record Json
  input : Option Json
  output : Option Json
  capability : Option JSString
  capabilities : List JSString
  priority : F64
  exposed : Bool
  numeric : priority.isNaN = false

structure ResolvedCommand extends CommandFill where
  qualifiedId : JSString
  collides : Bool

structure ProviderRole where
  role : JSString
  fns : Record Json

/-- A loaded mod; each of its command fills is stamped with its name. -/
structure ModInstance where
  name : JSString
  fragments : List FragmentInstance
  provides : List ProviderRole
  commandFills : List CommandFill
  stamped : ∀ fill ∈ commandFills, fill.mod = name

structure SlotContribution where
  modName : JSString
  fragmentId : JSString
  slot : JSString
  format : JSString
  priority : Json

structure RoleResolution where
  addon : JSString
  role : JSString
  fns : Record Json

/-- `a === b`, of two values of different manifests. -/
def strictlyEqual : Json → Json → Bool
  | .null, .null => true
  | .bool a, .bool b => a = b
  | .num x, .num y => F64.eq x y
  | .str s, .str t => s = t
  | _, _ => false

/-- The order of two names. -/
def compareNames (a b : JSString) : Ordering := if a < b then .lt else if b < a then .gt else .eq

/-- The shared three-key order: priority descending, then fill id, then owning mod name. -/
def threeKeyOrder (differ : Bool) (difference : F64) (idA idB modA modB : JSString) : Option Ordering :=
  if differ then difference.sign
  else if idA ≠ idB then some (if idA < idB then .lt else .gt)
  else some (compareNames modA modB)

section

variable (toNumber : Json → F64)

def compareContributions (a b : SlotContribution) : Option Ordering :=
  threeKeyOrder (!strictlyEqual b.priority a.priority) (F64.sub (toNumber b.priority) (toNumber a.priority))
    a.fragmentId b.fragmentId a.modName b.modName

variable {toNumber}

def contributionsTo (slotId : JSString) (mod : ModInstance) : List SlotContribution :=
  (mod.fragments.filter fun fragment => fragment.slot = slotId).map fun fragment =>
    ⟨mod.name, fragment.id, fragment.slot, fragment.format, fragment.priority⟩

/-- Whether the host lets a slot take several fills. -/
def allowsMultiple (slots : List SlotDeclaration) (slotId : JSString) : Bool :=
  (slots.find? fun slot => slot.id = slotId).any SlotDeclaration.multiple

def resolveSlotContributions (order : StableSort (compareContributions toNumber)) (slotId : JSString)
    (mods : List ModInstance) (slots : List SlotDeclaration) : List SlotContribution :=
  let ordered := order.sort (mods.flatMap (contributionsTo slotId))
  if allowsMultiple slots slotId then ordered else ordered.take 1

end

def compareCommands (a b : ResolvedCommand) : Option Ordering :=
  threeKeyOrder (!F64.eq b.priority a.priority) (F64.sub b.priority a.priority) a.id b.id a.mod b.mod

def commandsOf (slotId : JSString) (mod : ModInstance) : List ResolvedCommand :=
  (mod.commandFills.filter fun fill => fill.slot = slotId).map fun fill =>
    { fill with qualifiedId := fill.mod ++ 58 :: fill.id, collides := false }

/-- Marks the commands that share their id with another. -/
def markCollisions (commands : List ResolvedCommand) : List ResolvedCommand :=
  commands.map fun command =>
    { command with collides := 1 < commands.countP fun other => other.id = command.id }

section

variable (order : StableSort compareCommands)

def resolveCommandsAll (slotId : JSString) (mods : List ModInstance) : List ResolvedCommand :=
  markCollisions (order.sort (mods.flatMap (commandsOf slotId)))

def resolveCommands (slotId : JSString) (mods : List ModInstance) (slots : List SlotDeclaration) : List ResolvedCommand :=
  let ordered := resolveCommandsAll order slotId mods
  if allowsMultiple slots slotId then ordered else ordered.take 1

/-- `preferences?.[key]`: a name, or something inherited that is no name. -/
def preferenceOf (preferences : Option (Record JSString)) (key : JSString) : Option (Option JSString) :=
  preferences.bind fun names =>
    match Record.get names key with
    | some name => some (some name)
    | none => if key ∈ objectPrototypeNames then some none else none

/-- The preferred candidate if there is one, or the first. -/
def preferCandidate {α : Type} (modOf : α → JSString) (preferred : Option (Option JSString)) (candidates : List α) :
    Option α :=
  let chosen := preferred.join.bind fun name =>
    if name = [] then none else candidates.find? fun candidate => modOf candidate = name
  chosen.or candidates.head?

def resolveCommand (ref : JSString) (mods : List ModInstance) (slots : List SlotDeclaration)
    (preferences : Option (Record JSString)) : Option ResolvedCommand :=
  let available := (slots.filter fun slot => mods.any fun mod => mod.commandFills.any fun fill => fill.slot = slot.id).flatMap
    fun slot => resolveCommands order slot.id mods slots
  let separator := ref.idxOf 58
  if 0 < separator ∧ separator < ref.length then
    available.find? fun command => command.mod = ref.take separator ∧ command.id = ref.drop (separator + 1)
  else
    let candidates := available.filter fun command => command.id = ref
    let preferred := (preferenceOf preferences ref).or
      (candidates.head?.bind fun first => preferenceOf preferences first.slot)
    preferCandidate (fun command => command.mod) preferred candidates

end

def compareRoles (a b : RoleResolution) : Option Ordering := some (compareNames a.addon b.addon)

def rolesOf (role : JSString) (mod : ModInstance) : List RoleResolution :=
  (mod.provides.filter fun entry => entry.role = role).map fun entry => ⟨mod.name, entry.role, entry.fns⟩

section

variable (order : StableSort compareRoles)

def resolveRoleAll (role : JSString) (mods : List ModInstance) : List RoleResolution :=
  order.sort (mods.flatMap (rolesOf role))

def resolveRole (role : JSString) (mods : List ModInstance) (preferences : Option (Record JSString)) :
    Option RoleResolution :=
  preferCandidate RoleResolution.addon (preferenceOf preferences role) (resolveRoleAll order role mods)

end

end Xript
