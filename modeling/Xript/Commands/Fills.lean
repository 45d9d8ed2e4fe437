import Xript.Crossing.Markers
import Xript.Sanitize.Tree

namespace Xript

namespace Commands

/-- The units a command id may go on with. -/
def isIdRest (u : Nat) : Bool := isLower u || isDigit u || u = 46 || u = 45

/-- `COMMAND_ID_PATTERN`. -/
def isCommandId : JSString → Bool
  | [] => false
  | u :: s => isLower u && s.all isIdRest

def text : Json → Option JSString
  | .str s => some s
  | _ => none

/-- The properties of a plain object. -/
def plainObject : Json → Option (Record Json)
  | .obj members => some members
  | _ => none

def closedInputKeys (fill : Record Json) : Option (List JSString) :=
  ((fill.get (js "input")).bind plainObject).bind fun input =>
    match input.get (js "additionalProperties") with
    | some (.bool false) => some (((input.get (js "properties")).bind plainObject).getD []).keys
    | _ => none

def escapePointer (token : JSString) : JSString :=
  token.flatMap fun u => if u = 126 then js "~0" else if u = 47 then js "~1" else [u]

inductive DefectCode where
  | fillCapability
  | missingHandler
  | invalidId
  | duplicateId
  | argsNotObject
  | unboundArg
  | handlerUnknown
  deriving DecidableEq

def DefectCode.name : DefectCode → JSString
  | .fillCapability => js "command-fill-capability"
  | .missingHandler => js "command-missing-handler"
  | .invalidId => js "command-invalid-id"
  | .duplicateId => js "command-duplicate-id"
  | .argsNotObject => js "command-args-not-object"
  | .unboundArg => js "command-unbound-arg"
  | .handlerUnknown => js "command-handler-unknown"

/-- What the checkers say of a defect. Where the runtime reports a path and the validator a pointer, this is what follows
the fill's own. -/
structure Defect where
  code : DefectCode
  index : Nat
  pointer : JSString
  message : JSString
  id : Option JSString
  handler : Option JSString
  arg : Option JSString

/-- The string of a fill's id, and of its handler. -/
def idOf (fill : Record Json) : Option JSString := (fill.get (js "id")).bind text

def handlerOf (fill : Record Json) : Option JSString := (fill.get (js "handler")).bind text

def capabilityDefect (index : Nat) (fill : Record Json) : Defect :=
  let label := ((idOf fill).filter (· ≠ [])).getD (js "#" ++ decimal index)
  let handlerName := ((handlerOf fill).filter (· ≠ [])).getD (js "<handler>")
  { code := .fillCapability
    index
    pointer := js "/capability"
    message := js "command '" ++ label ++
      js "' declares a 'capability'; per-action authority lives on the export it names — move it to entry.exports." ++
      handlerName ++ js ".capability"
    id := idOf fill
    handler := handlerOf fill
    arg := none }

def handlerDefect (index : Nat) (fill : Record Json) : Defect :=
  ⟨.missingHandler, index, js "/handler", js "a command fill must name a 'handler' export", idOf fill, none, none⟩

def idDefect (index : Nat) (handler : JSString) : Defect :=
  ⟨.invalidId, index, js "/id", js "a command fill must carry an 'id' matching ^[a-z][a-z0-9.-]*$", none, handler, none⟩

def duplicateDefect (index : Nat) (slot id handler : JSString) : Defect :=
  ⟨.duplicateId, index, js "/id", js "command id '" ++ id ++ js "' is declared twice in slot '" ++ slot ++ js "'", id, handler,
    none⟩

def argsDefect (index : Nat) (id handler : JSString) : Defect :=
  ⟨.argsNotObject, index, js "/args", js "bound 'args' must be an object of argument values", id, handler, none⟩

def unboundDefect (index : Nat) (id handler key : JSString) : Defect :=
  ⟨.unboundArg, index, js "/args/" ++ escapePointer key,
    js "bound argument '" ++ key ++ js "' is not declared in this command's 'input'", id, handler, key⟩

def unknownDefect (index : Nat) (id handler : JSString) : Defect :=
  ⟨.handlerUnknown, index, js "/handler",
    js "command '" ++ id ++ js "' names handler \"" ++ handler ++ js "\" which is not listed in entry.exports", id, handler, none⟩

/-- Where `args` is there and no plain object. -/
def argsMisshapen (fill : Record Json) : Bool := (fill.get (js "args")).any fun args => (plainObject args).isNone

/-- The bound arguments, where they are a plain object. -/
def boundArgs (fill : Record Json) : Record Json := ((fill.get (js "args")).bind plainObject).getD []

/-- The bound arguments a closed `input` does not declare. -/
def unboundKeys (fill : Record Json) : List JSString :=
  match closedInputKeys fill with
  | none => []
  | some closed => (boundArgs fill).keys.filter (· ∉ closed)

/-- What the validator finds wrong with one fill, and the ids seen once it is through. -/
def fillDefects (slot : JSString) (exportNames : Option (List JSString)) (index : Nat) (seen : List JSString)
    (fill : Record Json) : List Defect × List JSString :=
  if (fill.get (js "capability")).isSome then ([capabilityDefect index fill], seen)
  else match (handlerOf fill).filter (· ≠ []) with
    | none => ([handlerDefect index fill], seen)
    | some handler =>
      match (idOf fill).filter isCommandId with
      | none => ([idDefect index handler], seen)
      | some id =>
        if id ∈ seen then ([duplicateDefect index slot id handler], seen)
        else if argsMisshapen fill then ([argsDefect index id handler], id :: seen)
        else ((unboundKeys fill).map (unboundDefect index id handler) ++
          (if exportNames.any fun names => handler ∉ names then [unknownDefect index id handler] else []), id :: seen)

def defectsFrom (slot : JSString) (exportNames : Option (List JSString)) :
    Nat → List JSString → List (Record Json) → List Defect
  | _, _, [] => []
  | index, seen, fill :: fills =>
    let found := fillDefects slot exportNames index seen fill
    found.1 ++ defectsFrom slot exportNames (index + 1) found.2 fills

/-- The fill-time defects of a slot's fills, all of them JSON objects. -/
def commandDefects (fills : List (Record Json)) (slotId : JSString) (exportNames : Option (List JSString)) : List Defect :=
  defectsFrom slotId exportNames 0 [] fills

structure CommandFill where
  mod : JSString
  slot : JSString
  id : JSString
  title : JSString
  description : Option JSString
  icon : Option JSString
  group : Option JSString
  keywords : List JSString
  handler : JSString
  args : Record Json
  input : Option Json
  output : Option Json
  capability : Option JSString
  capabilities : List JSString
  priority : F64
  exposed : Bool

/-- What a normalization reads beside the fill; of the slot and the mod's exports, the capabilities they declare. -/
structure FillContext where
  mod : JSString
  slot : JSString
  slotCapability : Option JSString
  exportCapabilities : Record JSString

def number : Json → Option F64
  | .num x => some x
  | _ => none

def items : Json → List Json
  | .arr items => items
  | _ => []

def isFalse : Json → Bool
  | .bool b => !b
  | _ => false

def FillContext.normalized (context : FillContext) (fill : Record Json) (id handler : JSString) : CommandFill :=
  let exportCapability := context.exportCapabilities.get handler
  let slotCapability := context.slotCapability.filter (· ≠ [])
  { mod := context.mod
    slot := context.slot
    id
    title := ((fill.get (js "title")).bind text).getD id
    description := (fill.get (js "description")).bind text
    icon := (fill.get (js "icon")).bind text
    group := (fill.get (js "group")).bind text
    keywords := ((fill.get (js "keywords")).map fun keywords => (items keywords).filterMap text).getD []
    handler
    args := boundArgs fill
    input := fill.get (js "input")
    output := fill.get (js "output")
    capability := exportCapability.orElse fun _ => context.slotCapability
    capabilities := slotCapability.toList ++
      ((exportCapability.filter fun capability => capability ≠ [] ∧ some capability ≠ slotCapability).toList)
    priority := ((fill.get (js "priority")).bind number).getD (.ofNat 0)
    exposed := !(fill.get (js "exposed")).any isFalse }

/-- `normalizeCommandFill`: its issues, its result and the ids seen once it is through. -/
def normalizeCommandFill (context : FillContext) (index : Nat) (seen : List JSString) (fill : Record Json) :
    List Defect × Option CommandFill × List JSString :=
  if (fill.get (js "capability")).isSome then ([capabilityDefect index fill], none, seen)
  else match (handlerOf fill).filter (· ≠ []) with
    | none => ([handlerDefect index fill], none, seen)
    | some handler =>
      match (idOf fill).filter isCommandId with
      | none => ([idDefect index handler], none, seen)
      | some id =>
        if id ∈ seen then ([duplicateDefect index context.slot id handler], none, seen)
        else if argsMisshapen fill then ([argsDefect index id handler], none, seen)
        else if unboundKeys fill ≠ [] then ((unboundKeys fill).map (unboundDefect index id handler), none, seen)
        else ([], some (context.normalized fill id handler), id :: seen)

/-- The fills of a slot one after another, over one set of seen ids. -/
def normalizeFrom (context : FillContext) : Nat → List JSString → List (Record Json) → List Defect × List CommandFill
  | _, _, [] => ([], [])
  | index, seen, fill :: fills =>
    let first := normalizeCommandFill context index seen fill
    let rest := normalizeFrom context (index + 1) first.2.2 fills
    (first.1 ++ rest.1, first.2.1.toList ++ rest.2)

def normalizeFills (context : FillContext) (fills : List (Record Json)) : List Defect × List CommandFill :=
  normalizeFrom context 0 [] fills

namespace Rust

def isIdRest (c : Char) : Bool := c.isLower || c.isDigit || c = '.' || c = '-'

def isValidCommandId : List Char → Bool
  | [] => false
  | c :: cs => c.isLower && cs.all isIdRest

structure Defect where
  code : DefectCode
  slot : List Char
  fill : Nat
  id : Option (List Char)
  handler : Option (List Char)
  arg : Option (List Char)

structure CommandFill where
  modName : List Char
  slot : List Char
  qualifiedId : List Char
  id : List Char
  title : List Char
  description : Option (List Char)
  icon : Option (List Char)
  group : Option (List Char)
  keywords : List (List Char)
  handler : List Char
  args : List (List Char × Serde.Value)
  input : Option Serde.Value
  output : Option Serde.Value
  priority : Int64
  exposed : Bool

abbrev Fill := List (List Char × Serde.Value)

def get (fill : Fill) (key : String) : Option Serde.Value := fill.lookup key.toList

def optionalString (fill : Fill) (key : String) : Option (List Char) := (get fill key).bind Serde.Value.asStr

def asBool : Serde.Value → Option Bool
  | .bool b => some b
  | _ => none

def asI64 : Serde.Value → Option Int64
  | .number (.posInt n) => if n.toNat < 2 ^ 63 then some (Int64.ofNat n.toNat) else none
  | .number (.negInt n) => some n
  | _ => none

def isNull : Serde.Value → Bool
  | .null => true
  | _ => false

/-- The arguments, where `args` is absent, null or an object. -/
def readArgs (fill : Fill) : Option (List (List Char × Serde.Value)) :=
  match get fill "args" with
  | none => some []
  | some .null => some []
  | some (.object entries) => some entries
  | some _ => none

/-- `input` or `output`, where it is not null. -/
def present (fill : Fill) (key : String) : Option Serde.Value := (get fill key).filter fun value => !isNull value

/-- The first bound argument a closed input does not declare. -/
def unboundKey (input : Option Serde.Value) (args : List (List Char × Serde.Value)) : Option (List Char) :=
  match input.bind Serde.Value.asObject with
  | none => none
  | some input =>
    if (get input "additionalProperties").bind asBool = some false then
      let declared := (get input "properties").bind Serde.Value.asObject
      (args.map Prod.fst).find? fun key => !(declared.any fun props => (props.lookup key).isSome)
    else none

def normalized (modName slotId : List Char) (fill : Fill) (id handler : List Char)
    (args : List (List Char × Serde.Value)) : CommandFill where
  modName := modName
  slot := slotId
  qualifiedId := modName ++ ':' :: id
  id := id
  title := (optionalString fill "title").getD id
  description := optionalString fill "description"
  icon := optionalString fill "icon"
  group := optionalString fill "group"
  keywords := (((get fill "keywords").bind Serde.Value.asArray).map fun items => items.filterMap Serde.Value.asStr).getD []
  handler := handler
  args := args
  input := present fill "input"
  output := present fill "output"
  priority := ((get fill "priority").bind asI64).getD 0
  exposed := ((get fill "exposed").bind asBool).getD true

/-- One entry of `normalize_command_fills`: its defect, or the fill and its id. -/
def normalizeFill (modName slotId : List Char) (index : Nat) (seen : List (List Char)) (fill : Fill) :
    Except Defect CommandFill :=
  let id := optionalString fill "id"
  let handler := (optionalString fill "handler").filter (· ≠ [])
  let defect := fun code arg => (⟨code, slotId, index, id, handler, arg⟩ : Defect)
  if (get fill "capability").isSome then .error (defect .fillCapability none)
  else match handler with
    | none => .error (defect .missingHandler none)
    | some handlerName =>
      match id.filter isValidCommandId with
      | none => .error (defect .invalidId none)
      | some commandId =>
        if commandId ∈ seen then .error (defect .duplicateId none)
        else match readArgs fill with
          | none => .error (defect .argsNotObject none)
          | some args =>
            match unboundKey (present fill "input") args with
            | some key => .error (defect .unboundArg (some key))
            | none => .ok (normalized modName slotId fill commandId handlerName args)

def normalizeFrom (modName slotId : List Char) : Nat → List (List Char) → List Fill → Except Defect (List CommandFill)
  | _, _, [] => .ok []
  | index, seen, fill :: fills =>
    (normalizeFill modName slotId index seen fill).bind fun made =>
      (normalizeFrom modName slotId (index + 1) (made.id :: seen) fills).map (made :: ·)

/-- `normalize_command_fills`. An entry that is no object is read as an empty one. -/
def normalizeCommandFills (modName slotId : List Char) (entries : List Serde.Value) : Except Defect (List CommandFill) :=
  normalizeFrom modName slotId 0 [] (entries.map fun entry => entry.asObject.getD [])

end Rust

end Commands

end Xript
