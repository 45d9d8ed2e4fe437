import Xript.Sanitize.Tree

namespace Xript

/-- What the bus throws: a `BindingError` or a `CapabilityDeniedError`. -/
inductive BusError where
  | binding (binding message : JSString)
  | capability (binding capability : JSString)
  deriving DecidableEq, Repr

inductive EventEmitter where
  | host
  | mods
  deriving DecidableEq, Repr

/-- An entry of the catalogue, of the manifest or declared at runtime. -/
structure EventEntry where
  id : JSString
  description : JSString
  payload : Option Json
  capability : Option JSString
  emit : Option EventEmitter
  pattern : Option Bool
  addressed : Option (List JSString)
  keys : Option (List JSString)

inductive EntrySource where
  | manifest
  | runtime
  deriving DecidableEq, Repr

structure CatalogueRecord where
  entry : EventEntry
  source : EntrySource
  party : Option JSString

/-- The parts of an id between its dots; there is always one. -/
def splitDots : JSString → List JSString
  | [] => [[]]
  | u :: text =>
    if u = 46 then [] :: splitDots text
    else
      match splitDots text with
      | part :: parts => (u :: part) :: parts
      | [] => [[u]]

def isVariableSegment (segment : JSString) : Bool :=
  2 < segment.length && segment.head? = some 60 && segment.getLast? = some 62

def isConcrete (id : JSString) : Bool := !(splitDots id).any isVariableSegment

/-- `/^<[A-Za-z_][A-Za-z0-9_]*>$/`. -/
def isNamedSegment (segment : JSString) : Bool :=
  match segment with
  | 60 :: first :: rest =>
    (isLetter first || first = 95) && rest.getLast? = some 62 &&
      rest.dropLast.all fun u => isLetter u || isDigit u || u = 95
  | _ => false

/-- `/^[a-z][a-z0-9.-]*$/`. -/
def isEventId (id : JSString) : Bool :=
  match id with
  | first :: rest => isLower first && rest.all fun u => isLower u || isDigit u || u = 46 || u = 45
  | [] => false

def isShape (id : JSString) : Bool :=
  isEventId ([46].intercalate ((splitDots id).map fun segment => if isNamedSegment segment then js "x" else segment))

def segmentMatches (want got : JSString) : Bool :=
  if isVariableSegment want then got ≠ [] else want = got

def shapeMatches (shape id : JSString) : Bool :=
  (splitDots shape).length = (splitDots id).length &&
    ((splitDots shape).zip (splitDots id)).all fun pair => segmentMatches pair.1 pair.2

/-- Whether an entry claims an id by its pattern or by an addressed form. -/
def claimsShape (entry : EventEntry) (id : JSString) : Bool :=
  (entry.pattern = some true && shapeMatches entry.id id) ||
    (entry.addressed.getD []).any fun shape => shapeMatches shape id

/-- The record an id resolves to: exact ids over the whole catalogue first, then shapes in order. -/
def resolveEvent (catalogue : List CatalogueRecord) (id : JSString) : Option CatalogueRecord :=
  (catalogue.find? fun record => record.entry.id = id) <|>
    (catalogue.find? fun record => claimsShape record.entry id)

def entryFields : List JSString :=
  ["id", "description", "payload", "capability", "emit", "pattern", "addressed", "keys"].map js

/-- An optional list of strings; `check` is the further test of each of its items. -/
def readStrings (binding field : JSString) (check : JSString → Except BusError Unit) :
    Option Json → Except BusError (Option (List JSString))
  | none => .ok none
  | some (.arr items) => (readItems items).map some
  | some _ => .error (.binding binding (js "'" ++ field ++ js "' must be an array of strings"))
where
  readItems : List Json → Except BusError (List JSString)
    | [] => .ok []
    | .str item :: items => do
      check item
      return item :: (← readItems items)
    | _ :: _ => .error (.binding binding (js "'" ++ field ++ js "' must be an array of strings"))

/-- The entry a mod or the host passes to `declare`, checked and read. -/
def validateEntry (binding : JSString) (entry : Json) : Except BusError EventEntry := do
  let refuse := fun {α : Type} (message : JSString) => (.error (.binding binding message) : Except BusError α)
  let fields ← match entry with
    | .obj fields => .ok fields
    | _ => refuse (js "expected an event entry object")
  match (Record.keys fields).find? fun field => field ∉ entryFields with
  | some field => refuse (js "unknown field '" ++ field ++ js "' in the event entry")
  | none => pure ()
  let id ← match Record.get fields (js "id") with
    | some (.str id) => if isShape id then .ok id else refuse idMessage
    | _ => refuse idMessage
  let description ← match Record.get fields (js "description") with
    | some (.str text) => if text = [] then refuse (js "'description' must be a non-empty string") else .ok text
    | _ => refuse (js "'description' must be a non-empty string")
  let emit ← match Record.get fields (js "emit") with
    | none => .ok none
    | some (.str text) =>
      if text = js "host" then .ok (some EventEmitter.host)
      else if text = js "mods" then .ok (some EventEmitter.mods)
      else refuse (js "'emit' must be \"host\" or \"mods\"")
    | some _ => refuse (js "'emit' must be \"host\" or \"mods\"")
  let pattern ← match Record.get fields (js "pattern") with
    | none => .ok none
    | some (.bool pattern) => .ok (some pattern)
    | some _ => refuse (js "'pattern' must be a boolean")
  if pattern = some true ∧ isConcrete id then refuse (js "a pattern id needs at least one <segment>")
  else if pattern ≠ some true ∧ !isConcrete id then
    refuse (js "an id with a <segment> must declare \"pattern\": true")
  else pure ()
  let capability ← match Record.get fields (js "capability") with
    | none => .ok none
    | some (.str capability) => .ok (some capability)
    | some _ => refuse (js "'capability' must be a string")
  let addressed ← readStrings binding (js "addressed")
    (fun shape => if isShape shape then .ok ()
      else refuse (js "addressed form '" ++ shape ++ js "' is not an event id shape"))
    (Record.get fields (js "addressed"))
  let keys ← readStrings binding (js "keys") (fun _ => .ok ()) (Record.get fields (js "keys"))
  return ⟨id, description, Record.get fields (js "payload"), capability, emit, pattern, addressed, keys⟩
where
  idMessage : JSString := js ("'id' must be an event id (lowercase letters, digits, '.' and '-', starting with a letter); " ++
    "a pattern id may also write a whole '.' segment as <name>")

/-- The closure `declare` commits: the first record with that id decides. -/
def declareIn (binding : JSString) (entry : EventEntry) (party : JSString) :
    List CatalogueRecord → Except BusError (List CatalogueRecord)
  | [] => .ok [⟨entry, .runtime, some party⟩]
  | existing :: catalogue =>
    if existing.entry.id ≠ entry.id then (declareIn binding entry party catalogue).map (existing :: ·)
    else if existing.source = .manifest then
      .error (.binding binding (js "event '" ++ entry.id ++ js "' is already declared by the host manifest"))
    else if existing.party ≠ some party then
      .error (.binding binding (js "event '" ++ entry.id ++ js "' is already declared by another owner"))
    else .ok ({ existing with entry := entry } :: catalogue)

def declare (binding : JSString) (entry : Json) (party : JSString) (catalogue : List CatalogueRecord) :
    Except BusError (List CatalogueRecord) := do
  declareIn binding (← validateEntry binding entry) party catalogue

/-- The party a mod's declaration is filed under; code that no mod owns has no caller. -/
def modParty (caller : Option JSString) : JSString := js "mod:" ++ caller.getD (js "null")

/-- `events.declare` of a mod. -/
def modDeclare (satisfies : JSString → Bool) (caller : Option JSString) (entry : Json)
    (catalogue : List CatalogueRecord) : Except BusError (List CatalogueRecord) :=
  if satisfies (js "events.declare") then declare (js "events.declare") entry (modParty caller) catalogue
  else .error (.capability (js "events.declare") (js "events.declare"))

/-- `declareEvent` of the host. -/
def hostDeclare (entry : Json) (catalogue : List CatalogueRecord) : Except BusError (List CatalogueRecord) :=
  declare (js "declareEvent") entry (js "host") catalogue

/-- The catalogue a manifest seeds. -/
def seedCatalogue (events : List EventEntry) : List CatalogueRecord := events.map fun entry => ⟨entry, .manifest, none⟩

end Xript
