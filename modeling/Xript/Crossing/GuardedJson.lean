import Xript.Crossing.FastPass
import Xript.Sanitize.Tree

namespace Xript

namespace GuardedJson

/-- A value of a serialisation: one of the script's, or a copy that `picked` made, known by its number. -/
inductive Value where
  | given (value : GraphValue)
  | copy (serial : Nat) (members : Record GraphValue)

/-- An object as `===` knows it; the wrapper is the holder of the value that is serialised. -/
inductive Identity where
  | wrapper
  | object (ref : Nat)
  | copy (serial : Nat)
  deriving DecidableEq

/-- A script object as it is read. A boxed one wraps a number, a string, a boolean or a BigInt; `tag` is what
`Object.prototype.toString` makes of it, and `get` reads its properties, the inherited ones too. -/
inductive ObjectInfo where
  | array (tag : JSString) (items : List GraphValue)
  | boxed (tag : JSString) (raw : Primitive) (get : JSString → GraphValue)
  | ordinary (tag : JSString) (keys : List JSString) (get : JSString → GraphValue)

/-- The script's objects, with what the `toJSON` of a value answers under a key, and `String` of an object. -/
structure World where
  info : Nat → ObjectInfo
  toJson : JSString → GraphValue → GraphValue
  text : Nat → JSString

inductive Stop where
  | typeError
  | circular
  | overflow
  | deep
  deriving DecidableEq

/-- What a serialisation did: the most containers it was inside of at once, and the script's objects it met, each with
how many containers it was inside of. -/
structure Trace where
  entered : Nat
  objects : List (Nat × Nat)

def Trace.still (inside : Nat) : Trace := ⟨inside, []⟩

def Trace.join (first rest : Trace) : Trace := ⟨max first.entered rest.entered, first.objects ++ rest.objects⟩

/-- What there is to write of a value. -/
inductive Form where
  | silent
  | leaf (p : Primitive)
  | boxed (ref : Nat) (raw : Primitive)
  | array (ref : Nat) (members : List (JSString × GraphValue))
  | object (identity : Identity) (members : List (JSString × GraphValue))

def Identity.refs : Identity → List Nat
  | .object ref => [ref]
  | _ => []

section

variable (world : World)

/-- The value once its `toJSON` is called, where it is an object or a BigInt. -/
def World.afterToJson (key : JSString) : GraphValue → GraphValue
  | .object ref => world.toJson key (.object ref)
  | .func id => world.toJson key (.func id)
  | .prim (.bigint n) => world.toJson key (.prim (.bigint n))
  | value => value

/-- What is written of a value, of an object its property list where there is one. -/
def World.form (list : Option (List JSString)) : Value → Form
  | .given (.prim .undefined) | .given (.symbol _) | .given (.func _) => .silent
  | .given (.prim p) => .leaf p
  | .given (.object ref) =>
    match world.info ref with
    | .array _ items => .array ref (items.zipIdx.map fun item => (decimal item.2, item.1))
    | .boxed _ raw _ => .boxed ref raw
    | .ordinary _ keys get => .object (.object ref) ((list.getD keys).map fun key => (key, get key))
  | .copy serial members =>
    .object (.copy serial) ((list.getD members.keys).map fun key => (key, (members.get key).getD (.prim .undefined)))

def leaf : Primitive → Except Stop (Option Json)
  | .undefined => .ok none
  | .null => .ok (some .null)
  | .bool b => .ok (some (.bool b))
  | .number x => .ok (some (if x.isFinite then .num x else .null))
  | .bigint _ => .error .typeError
  | .str s => .ok (some (.str s))

variable {σ : Type}

/-- The members of a container that is `inside` deep, one after another. -/
def each (visit : JSString → GraphValue → σ → Trace × Except Stop (Option Json × σ)) (inside : Nat) :
    List (JSString × GraphValue) → σ → Trace × Except Stop (List (JSString × Option Json) × σ)
  | [], st => (.still inside, .ok ([], st))
  | member :: members, st =>
    let first := visit member.1 member.2 st
    match first.2 with
    | .error stop => (first.1, .error stop)
    | .ok (written, st) =>
      let rest := each visit inside members st
      (first.1.join rest.1, rest.2.map fun others => ((member.1, written) :: others.1, others.2))

def arrayOf (written : List (JSString × Option Json)) : Json := .arr (written.map fun member => member.2.getD .null)

def objectOf (written : List (JSString × Option Json)) : Json :=
  .obj (written.filterMap fun member => member.2.map (member.1, ·))

/-- A container's members, one level further inside; `visits` is none where the recursion goes no deeper. -/
def enter (visits : Option (Identity → JSString → GraphValue → σ → Trace × Except Stop (Option Json × σ)))
    (entered : List Identity) (identity : Identity) (members : List (JSString × GraphValue))
    (made : List (JSString × Option Json) → Json) (st : σ) : Trace × Except Stop (Option Json × σ) :=
  let met : Trace := ⟨entered.length, identity.refs.map (·, entered.length)⟩
  if identity ∈ entered then (met, .error .circular)
  else
    match visits with
    | none => (met, .error .deep)
    | some visit =>
      let run := each (visit identity) (entered.length + 1) members st
      (met.join run.1, run.2.map fun written => (some (made written.1), written.2))

def write (visits : Option (Identity → JSString → GraphValue → σ → Trace × Except Stop (Option Json × σ)))
    (entered : List Identity) (st : σ) : Form → Trace × Except Stop (Option Json × σ)
  | .silent => (.still entered.length, .ok (none, st))
  | .leaf p => (.still entered.length, (leaf p).map fun written => (written, st))
  | .boxed ref raw => (⟨entered.length, [(ref, entered.length)]⟩, (leaf raw).map fun written => (written, st))
  | .array ref members => enter visits entered (.object ref) members arrayOf st
  | .object identity members => enter visits entered identity members objectOf st

def visitWith (list : Option (List JSString))
    (replace : σ → Identity → JSString → GraphValue → Except Stop (Value × σ)) (entered : List Identity)
    (visits : Option (Identity → JSString → GraphValue → σ → Trace × Except Stop (Option Json × σ))) (key : JSString)
    (value : GraphValue) (st : σ) : Trace × Except Stop (Option Json × σ) :=
  match replace st (entered.head?.getD .wrapper) key (world.afterToJson key value) with
  | .error stop => (.still entered.length, .error stop)
  | .ok (answer, st) => write visits entered st (world.form list answer)

/-- `SerializeJSONProperty` inside the containers `entered`, innermost first: `replace` is the replacer function, which
keeps a state of its own, and `list` the property list. -/
def property (list : Option (List JSString)) (replace : σ → Identity → JSString → GraphValue → Except Stop (Value × σ)) :
    Nat → List Identity → JSString → GraphValue → σ → Trace × Except Stop (Option Json × σ)
  | 0, entered => visitWith world list replace entered none
  | fuel + 1, entered =>
    visitWith world list replace entered (some fun identity => property list replace fuel (identity :: entered))

end

mutual

/-- The text of what is written, under an indent: `gap` is what `space` comes to. -/
def render (gap indent : JSString) : Json → JSString
  | .arr [] => js "[]"
  | .arr items =>
    if gap = [] then js "[" ++ [44].intercalate (renderItems gap indent items) ++ js "]"
    else
      js "[\n" ++ indent ++ gap ++ (js ",\n" ++ indent ++ gap).intercalate (renderItems gap (indent ++ gap) items) ++
        js "\n" ++ indent ++ js "]"
  | .obj [] => js "\x7b\x7d"
  | .obj members =>
    if gap = [] then js "\x7b" ++ [44].intercalate (renderMembers gap indent members) ++ js "\x7d"
    else
      js "\x7b\n" ++ indent ++ gap ++ (js ",\n" ++ indent ++ gap).intercalate (renderMembers gap (indent ++ gap) members) ++
        js "\n" ++ indent ++ js "\x7d"
  | value => stringifyJson value

def renderItems (gap indent : JSString) : List Json → List JSString
  | [] => []
  | item :: items => render gap indent item :: renderItems gap indent items

def renderMembers (gap indent : JSString) : List (JSString × Json) → List JSString
  | [] => []
  | (key, value) :: members =>
    (jsonString key ++ (if gap = [] then js ":" else js ": ") ++ render gap indent value) :: renderMembers gap indent members

end

/-- The replacer of a call: none, a pure function of the holder, the key and the value, or an array. -/
inductive Replacer where
  | absent
  | function (answer : Identity → JSString → GraphValue → GraphValue)
  | list (items : List GraphValue)

section

variable (world : World)

/-- What a list's item names, where `counts` says of an object that it names what `String` makes of it. -/
def itemKey (counts : ObjectInfo → Bool) : GraphValue → Option JSString
  | .prim (.str s) => some s
  | .prim (.number x) => some x.toText
  | .object ref => if counts (world.info ref) then some (world.text ref) else none
  | _ => none

/-- The first of each, but for those of `seen`. -/
def firsts (seen : List JSString) : List JSString → List JSString
  | [] => []
  | key :: keys => if key ∈ seen then firsts seen keys else key :: firsts (key :: seen) keys

/-- The engine counts the objects that wrap a number or a string. -/
def wrapsKey : ObjectInfo → Bool
  | .boxed _ (.number _) _ | .boxed _ (.str _) _ => true
  | _ => false

def nativeKeys (items : List GraphValue) : List JSString := firsts [] (items.filterMap (itemKey world wrapsKey))

def Replacer.list? : Replacer → Option (List JSString)
  | .list items => some (nativeKeys world items)
  | _ => none

def Replacer.answer : Replacer → Identity → JSString → GraphValue → GraphValue
  | .function answer => answer
  | _ => fun _ _ value => value

/-- The engine's own `JSON.stringify`, as far as what it writes. -/
def native (replacer : Replacer) (fuel : Nat) (value : GraphValue) : Trace × Except Stop (Option Json × Unit) :=
  property world (replacer.list? world) (fun _ holder key item => .ok (.given (replacer.answer holder key item), ()))
    fuel [] [] value ()

def tagOf : ObjectInfo → JSString
  | .array tag _ | .boxed tag _ _ | .ordinary tag _ _ => tag

/-- The guard counts the objects with the tag of a string or a number. -/
def taggedKey (info : ObjectInfo) : Bool := tagOf info = js "[object String]" || tagOf info = js "[object Number]"

def propertyList (items : List GraphValue) : List JSString := firsts [] (items.filterMap (itemKey world taggedKey))

def picked (get : JSString → GraphValue) (keys : List JSString) : Record GraphValue :=
  keys.foldl (fun copy key => copy.set key (get key)) []

def isPlainTag (tag : JSString) : Bool :=
  tag ∉ ["[object String]", "[object Number]", "[object Boolean]", "[object BigInt]"].map js

/-- How a plain container reads its properties; none of an array or of what is tagged as a boxed primitive. -/
def plainContainer : ObjectInfo → Option (JSString → GraphValue)
  | .array _ _ => none
  | .boxed tag _ get | .ordinary tag _ get => if isPlainTag tag then some get else none

/-- What `stringify` keeps, its stack innermost first, with the number of the next copy. -/
structure Guard where
  stack : List Identity
  top : Option Identity
  opened : Option Identity
  serial : Nat

def Guard.follow (st : Guard) (holder : Identity) : Guard :=
  if st.top = some holder then st
  else if st.opened = some holder then { st with top := some holder, stack := holder :: st.stack }
  else { st with top := some holder, stack := st.stack.dropWhile (· ≠ holder) }

/-- An object on its way in, as itself or as the copy of what the list picks. -/
def Guard.receive (st : Guard) (keys : Option (List JSString)) (ref : Nat) : Except Stop (Value × Guard) :=
  if nativeStringifyDepth ≤ st.stack.length then .error .overflow
  else
    match keys, plainContainer (world.info ref) with
    | some keys, some get =>
      .ok (.copy st.serial (picked get keys), { st with opened := some (.copy st.serial), serial := st.serial + 1 })
    | _, _ => .ok (.given (.object ref), { st with opened := some (.object ref) })

/-- `guard`, the replacer function given to the engine. -/
def guard (user : Identity → JSString → GraphValue → GraphValue) (keys : Option (List JSString)) (st : Guard)
    (holder : Identity) (key : JSString) (item : GraphValue) : Except Stop (Value × Guard) :=
  match user holder key item with
  | .object ref => (st.follow holder).receive world keys ref
  | item => .ok (.given item, st.follow holder)

def Replacer.keys? : Replacer → Option (List JSString)
  | .list items => some (propertyList world items)
  | _ => none

/-- The guarded `JSON.stringify`. -/
def guarded (replacer : Replacer) (fuel : Nat) (value : GraphValue) : Trace × Except Stop (Option Json × Guard) :=
  property world none (guard world replacer.answer (replacer.keys? world)) fuel [] [] value ⟨[], none, none, 0⟩

/-- What a call returns, or how it stops. -/
def returned {σ : Type} (gap : JSString) (run : Trace × Except Stop (Option Json × σ)) : Except Stop (Option JSString) :=
  run.2.map fun made => made.1.map (render gap [])

end

end GuardedJson

end Xript
