import Xript.Sanitize.Profiles
import Xript.Sanitize.Style
import Xript.Sanitize.Tokenizer

namespace Xript

def rawtextElements : List JSString := [
  "script", "style", "title", "textarea", "noscript", "iframe", "xmp", "noembed", "noframes"].map js

/-- The text between a `<style>` and the next `</style>`, tags in between left out. -/
def collectStyleContent : List Token → JSString
  | [] => []
  | .closeTag tag _ :: tokens => if tag = js "style" then [] else collectStyleContent tokens
  | .text value :: tokens => value ++ collectStyleContent tokens
  | _ :: tokens => collectStyleContent tokens

/-- The prop an attribute becomes: an empty value reads as a bare attribute. -/
def attributeProp (attr : Attribute) : JSString × PropValue :=
  (attr.name, if attr.value = [] then .bool true else .str attr.value)

/-- A repeated attribute name resolves to its first occurrence. -/
def addAttribute (props : Props) (attr : Attribute) : Props :=
  if attr.name ∈ props.keys then props else props.set attr.name (attributeProp attr).2

def attributesToProps (attributes : List Attribute) : Props := attributes.foldl addAttribute []

/-- An element that is still open, with the children it has so far. -/
structure Frame where
  name : JSString
  props : Props
  children : List FragmentNode

def Frame.close (frame : Frame) : FragmentNode := .element frame.name frame.props frame.children false

def Frame.push (frame : Frame) (node : FragmentNode) : Frame := { frame with children := frame.children ++ [node] }

/-- The state of the tree builder: the open elements, innermost first and without the root, the root,
and the stripped or raw-text element whose end it is skipping to. -/
structure TreeBuilder where
  stack : List Frame
  root : Frame
  skipUntil : Option (JSString × Bool)

namespace TreeBuilder

def start : TreeBuilder := ⟨[], ⟨js "#root", [], []⟩, none⟩

/-- Appends a child to the innermost open element. -/
def push (b : TreeBuilder) (node : FragmentNode) : TreeBuilder :=
  match b.stack with
  | [] => { b with root := b.root.push node }
  | frame :: stack => { b with stack := frame.push node :: stack }

/-- Closes the innermost open element. -/
def pop (b : TreeBuilder) : TreeBuilder :=
  match b.stack with
  | [] => b
  | frame :: stack => { b with stack := stack }.push frame.close

def popMany : Nat → TreeBuilder → TreeBuilder
  | 0, b => b
  | n + 1, b => popMany n b.pop

/-- Closes the innermost open element of that name and all that it encloses; the root never closes. -/
def closeElement (b : TreeBuilder) (tag : JSString) : TreeBuilder :=
  match b.stack.findIdx? fun frame => toLowerCase frame.name = tag with
  | some depth => b.popMany (depth + 1)
  | none => b

def insideSvg (b : TreeBuilder) : Bool :=
  (b.stack ++ [b.root]).any fun frame => toLowerCase frame.name = js "svg"

/-- Whether a close tag ends an element that encloses the skipped one. -/
def ancestorCloses (b : TreeBuilder) (skipIsRawText : Bool) (tag : JSString) : Bool :=
  !skipIsRawText && (b.stack ++ [b.root]).any fun frame => toLowerCase frame.name = tag

end TreeBuilder

def htmlRulesApply (profile : Option FormatProfile) (rawName : JSString) : Bool :=
  match profile with
  | none => true
  | some profile => speaksHtml profile && !anyVocabularyDeclares profile rawName

/-- Whether the content of an element is skipped: `<style>` and what the vocabulary strips. -/
def isRawText (profile : Option FormatProfile) (b : TreeBuilder) (tag rawTag : JSString) : Bool :=
  htmlRulesApply profile rawTag && (tag = js "style" || tag ∈ strippedElements) &&
    !(tag ∈ svgTextElements && b.insideSvg)

/-- The text child of a `<style>`. -/
def styleChildren (tokens : List Token) : List FragmentNode :=
  let cleaned := sanitizeStyleBlock (collectStyleContent tokens)
  if cleaned = [] then [] else [.text cleaned none]

/-- An open tag, with the tokens after it. -/
def openElement (profile : Option FormatProfile) (b : TreeBuilder) (tag rawTag : JSString)
    (attributes : List Attribute) (selfClosing : Bool) (rest : List Token) : TreeBuilder :=
  let props := attributesToProps attributes
  let hint := selfClosing && tag ∉ voidElements
  let childless := selfClosing || tag ∈ voidElements
  if isRawText profile b tag rawTag then
    let children := if tag = js "style" then styleChildren rest else []
    let b := b.push (.element rawTag props children hint)
    if childless then b else { b with skipUntil := some (tag, tag ∈ rawtextElements) }
  else if childless then b.push (.element rawTag props [] hint)
  else { b with stack := ⟨rawTag, props, []⟩ :: b.stack }

/-- One token of the loop, nothing being skipped. -/
def handleToken (profile : Option FormatProfile) (b : TreeBuilder) (token : Token) (rest : List Token) : TreeBuilder :=
  match token with
  | .text value => b.push (.text value none)
  | .comment _ => b
  | .openTag tag rawTag attributes selfClosing => openElement profile b tag rawTag attributes selfClosing rest
  | .closeTag tag _ => if tag ∈ voidElements then b else b.closeElement tag

/-- One token of the loop, with the tokens after it. -/
def buildToken (profile : Option FormatProfile) (b : TreeBuilder) (token : Token) (rest : List Token) : TreeBuilder :=
  match b.skipUntil with
  | none => handleToken profile b token rest
  | some (skipped, skipIsRawText) =>
    match token with
    | .closeTag tag rawTag =>
      if tag = skipped then { b with skipUntil := none }
      else if b.ancestorCloses skipIsRawText tag then
        handleToken profile { b with skipUntil := none } (.closeTag tag rawTag) rest
      else b
    | _ => b

def buildTree (profile : Option FormatProfile) (b : TreeBuilder) : List Token → TreeBuilder
  | [] => b
  | token :: rest => buildTree profile (buildToken profile b token rest) rest

/-- `htmlToTree`: the elements still open at the end of the input close there. -/
def htmlToTree (input : JSString) (profile : Option FormatProfile) : FragmentTree :=
  let b := buildTree profile .start (tokenize input)
  (b.popMany b.stack.length).root.children

end Xript
