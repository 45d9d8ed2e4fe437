import Xript.Text.Case
import Xript.Text.Scan

namespace Xript

def allowedElements : List JSString := [
  "div", "span", "p", "h1", "h2", "h3", "h4", "h5", "h6", "ul", "ol", "li", "dl", "dt", "dd",
  "table", "thead", "tbody", "tfoot", "tr", "td", "th", "caption", "col", "colgroup",
  "figure", "figcaption", "blockquote", "pre", "code",
  "em", "strong", "b", "i", "u", "s", "small", "sub", "sup", "br", "hr",
  "img", "picture", "source", "audio", "video", "track", "details", "summary", "dialog",
  "canvas", "kbd", "slot", "section", "article", "aside", "nav", "header", "footer", "main",
  "a", "abbr", "mark", "time", "wbr", "style",
  "input", "textarea", "select", "option", "label",
  "button", "progress", "meter", "output", "fieldset", "legend",
  "svg", "g", "defs", "symbol", "use",
  "circle", "ellipse", "path", "rect", "line", "polygon", "polyline", "text", "tspan"].map js

def strippedElements : List JSString := [
  "script", "iframe", "object", "embed", "form", "base", "link", "meta", "title",
  "noscript", "applet", "frame", "frameset", "param", "foreignobject", "animate", "set"].map js

def svgTextElements : List JSString := ["title", "desc"].map js

def svgTextAttributes : List JSString := ["id", "class", "lang", "dir"].map js

def unwrappedElements : List JSString := ["html", "head", "body"].map js

def voidElements : List JSString := [
  "area", "base", "br", "col", "embed", "hr", "img", "input",
  "link", "meta", "param", "source", "track", "wbr"].map js

def allowedAttributes : List JSString := [
  "class", "id", "style", "role", "tabindex", "hidden", "src", "alt", "width", "height",
  "href", "target", "rel", "colspan", "rowspan", "scope", "headers", "lang", "dir", "title",
  "part", "slot", "spellcheck", "inputmode", "autocomplete",
  "abbr", "align", "label", "loading", "decoding", "popover", "popovertarget",
  "type", "value", "placeholder", "name", "for", "checked", "disabled", "readonly", "required",
  "rows", "cols", "maxlength", "minlength", "min", "max", "step", "pattern",
  "open", "low", "high", "optimum",
  "cx", "cy", "r", "x", "y", "x1", "y1", "x2", "y2", "points", "d",
  "fill", "stroke", "stroke-width", "opacity", "transform",
  "rx", "ry", "dy", "dx", "focusable", "shape-rendering", "text-anchor",
  "stroke-linecap", "stroke-linejoin", "vector-effect",
  "viewbox", "preserveaspectratio", "xmlns"].map js

def prohibitedUriSchemes : List JSString := ["javascript", "vbscript"].map js

def defaultUriSchemes : List JSString := ["http", "https", "mailto", "data"].map js

/-- The characters `[A-Za-z0-9_.:-]` of a tag name and of an attribute name after its first. -/
def isNameUnit (u : Nat) : Bool :=
  isLetter u || isDigit u || u == 95 || u == 46 || u == 58 || u == 45

/-- `ATTRIBUTE_NAME_PATTERN`: a letter, then name characters. -/
def isValidAttributeName : JSString → Bool
  | [] => false
  | c :: s => isLetter c && s.all isNameUnit

def isAllowedAttribute (name : JSString) : Bool :=
  if js "data-" <+: name then true
  else if js "aria-" <+: name then true
  else if js "on" <+: name then false
  else name ∈ allowedAttributes

/-- A character of a URL scheme after its first, `[a-z0-9+.-]`. -/
def isSchemeUnit (u : Nat) : Bool := isLower u || isDigit u || u == 43 || u == 46 || u == 45

/-- `URI_SCHEME_PATTERN`: the leading scheme, whitespace tolerated before its colon. -/
def uriScheme : JSString → Option JSString
  | [] => none
  | c :: s =>
    if isLower c then
      match (s.dropWhile isSchemeUnit).dropWhile isSpace with
      | 58 :: _ => some (c :: s.takeWhile isSchemeUnit)
      | _ => none
    else none

/-- The rest of `s` after `word`, letter case ignored; `word` is in lower case. A non-ASCII
character never matches an ASCII letter of a pattern that has no `u` flag. -/
def stripWord : JSString → JSString → Option JSString
  | [], s => some s
  | _ :: _, [] => none
  | w :: word, c :: s => if asciiLower c = w then stripWord word s else none

/-- `SAFE_DATA_IMAGE_PATTERN`. -/
def isSafeDataImage (s : JSString) : Bool :=
  match stripWord (js "data:image/") s with
  | none => false
  | some t => (["png", "jpeg", "gif", "svg+xml"].map js).any fun kind =>
      match stripWord kind t with
      | some (c :: _) => c == 59 || c == 44
      | _ => false

/-- The URL normalisation of `sanitizeUri`: tab, LF and CR removed from anywhere, then C0 controls
and spaces trimmed from both ends. -/
def normalizeUri (value : JSString) : JSString :=
  ((value.filter fun u => !(u == 9 || u == 10 || u == 13)).dropWhile (· ≤ 0x20)).rdropWhile (· ≤ 0x20)

def sanitizeUri (value attrName : JSString) (schemes : List JSString) : Option JSString :=
  let trimmed := normalizeUri value
  let lowered := toLowerCase trimmed
  match uriScheme lowered with
  | none => some trimmed
  | some scheme =>
    if scheme ∈ prohibitedUriSchemes then none
    else if scheme ∉ schemes then none
    else if scheme = js "data" then
      if attrName = js "src" ∧ isSafeDataImage lowered then some trimmed else none
    else some trimmed

/-- A call pattern `word\s*\([^)]*\)`, letter case ignored. -/
def matchCall (word s : JSString) : Option JSString :=
  match stripWord word s with
  | none => none
  | some t =>
    match t.dropWhile isSpace with
    | 40 :: u =>
      match u.dropWhile (· ≠ 41) with
      | _ :: rest => some rest
      | [] => none
    | _ => none

def isDeclarationEnd (u : Nat) : Bool := u == 59 || u == 125 || u == 34 || u == 39

/-- A declaration pattern `word\s*:[^;}"']*`, letter case ignored. -/
def matchDeclaration (word s : JSString) : Option JSString :=
  match stripWord word s with
  | none => none
  | some t =>
    match t.dropWhile isSpace with
    | 58 :: u => some (u.dropWhile fun c => !isDeclarationEnd c)
    | _ => none

def caseSensitiveAttributes : List (JSString × JSString) :=
  [(js "viewbox", js "viewBox"), (js "preserveaspectratio", js "preserveAspectRatio")]

def canonicalAttributeName (lowerName : JSString) : JSString :=
  (caseSensitiveAttributes.lookup lowerName).getD lowerName

end Xript
