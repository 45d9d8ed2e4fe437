import Xript.Text.CodeUnit
import Xript.Text.Regex

namespace Xript

namespace CommonJs

/-- JavaScript's `\w`. -/
def isWord (u : Nat) : Bool := isLetter u || isDigit u || u = 95

def isNameStart (u : Nat) : Bool := isLetter u || u = 95 || u = 36

def isNameRest (u : Nat) : Bool := isWord u || u = 36

def requireCallPattern : Re Nat :=
  .seq (.boundary isWord) (.seq (.literal (js "require")) (.seq (.many isSpace) (.literal (js "("))))

def moduleExportsPattern : Re Nat :=
  .seq (.boundary isWord) (.seq (.literal (js "module.exports")) (.boundary isWord))

def exportsAssignPattern : Re Nat :=
  .seq (.boundary isWord) (.seq (.literal (js "exports")) (.seq (.many isSpace)
    (.seq (.alt (.seq (.literal (js ".")) (.seq (.unit isNameStart) (.many isNameRest))) (.literal (js "[")))
      (.seq (.many isSpace) (.literal (js "="))))))

inductive Artifact where
  | requireCall
  | moduleExports
  | exportsMember
  deriving DecidableEq

def Artifact.text : Artifact → JSString
  | .requireCall => js "require()"
  | .moduleExports => js "module.exports"
  | .exportsMember => js "exports.x"

/-- The JavaScript runtime's `detectCommonJS`. -/
def detectCommonJS (source : JSString) : Option Artifact :=
  if requireCallPattern.test source then some .requireCall
  else if moduleExportsPattern.test source then some .moduleExports
  else if exportsAssignPattern.test source then some .exportsMember
  else none

namespace Validate

def moduleExportsPattern : Re Nat :=
  .seq (.boundary isWord) (.seq (.literal (js "module")) (.seq (.many isSpace) (.seq (.literal (js "."))
    (.seq (.many isSpace) (.seq (.literal (js "exports")) (.boundary isWord))))))

def exportsAssignPattern : Re Nat :=
  .seq (.boundary isWord) (.seq (.literal (js "exports")) (.seq (.many isSpace) (.seq (.literal (js "."))
    (.seq (.many isSpace) (.seq (.unit isNameStart) (.seq (.many isNameRest)
      (.seq (.many isSpace) (.literal (js "=")))))))))

def exportsIndexPattern : Re Nat :=
  .seq (.boundary isWord) (.seq (.literal (js "exports")) (.seq (.many isSpace) (.literal (js "["))))

/-- The validator's `detectCommonJs`. -/
def detectCommonJs (source : JSString) : Option Artifact :=
  if requireCallPattern.test source then some .requireCall
  else if moduleExportsPattern.test source then some .moduleExports
  else if exportsAssignPattern.test source || exportsIndexPattern.test source then some .exportsMember
  else none

end Validate

namespace Rust

/-- The UTF-8 bytes of a character. -/
def bytesOf (c : Nat) : List Nat :=
  if c < 0x80 then [c]
  else if c < 0x800 then [0xC0 + c / 0x40, 0x80 + c % 0x40]
  else if c < 0x10000 then [0xE0 + c / 0x1000, 0x80 + c / 0x40 % 0x40, 0x80 + c % 0x40]
  else [0xF0 + c / 0x40000, 0x80 + c / 0x1000 % 0x40, 0x80 + c / 0x40 % 0x40, 0x80 + c % 0x40]

def asBytes (s : List Char) : List Nat := s.flatMap fun c => bytesOf c.toNat

def isIdentChar (b : Nat) : Bool := isLetter b || isDigit b || b = 95 || b = 36

/-- What `strip_strings_and_comments` is in the middle of. -/
inductive Blanking where
  | code
  | line
  | opening
  | block
  | closing
  | quoted (quote : Nat)
  | escaped (quote : Nat)

def blank (b : Nat) : Char := if b = 10 then '\n' else ' '

def stripFrom : Blanking → List Nat → List Char
  | _, [] => []
  | .code, b :: rest =>
    if b = 47 ∧ rest.head? = some 47 then ' ' :: stripFrom .line rest
    else if b = 47 ∧ rest.head? = some 42 then ' ' :: stripFrom .opening rest
    else if b = 34 ∨ b = 39 ∨ b = 96 then ' ' :: stripFrom (.quoted b) rest
    else Char.ofNat b :: stripFrom .code rest
  | .line, b :: rest => if b = 10 then '\n' :: stripFrom .code rest else ' ' :: stripFrom .line rest
  | .opening, _ :: rest => ' ' :: stripFrom .block rest
  | .block, b :: rest =>
    if b = 42 ∧ rest.head? = some 47 then ' ' :: stripFrom .closing rest else blank b :: stripFrom .block rest
  | .closing, _ :: rest => ' ' :: stripFrom .code rest
  | .quoted quote, b :: rest =>
    if b = quote then ' ' :: stripFrom .code rest
    else if b = 92 ∧ rest ≠ [] then ' ' :: stripFrom (.escaped quote) rest
    else blank b :: stripFrom (.quoted quote) rest
  | .escaped quote, _ :: rest => ' ' :: stripFrom (.quoted quote) rest

/-- `strip_strings_and_comments`; a byte outside ASCII becomes the character of its number. -/
def stripStringsAndComments (source : List Char) : List Char := stripFrom .code (asBytes source)

/-- The `find` loop of the two scanners: whether an occurrence of `word`, none overlapping the one before, is `ok` between
the byte before it and the bytes after it. -/
def findFrom (word : List Nat) (ok : Option Nat → List Nat → Bool) : Nat → Option Nat → List Nat → Bool
  | _, _, [] => false
  | skip + 1, _, b :: rest => findFrom word ok skip (some b) rest
  | 0, last, b :: rest =>
    if word <+: b :: rest then
      ok last ((b :: rest).drop word.length) || findFrom word ok (word.length - 1) (some b) rest
    else findFrom word ok 0 (some b) rest

def isBlank (b : Nat) : Bool := b = 32 || b = 9

def containsRequireCall (bytes : List Nat) : Bool :=
  findFrom (js "require") (fun last after => !last.any isIdentChar && (after.dropWhile isBlank).head? = some 40) 0 none bytes

def isGap (b : Nat) : Bool := b = 32 || b = 9 || b = 10 || b = 13

def assignmentFollows (bytes : List Nat) : Bool :=
  match bytes.dropWhile isGap with
  | 61 :: rest => rest.head? ≠ some 61
  | _ => false

/-- The bytes past the bracket that closes the `depth` ones that stand open. -/
def afterIndex : Nat → List Nat → List Nat
  | 0, bytes => bytes
  | _ + 1, [] => []
  | depth + 1, b :: rest =>
    if b = 91 then afterIndex (depth + 2) rest
    else if b = 93 then afterIndex depth rest
    else afterIndex (depth + 1) rest

def exportsMemberIsAssigned : List Nat → Bool
  | 46 :: rest => assignmentFollows (rest.dropWhile isIdentChar)
  | 91 :: rest => assignmentFollows (afterIndex 1 rest)
  | _ => false

def containsExportsAssignment (bytes : List Nat) : Bool :=
  findFrom (js "exports") (fun last after => !last.any (fun b => b = 46 || isIdentChar b) && exportsMemberIsAssigned after)
    0 none bytes

/-- The bytes `detect_commonjs` scans. -/
def scanned (source : List Char) : List Nat := asBytes (stripStringsAndComments source)

/-- `detect_commonjs`. -/
def detectCommonjs (source : List Char) : Option Artifact :=
  if containsRequireCall (scanned source) then some .requireCall
  else if js "module.exports" <:+: scanned source then some .moduleExports
  else if containsExportsAssignment (scanned source) then some .exportsMember
  else none

end Rust

end CommonJs

end Xript
