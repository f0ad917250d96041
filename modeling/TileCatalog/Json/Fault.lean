import TileCatalog.Decimal.Shortest
import TileCatalog.Text.Quoted

/-!
# What can be wrong with a document

A `Cause` says what was found, a `Fault` also how many bytes of the text were still ahead, and a
`ParseError` gives the place as line and column. Columns count bytes.
-/

namespace TileCatalog.Json

/-- A scalar or bracket met where something else was due. -/
inductive Found where
  | null
  | boolean (value : Bool)
  | integer (value : Int)
  | real (negative : Bool) (value : Decimal.Double)
  | text (value : String)
  | sequence
  | map
deriving DecidableEq, Repr

/-- Numbers have a decimal point from `10 ^ -5` up to, not including, `10 ^ 16`. -/
def numberLayout : Decimal.Layout := ⟨-5, 15⟩

def Found.describe : Found → String
  | null => "null"
  | boolean value => s!"boolean `{value}`"
  | integer value => s!"integer `{value}`"
  | real negative value =>
    let sign := if negative then "-" else ""
    let digits := String.ofList (numberLayout.render value.shortest)
    s!"floating point `{sign}{digits}`"
  | text value => "string " ++ Text.quote value
  | sequence => "sequence"
  | map => "map"

inductive Cause where
  | eofInList
  | eofInObject
  | eofInString
  | eofInValue
  | expectedColon
  | expectedCommaOrBracket
  | expectedCommaOrBrace
  | expectedIdent
  | expectedValue
  | invalidEscape
  | invalidNumber
  | numberOutOfRange
  | controlCharacter
  | keyNotString
  | loneSurrogate
  | trailingComma
  | trailingCharacters
  | unfinishedEscape
  | wrongType (found : Found) (expected : String)
  | duplicateField (key : String)
  | missingField (key : String)
  | wrongLength (length : Nat) (expected : String)
deriving DecidableEq, Repr

inductive Category where
  | eof
  | grammar
  | data
deriving DecidableEq, Repr

namespace Cause

def category : Cause → Category
  | eofInList | eofInObject | eofInString | eofInValue => .eof
  | wrongType .. | duplicateField _ | missingField _ | wrongLength .. => .data
  | _ => .grammar

def message : Cause → String
  | eofInList => "EOF while parsing a list"
  | eofInObject => "EOF while parsing an object"
  | eofInString => "EOF while parsing a string"
  | eofInValue => "EOF while parsing a value"
  | expectedColon => "expected `:`"
  | expectedCommaOrBracket => "expected `,` or `]`"
  | expectedCommaOrBrace => "expected `,` or `\x7d`"
  | expectedIdent => "expected ident"
  | expectedValue => "expected value"
  | invalidEscape => "invalid escape"
  | invalidNumber => "invalid number"
  | numberOutOfRange => "number out of range"
  | controlCharacter => "control character (\\u0000-\\u001F) found while parsing a string"
  | keyNotString => "key must be a string"
  | loneSurrogate => "lone leading surrogate in hex escape"
  | trailingComma => "trailing comma"
  | trailingCharacters => "trailing characters"
  | unfinishedEscape => "unexpected end of hex escape"
  | wrongType found expected => s!"invalid type: {found.describe}, expected {expected}"
  | duplicateField key => s!"duplicate field `{key}`"
  | missingField key => s!"missing field `{key}`"
  | wrongLength length expected => s!"invalid length {length}, expected {expected}"

end Cause

def byteSize : List Char → Nat
  | [] => 0
  | c :: cs => c.utf8Size + byteSize cs

/-- A cause, and how many bytes of the text lie beyond the place it is reported at. -/
structure Fault where
  cause : Cause
  ahead : Nat
deriving DecidableEq, Repr

namespace Fault

def here (cause : Cause) (rest : List Char) : Fault := ⟨cause, byteSize rest⟩

/-- Reported `n` bytes into `rest`, or at its end if it is shorter. -/
def past (cause : Cause) (n : Nat) (rest : List Char) : Fault := ⟨cause, byteSize rest - n⟩

/-- Reported behind the next byte of `rest`, which was looked at and not accepted. -/
def next (cause : Cause) (rest : List Char) : Fault := past cause 1 rest

end Fault

structure ParseError where
  cause : Cause
  line : Nat
  column : Nat
deriving DecidableEq, Repr

namespace ParseError

def category (e : ParseError) : Category := e.cause.category

def message (e : ParseError) : String :=
  s!"{e.cause.message} at line {e.line} column {e.column}"

def ofFault (text : List Char) (fault : Fault) : ParseError :=
  let bytes := text.flatMap String.utf8EncodeChar
  let behind := bytes.take (bytes.length - fault.ahead)
  { cause := fault.cause
    line := 1 + behind.count 10
    column := (behind.reverse.takeWhile (· != 10)).length }

end ParseError

end TileCatalog.Json
