import TileCatalog.Json.Number
import TileCatalog.Json.StringLiteral

/-!
# Values of another type

When a value is not of the type that is due, it is read for the message, and a fault in it comes
first.
-/

namespace TileCatalog.Json

/-- Reads a value met where another type was due. A list or an object is left unread. -/
def Found.read : List Char → Outcome Found
  | [] => .error (.next .eofInValue [])
  | c :: rest =>
    if c = 'n' then (takeWord ['u', 'l', 'l'] rest).map (.null, ·)
    else if c = 't' then (takeWord ['r', 'u', 'e'] rest).map (.boolean true, ·)
    else if c = 'f' then (takeWord ['a', 'l', 's', 'e'] rest).map (.boolean false, ·)
    else if c = '"' then
      match stringTail rest with
      | .error e => .error e
      | .ok (value, rest') => .ok (.text (String.ofList value), rest')
    else if c = '[' then .ok (.sequence, c :: rest)
    else if c = '\x7b' then .ok (.map, c :: rest)
    else if c = '-' ∨ isDigit c then
      match Numeral.read .eofInValue (c :: rest) with
      | .error e => .error e
      | .ok (x, rest') => (x.value rest').map (·, rest')
    else .error (.next .expectedValue (c :: rest))

def mismatch (expected : String) (cs : List Char) : Fault :=
  match Found.read cs with
  | .error e => e
  | .ok (found, rest) => .here (.wrongType found expected) rest

end TileCatalog.Json
