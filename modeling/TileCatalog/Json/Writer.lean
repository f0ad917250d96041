/-!
# Written values

The compact form of strings, optional values and lists: no blanks, and escapes only where they are
needed.
-/

namespace TileCatalog.Json

/-- The digit `n % 16`, in lower case. -/
def hexChar (n : Nat) : Char := Nat.digitChar (n % 16)

def writeChar (c : Char) : List Char :=
  if c = '"' then ['\\', '"']
  else if c = '\\' then ['\\', '\\']
  else if c = '\x08' then ['\\', 'b']
  else if c = '\x0c' then ['\\', 'f']
  else if c = '\n' then ['\\', 'n']
  else if c = '\r' then ['\\', 'r']
  else if c = '\t' then ['\\', 't']
  else if c < ' ' then ['\\', 'u', '0', '0', hexChar (c.toNat / 16), hexChar c.toNat]
  else [c]

def writeString (s : String) : List Char :=
  '"' :: s.toList.flatMap writeChar ++ ['"']

def writeOption {α : Type} (write : α → List Char) : Option α → List Char
  | none => ['n', 'u', 'l', 'l']
  | some a => write a

def writeItems {α : Type} (write : α → List Char) : List α → List Char
  | [] => []
  | [a] => write a
  | a :: as => write a ++ ',' :: writeItems write as

def writeList {α : Type} (write : α → List Char) (as : List α) : List Char :=
  '[' :: writeItems write as ++ [']']

def writeMember (key : String) (value : List Char) : List Char :=
  writeString key ++ ':' :: value

def writeObject (members : List (List Char)) : List Char :=
  '\x7b' :: writeItems id members ++ ['\x7d']

end TileCatalog.Json
