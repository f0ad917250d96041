import TileCatalog.Text.Hidden

/-!
# Quoted text

Text between double quotes, as messages show paths and string values. The quote, the backslash and
the usual controls have two-character escapes; every other hidden character is written by its
number in braces. A single quote stands as it is.
-/

namespace TileCatalog.Text

def quoteChar (c : Char) : List Char :=
  if c = '"' then ['\\', '"']
  else if c = '\\' then ['\\', '\\']
  else if c = '\n' then ['\\', 'n']
  else if c = '\r' then ['\\', 'r']
  else if c = '\t' then ['\\', 't']
  else if c = '\x00' then ['\\', '0']
  else if isHidden c then ['\\', 'u', '\x7b'] ++ Nat.toDigits 16 c.toNat ++ ['\x7d']
  else [c]

def quote (text : String) : String :=
  String.ofList ('"' :: text.toList.flatMap quoteChar ++ ['"'])

end TileCatalog.Text
