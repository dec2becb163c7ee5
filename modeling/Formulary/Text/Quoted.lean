import Formulary.Text.Hexadecimal
import Formulary.Text.Shapeless
/-!
# Quoted text

A text between double quotes, for messages. Quotes and backslashes are escaped, the usual controls
have a short escape, and a character that cannot be shown by itself is written by its number.
-/

namespace Formulary

/-- How one character stands between quotes. -/
def quotedChar (c : Char) : List Char :=
  if c = '"' || c = '\\' then ['\\', c]
  else if c = '\x00' then ['\\', '0']
  else if c = '\t' then ['\\', 't']
  else if c = '\n' then ['\\', 'n']
  else if c = '\r' then ['\\', 'r']
  else if c < ' ' || c = '\x7f' || ('\x7f' < c && isShapeless c) then
    ['\\', 'u', '{'] ++ hexadecimal c.toNat ++ ['}']
  else [c]

/-- A text between double quotes. -/
def quoted (s : String) : String :=
  String.ofList ('"' :: s.toList.flatMap quotedChar ++ ['"'])

end Formulary
