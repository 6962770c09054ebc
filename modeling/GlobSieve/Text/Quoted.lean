import GlobSieve.Text.Combining
import GlobSieve.Text.Unprintable

/-!
# Quoted text

A text is shown between double quotes so that every character of it can be told from the page. A backslash stands before
a quote and before a backslash; `\n`, `\r`, `\t` and `\0` are written by name. Any other character that would not be
seen, or would be drawn onto the one before it, is written by its code in lower-case hexadecimal digits, as in `\u{1b}`.
A single quote stands for itself.
-/

namespace GlobSieve.Text

/-- Whether a character can be told from the page where it stands for itself. -/
def standsAlone (c : Char) : Bool := !unprintable.has c.toNat && !combining.has c.toNat

/-- How a character is written between quotes. -/
def escapeChar (c : Char) : List Char :=
  if c = '"' then ['\\', '"']
  else if c = '\\' then ['\\', '\\']
  else if c = '\n' then ['\\', 'n']
  else if c = '\r' then ['\\', 'r']
  else if c = '\t' then ['\\', 't']
  else if c = '\x00' then ['\\', '0']
  else if standsAlone c then [c]
  else ['\\', 'u', '\x7b'] ++ Nat.toDigits 16 c.toNat ++ ['\x7d']

/-- A text between quotes. -/
def quoted (cs : List Char) : String := String.ofList ('"' :: cs.flatMap escapeChar ++ ['"'])

end GlobSieve.Text
