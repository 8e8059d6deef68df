/-
Text between double quotes, for messages. A double quote and a backslash get a backslash; NUL, tab, line feed and
carriage return are written `\0`, `\t`, `\n` and `\r`; a character that would join the one before it, or that has no
visible form of its own, is written by its code point in hexadecimal digits, as in `\u{301}`. A single quote stays as
it is.
-/
import LiveFiles.Text.GraphemeExtend
import LiveFiles.Text.Unprintable

namespace LiveFiles.Text

/-- a character by its code point -/
def codePointText (c : Char) : List Char := ['\\', 'u', '\x7b'] ++ Nat.toDigits 16 c.toNat ++ ['\x7d']

/-- how a character is written between quotes -/
def quoteChar (c : Char) : List Char :=
  if c = '\x00' then ['\\', '0']
  else if c = '\t' then ['\\', 't']
  else if c = '\n' then ['\\', 'n']
  else if c = '\r' then ['\\', 'r']
  else if c = '"' || c = '\\' then ['\\', c]
  else if 0x20 ≤ c.toNat && c.toNat < 0x7F then [c]
  else if isGraphemeExtend c || isUnprintable c then codePointText c
  else [c]

def quoted (s : String) : String := String.ofList ('"' :: s.toList.flatMap quoteChar ++ ['"'])

end LiveFiles.Text
