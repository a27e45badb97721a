/-
# Quoted text

A text shown inside double quotes, so that every character of it can be told apart:
the quote and the backslash are escaped, line breaks and tabs have letters, and
characters that would not show by themselves are given by number.
-/
import Reshape.Text.Table.Hidden

namespace Reshape.Text

/-- The code point of a character in braces, in lower-case hexadecimal. -/
def byNumber (c : Char) : List Char :=
  '\\' :: 'u' :: '\x7b' :: (Nat.toDigits 16 c.toNat ++ ['\x7d'])

/-- How one character is shown inside double quotes. -/
def quotedChar (c : Char) : List Char :=
  if c == '\x00' then ['\\', '0']
  else if c == '\t' then ['\\', 't']
  else if c == '\r' then ['\\', 'r']
  else if c == '\n' then ['\\', 'n']
  else if c == '\\' then ['\\', '\\']
  else if c == '"' then ['\\', '"']
  else if Table.hidden.hasChar c then byNumber c
  else [c]

/-- The text in double quotes. -/
def quoted (s : String) : String :=
  String.ofList ('"' :: (s.toList.flatMap quotedChar ++ ['"']))

end Reshape.Text
