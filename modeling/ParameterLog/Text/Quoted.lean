/-
Module: ParameterLog.Text.Quoted
Purpose: how messages quote a text or a character that they talk about.
Main exports: quote, quoteChar
-/
import ParameterLog.Text.Unprintable

/-!
A quoted text stands between double quotes. NUL, tab, line feed, carriage return and the backslash
are written with a backslash and a letter, the quote that closes the text with a backslash before
it, and an unprintable character as `\u` and its code point in braces. Everything else stands for
itself, so the text can be read back from its quotation.
-/

namespace ParameterLog.Text

/-- The digits of a code point in a quotation: lowercase hexadecimal without padding. -/
def codePoint (c : Char) : String :=
  String.ofList (['\\', 'u', '\x7b'] ++ Nat.toDigits 16 c.toNat ++ ['\x7d'])

/-- How a character is written inside a quotation closed by `closing`. -/
def escapeFor (closing c : Char) : String :=
  if c = '\x00' then "\\0"
  else if c = '\t' then "\\t"
  else if c = '\r' then "\\r"
  else if c = '\n' then "\\n"
  else if c = '\\' then "\\\\"
  else if c = closing then String.ofList ['\\', c]
  else if unprintable c then codePoint c
  else String.singleton c

/-- A text between double quotes. -/
def quote (text : String) : String :=
  "\"" ++ String.join (text.toList.map (escapeFor '\x22')) ++ "\""

/-- A character between single quotes. -/
def quoteChar (c : Char) : String :=
  "'" ++ escapeFor '\x27' c ++ "'"

example : quote "a\"b\\\n" = "\"a\\\"b\\\\\\n\"" := by decide
example : quoteChar '\x27' = "'\\''" := by decide
example : quote "'\u007f" = "\"'\\u\x7b7f\x7d\"" := by decide

end ParameterLog.Text
