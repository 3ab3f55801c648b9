import ParseForest.Character.Combining
import ParseForest.Character.Unprintable

/-!
# Quoted characters and texts

A message shows a character or a text between quotes. What would not be seen
there, or would end the quotes, is written as an escape.
-/

namespace ParseForest.Character

def singleQuote : Char := '\x27'

def doubleQuote : Char := '\x22'

/-- The escape `\u` with the code point in braces, in lower-case hexadecimal. -/
def codePointEscape (c : Char) : String :=
  "\\u\x7b" ++ String.ofList (Nat.toDigits 16 c.toNat) ++ "\x7d"

/-- How a character is written between two marks `quote`. The mark itself, the
backslash, NUL, tab and the line ends have escapes of two characters; other
combining or unprintable characters are written by code point. -/
def escape (quote : Char) (c : Char) : String :=
  if c = '\x00' then "\\0"
  else if c = '\t' then "\\t"
  else if c = '\r' then "\\r"
  else if c = '\n' then "\\n"
  else if c = '\\' then "\\\\"
  else if c = quote then "\\" ++ quote.toString
  else if isCombining c || isUnprintable c then codePointEscape c
  else c.toString

def quoted (c : Char) : String :=
  singleQuote.toString ++ escape singleQuote c ++ singleQuote.toString

def quotedText (text : String) : String :=
  doubleQuote.toString ++ String.join (text.toList.map (escape doubleQuote)) ++
    doubleQuote.toString

end ParseForest.Character
