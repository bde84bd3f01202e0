import Workforce.Text.Graphic

/-
  Texts in double quotes, as diagnostics show them. Quotes, backslashes and the usual line
  controls have short escapes; every other character that is not graphic is written by its code
  in hexadecimal digits between braces. Graphic characters stand for themselves.
-/

namespace Workforce.Text.Quoted

/-- The hexadecimal digits of a character code, without leading zeros. -/
def hexDigits (n : Nat) : List Char := Nat.toDigits 16 n

/-- The spelling of one character between quotes. -/
def encodeChar (c : Char) : List Char :=
  if c = '"' then ['\\', '"']
  else if c = '\\' then ['\\', '\\']
  else if c = '\n' then ['\\', 'n']
  else if c = '\t' then ['\\', 't']
  else if c = '\r' then ['\\', 'r']
  else if c.toNat = 0 then ['\\', '0']
  else if Graphic.isGraphic c then [c]
  else ['\\', 'u', '\x7b'] ++ hexDigits c.toNat ++ ['\x7d']

/-- The quoted spelling of a text. -/
def encode (s : String) : String :=
  String.ofList ('"' :: (s.toList.flatMap encodeChar ++ ['"']))

/-- A list of quoted texts in brackets. -/
def encodeList (ss : List String) : String :=
  "[" ++ String.intercalate ", " (ss.map encode) ++ "]"

end Workforce.Text.Quoted
