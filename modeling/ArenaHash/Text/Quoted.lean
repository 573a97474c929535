import ArenaHash.Text.Combining
import ArenaHash.Text.Unprintable

/-!
# Quoted texts

A text between quotation marks. A quotation mark, a backslash and four of the controls have short
escapes. Any other character that cannot be shown by itself, because it is unprintable or a
combining mark, is given by its code point in hexadecimal digits between braces.
-/

namespace ArenaHash.Quoted

/-- The letter of a short escape. -/
def letter? : Char → Option Char
  | '"' => some '"'
  | '\\' => some '\\'
  | '\n' => some 'n'
  | '\r' => some 'r'
  | '\t' => some 't'
  | '\x00' => some '0'
  | _ => none

/-- What stands for a character. -/
def escape (c : Char) : List Char :=
  match letter? c with
  | some letter => ['\\', letter]
  | none =>
    if isPrintable c && !isCombining c then [c]
    else "\\u\x7b".toList ++ Nat.toDigits 16 c.toNat ++ "\x7d".toList

/-- A text between quotation marks. -/
def encode (text : String) : String :=
  .ofList ('"' :: text.toList.flatMap escape ++ ['"'])

example : escape '"' = ['\\', '"'] ∧ escape 'é' = ['é'] := by decide +kernel
example : escape '\u0301' = "\\u\x7b301\x7d".toList := by decide +kernel

end ArenaHash.Quoted
