/-
# Retention.Text.Quoted -- a text between quotation marks

A quoted text is one line whose end can be seen: the quotation mark and the backslash carry a
backslash, the usual controls have a letter, and a character without a mark of its own is written
by its number. Everything else, an apostrophe or a letter of any script, stands as it is.
-/
import Retention.Text.Unprinted

namespace Retention.Text

/-- The character's number between braces, in lower-case hexadecimal digits. -/
def numbered (c : Char) : List Char :=
  ['\\', 'u', '\x7b'] ++ Nat.toDigits 16 c.toNat ++ ['\x7d']

/-- The way one character is written inside a quoted text. -/
def escape (c : Char) : List Char :=
  match c with
  | '"' => ['\\', '"']
  | '\\' => ['\\', '\\']
  | '\n' => ['\\', 'n']
  | '\r' => ['\\', 'r']
  | '\t' => ['\\', 't']
  | '\x00' => ['\\', '0']
  | c => if isUnprinted c then numbered c else [c]

/-- The text between quotation marks, every character escaped as it needs. -/
def quote (s : String) : String :=
  String.ofList ('"' :: s.toList.flatMap escape ++ ['"'])

end Retention.Text
