import Retrocore.Text.Extending
import Retrocore.Text.Unassigned

/-!
# Quoted text

`quote` shows a text between double quotes so that everything in it can be seen:
a backslash stands before quotes and backslashes, the common control characters
have letters, and any other character that is not seen, or is seen only as a
part of the one before it, is written by its number.
-/

namespace Retrocore.Text

/-- The characters of the general categories Control, Format, Private_Use and
Separator, among which is the plain space. -/
def controls : Ranges :=
  [(0x0, 0x20), (0x7f, 0xa0), (0xad, 0xad), (0x600, 0x605), (0x61c, 0x61c), (0x6dd, 0x6dd),
   (0x70f, 0x70f), (0x890, 0x891), (0x8e2, 0x8e2), (0x1680, 0x1680), (0x180e, 0x180e),
   (0x2000, 0x200f), (0x2028, 0x202f), (0x205f, 0x2064), (0x2066, 0x206f), (0x3000, 0x3000),
   (0xe000, 0xf8ff), (0xfeff, 0xfeff), (0xfff9, 0xfffb), (0x110bd, 0x110bd), (0x110cd, 0x110cd),
   (0x13430, 0x1343f), (0x1bca0, 0x1bca3), (0x1d173, 0x1d17a), (0xe0001, 0xe0001),
   (0xe0020, 0xe007f), (0xf0000, 0xffffd), (0x100000, 0x10fffd)]

theorem ordered_controls : controls.ordered = true := by decide

/-- The letters of the Korean script that fill the place of a letter and are not
drawn. -/
def fillers : Ranges := [(0x115f, 0x1160), (0x3164, 0x3164), (0xffa0, 0xffa0)]

/-- Whether a character can be seen where it stands, the plain space
included. -/
def isSeen (c : Char) : Bool :=
  c == ' ' ||
    !(controls.cover c || unassigned.cover c || extending.cover c || fillers.cover c)

/-- How one character is shown between the quotes. -/
def quoteChar (c : Char) : List Char :=
  match c with
  | '"' => ['\\', '"']
  | '\\' => ['\\', '\\']
  | '\t' => ['\\', 't']
  | '\r' => ['\\', 'r']
  | '\n' => ['\\', 'n']
  | '\x00' => ['\\', '0']
  | c =>
    if isSeen c then [c] else ['\\', 'u', '\x7b'] ++ Nat.toDigits 16 c.toNat ++ ['\x7d']

/-- The text between double quotes, with everything in it visible. -/
def quote (s : String) : String :=
  String.ofList ('"' :: s.toList.flatMap quoteChar ++ ['"'])

end Retrocore.Text
