/-!
# Control sequences

A terminal takes some characters of a text as orders: an escape character starts
a sequence that moves the cursor or sets a colour, and most control characters
act by themselves. A text that comes from elsewhere is shown without them, so
that it cannot do anything to the terminal of its reader. `plain` leaves out the
sequences, and all control characters but tabs and the ends of lines.
-/

namespace Retrocore.Text

/-- What a character is read as a part of. -/
inductive Sequence where
  /-- Of no sequence. -/
  | text
  /-- A sequence of which there is only the escape character. -/
  | escape
  /-- A sequence that any letter or digit ends. -/
  | short
  /-- A sequence with parameters, which a letter ends. -/
  | parameters
  /-- A command to the system of windows, such as a title. -/
  | command
  /-- A message to a device. -/
  | message
  deriving DecidableEq, Repr

/-- Whether a character can be shown: it prints something, or it moves on along
the text. -/
def isPlain (c : Char) : Bool :=
  (' ' ≤ c && c ≠ '\x7f') || ['\t', '\n', '\x0c', '\r'].contains c

/-- Whether a character's bytes have the one among them that ends a message. -/
def endsMessage (c : Char) : Bool := (String.singleton c).toUTF8.toList.contains 0x9c

namespace Sequence

/-- What the character after an escape character makes of the sequence. -/
def second (c : Char) : Sequence :=
  if c < ' ' || '~' < c then escape
  else if c < '0' then short
  else if c = '[' then parameters
  else if c = ']' then command
  else if ['P', 'X', '^', '_'].contains c then message
  else text

/-- What is read after a character that does not break off the sequence. -/
def next (s : Sequence) (c : Char) : Sequence :=
  match s with
  | text => text
  | escape => second c
  | short => if '0' ≤ c && c ≤ '~' then text else short
  | parameters => if '@' ≤ c && c ≤ '~' then text else parameters
  | command => if c = '\x07' then text else command
  | message => if endsMessage c then text else message

/-- Whether a character is shown although a sequence is not over. Tabs and ends
of lines stand in the middle of most sequences without being a part of them. -/
def shows (s : Sequence) (c : Char) : Bool :=
  match s with
  | text => isPlain c
  | escape | short | parameters => c < ' ' && isPlain c
  | command | message => false

/-- Reads a character, and says whether it is shown. Behind a character that was
shown all text is shown, even if the sequence in which that character stood is
not over; the sequence goes on at the next character that cannot be shown. -/
def read (s : Sequence) (shown : Bool) (c : Char) : Sequence × Bool :=
  if shown && isPlain c then (if c ≤ '\x7f' then s else text, true)
  else if c = '\x18' || c = '\x1a' then (text, false)
  else if c = '\x1b' then (escape, false)
  else (s.next c, s.shows c)

/-- The characters that are shown of a text. -/
def plainChars (s : Sequence) (shown : Bool) : List Char → List Char
  | [] => []
  | c :: cs =>
    let (s, shown) := s.read shown c
    if shown then c :: plainChars s shown cs else plainChars s shown cs

end Sequence

/-- A text without control sequences. -/
def plain (s : String) : String := String.ofList (Sequence.text.plainChars false s.toList)

end Retrocore.Text
