import Mathlib.Data.List.Rotate
import Retrocore.Proofs.Cpm.Rounds
import Retrocore.Proofs.Memory.Ring

/-!
# What system calls print

Function 9 prints a text that stands in memory. The text may go over the end of
the memory and on at its beginning; it ends in front of the first dollar sign, or
after as many bytes as there are addresses. `IsText` says what the text at an
address is without saying how it is found, and `isText_iff` that there is exactly
one, the one that `textAt` finds. `system_calls_print` is about all functions: what
a call sends to the console, and that it changes nothing else.
-/

namespace Retrocore.Cpm

/-! ## Texts -/

/-- What ends a text. -/
abbrev dollar : Byte := 0x24

/-- The text at an address, of at most `limit` bytes. -/
structure IsText (peek : Word → Byte) (limit : Nat) (address : Word) (text : List Byte) : Prop where
  bytes : ∀ i, (hi : i < text.length) → text[i] = peek (address + UInt16.ofNat i)
  unended : dollar ∉ text
  within : text.length ≤ limit
  ended : text.length < limit → peek (address + UInt16.ofNat text.length) = dollar

variable {peek : Word → Byte} {limit : Nat} {address : Word} {text : List Byte}

/-- The empty text is ended by a dollar, or by the limit. -/
theorem isText_nil (hended : 0 < limit → peek address = dollar) : IsText peek limit address [] where
  bytes i hi := absurd hi (Nat.not_lt_zero i)
  unended := List.not_mem_nil
  within := Nat.zero_le limit
  ended hlimit := by
    have hhere : address + UInt16.ofNat 0 = address := UInt16.add_zero address
    rw [List.length_nil, hhere]
    exact hended hlimit

/-- A text goes on with any byte but a dollar. -/
theorem isText_cons (hbyte : peek address ≠ dollar) (h : IsText peek limit (address + 1) text) :
    IsText peek (limit + 1) address (peek address :: text) := by
  have hnext : ∀ i, address + 1 + UInt16.ofNat i = address + UInt16.ofNat (i + 1) := by
    intro i
    rw [UInt16.ofNat_add, UInt16.add_assoc, UInt16.add_comm 1]
    rfl
  constructor
  case bytes =>
    intro i hi
    cases i with
    | zero => exact congrArg peek (UInt16.add_zero address).symm
    | succ i => rw [List.getElem_cons_succ, h.bytes, hnext]
  case unended =>
    rw [List.mem_cons, not_or]
    exact ⟨hbyte.symm, h.unended⟩
  case within => exact Nat.succ_le_succ h.within
  case ended =>
    intro hlimit
    rw [List.length_cons, ← hnext]
    exact h.ended (Nat.lt_of_succ_lt_succ hlimit)

/-- The induction is on the bytes that may still be printed. -/
theorem isText_textAt (peek : Word → Byte) (limit : Nat) (address : Word) :
    IsText peek limit address (textAt peek limit address) := by
  induction limit generalizing address with
  | zero => exact isText_nil fun h => absurd h (Nat.not_lt_zero 0)
  | succ limit ih =>
    by_cases hbyte : peek address = dollar
    · rw [textAt, if_pos hbyte]
      exact isText_nil fun _ => hbyte
    · rw [textAt, if_neg hbyte]
      exact isText_cons hbyte (ih (address + 1))

/-- The dollar sign behind a text is the first. -/
theorem IsText.length_le {text' : List Byte} (h : IsText peek limit address text)
    (h' : IsText peek limit address text') : text'.length ≤ text.length := by
  by_contra hlt
  have hlt : text.length < text'.length := Nat.lt_of_not_le hlt
  have hended : text'[text.length] = dollar :=
    (h'.bytes _ hlt).trans (h.ended (Nat.lt_of_lt_of_le hlt h'.within))
  exact h'.unended (hended ▸ List.getElem_mem hlt)

/-- There is one text at every address, and it is the one that is collected. -/
theorem isText_iff : IsText peek limit address text ↔ text = textAt peek limit address := by
  have hfound := isText_textAt peek limit address
  constructor
  · intro h
    apply List.ext_getElem (Nat.le_antisymm (hfound.length_le h) (h.length_le hfound))
    intro i hi hi'
    rw [h.bytes, hfound.bytes]
  · rintro rfl
    exact hfound

/-- Where there is no dollar sign the text has all the bytes it may have. -/
theorem IsText.length_eq (h : IsText peek limit address text) (hnone : ∀ a, peek a ≠ dollar) :
    text.length = limit := by
  refine Nat.le_antisymm h.within (Nat.le_of_not_lt fun hlt => ?_)
  exact hnone _ (h.ended hlt)

/-- With all the cells there, every address falls on one of them. -/
theorem read_mem_row {cells : Cells Byte} (hsize : cells.size = memorySize) (a : Word) :
    cells.read a ∈ cells.row := by
  have hrow : cells.row.size = 65536 := hsize
  have hlt : a.toNat % cells.row.size < cells.row.size := Nat.mod_lt _ (by omega)
  unfold Cells.read
  rw [Array.getD_eq_getD_getElem?, Array.getElem?_eq_getElem hlt]
  exact Array.getElem_mem hlt

/-- In a memory of the usual size that is the memory once round. -/
theorem IsText.eq_rotate {cells : Cells Byte} (hsize : cells.size = memorySize)
    (hnone : dollar ∉ cells.row) (h : IsText cells.read memorySize address text) :
    text = cells.row.toList.rotate address.toNat := by
  have hrow : cells.row.size = 65536 := hsize
  have hlength : text.length = 65536 :=
    h.length_eq fun a ha => hnone (ha ▸ read_mem_row hsize a)
  apply List.ext_getElem
  · rw [hlength, List.length_rotate, Array.length_toList, hrow]
  · intro i hi hi'
    have hlt : (address.toNat + i) % 65536 < cells.row.size := by omega
    have hindex :
        (address + UInt16.ofNat i).toNat % cells.row.size = (address.toNat + i) % 65536 := by
      rw [hrow, UInt16.toNat_add, UInt16.toNat_ofNat']
      omega
    rw [h.bytes, List.getElem_rotate]
    unfold Cells.read
    rw [hindex, Array.getD_eq_getD_getElem?, Array.getElem?_eq_getElem hlt]
    simp only [Array.length_toList, hrow, Nat.add_comm i, Array.getElem_toList]
    rfl

/-! ## Calls -/

/-- What a console shows when some more has been sent to it. -/
theorem foldl_print (bytes : List Byte) (c : Console) :
    bytes.foldl Console.print c = { c with printed := c.printed ++ bytes } := by
  induction bytes generalizing c with
  | nil => simp
  | cons b bytes ih =>
    rw [List.foldl_cons, ih]
    simp [Console.print]

/-- What a call of a function sends to the console, by the character and the
address that go with it. -/
structure Sends (function character : Byte) (address : Word) (cells : Cells Byte)
    (sent : List Byte) : Prop where
  character : function = 2 → sent = [character]
  text : function = 9 → IsText cells.read 65536 address sent
  /-- A memory without a dollar sign is sent once round. -/
  round : function = 9 → cells.size = 65536 → dollar ∉ cells.row →
    sent = cells.row.toList.rotate address.toNat
  unknown : function ≠ 2 → function ≠ 9 → sent = []

section

variable {κ ω : Type} [Host κ] {core : κ} {c d e : Byte} {cells : Cells Byte}

/-- Function 2 prints E. -/
theorem answer_of_character (hargs : Host.callArgs core = (c, wordOf d e)) (hc : c = 2) :
    answer core = some [e] := by
  subst hc
  simp only [answer, hargs]
  exact congrArg (some [·]) (lowByte_wordOf d e)

/-- Function 9 prints the text at DE. -/
theorem answer_of_text (hargs : Host.callArgs core = (c, wordOf d e))
    (hpeek : Host.peek core = cells.read) (hc : c = 9) :
    answer core = some (textAt cells.read 65536 (wordOf d e)) := by
  subst hc
  simp only [answer, hargs, hpeek]
  rfl

/-- No other function prints anything. -/
theorem answer_of_unknown (hargs : Host.callArgs core = (c, wordOf d e)) (hcharacter : c ≠ 2)
    (htext : c ≠ 9) : answer core = none := by
  simp only [answer, hargs]
  split
  next h => exact absurd (UInt8.toNat_inj.mp h) hcharacter
  next h => exact absurd (UInt8.toNat_inj.mp h) htext
  next => rfl

/-- The answer to a call is what its function sends, and nothing else is. -/
theorem sends_iff (hargs : Host.callArgs core = (c, wordOf d e))
    (hpeek : Host.peek core = cells.read) (sent : List Byte) :
    Sends c e (wordOf d e) cells sent ↔ sent = (answer core).getD [] := by
  by_cases hcharacter : c = 2
  · rw [answer_of_character hargs hcharacter]
    subst hcharacter
    constructor
    · intro h
      exact h.character rfl
    · rintro rfl
      exact ⟨fun _ => rfl, fun h => absurd h (by decide), fun h => absurd h (by decide),
        fun h => absurd rfl h⟩
  by_cases htext : c = 9
  · rw [answer_of_text hargs hpeek htext]
    subst htext
    constructor
    · intro h
      exact isText_iff.mp (h.text rfl)
    · intro h
      have hfound := isText_iff.mpr h
      exact ⟨fun h => absurd h hcharacter, fun _ => hfound,
        fun _ hsize hnone => hfound.eq_rotate hsize hnone, fun _ h => absurd rfl h⟩
  · rw [answer_of_unknown hargs hcharacter htext]
    constructor
    · intro h
      exact h.unknown hcharacter htext
    · rintro rfl
      exact ⟨fun h => absurd h hcharacter, fun h => absurd h htext, fun h => absurd h htext,
        fun _ _ => rfl⟩

variable [Monitor ω κ Happening]

/-- Nothing but the console changes, and what the monitor has heard. -/
theorem serve_sends (s : Session κ ω) (hargs : Host.callArgs s.core = (c, wordOf d e))
    (hpeek : Host.peek s.core = cells.read) :
    ∃ sent monitor, (∀ bytes, Sends c e (wordOf d e) cells bytes ↔ bytes = sent) ∧
      s.serve =
        { s with monitor, console := { s.console with printed := s.console.printed ++ sent } } := by
  obtain ⟨monitor, hserve⟩ := s.serve_eq
  refine ⟨_, monitor, sends_iff hargs hpeek, ?_⟩
  rw [hserve, Session.shows, foldl_print]

end

/-- **A system call sends to the console what its function says**, and changes
nothing else in the session: function 2 the character in E, function 9 the text
at the address in DE, and no other function anything. -/
theorem system_calls_print (μ ω : Type) [Monitor ω (I8080.Machine μ Traps) Happening]
    [Monitor ω (Z80.Machine μ Traps) Happening] :
    (∀ s : Session (I8080.Machine μ Traps) ω, ∃ sent monitor,
      (∀ bytes, Sends s.core.regs.c s.core.regs.e s.core.regs.de s.core.memory.cells bytes ↔
        bytes = sent) ∧
      s.serve =
        { s with monitor, console := { s.console with printed := s.console.printed ++ sent } }) ∧
    (∀ s : Session (Z80.Machine μ Traps) ω, ∃ sent monitor,
      (∀ bytes, Sends s.core.regs.c s.core.regs.e s.core.regs.de s.core.memory.cells bytes ↔
        bytes = sent) ∧
      s.serve =
        { s with monitor, console := { s.console with printed := s.console.printed ++ sent } }) :=
  ⟨fun s => serve_sends s rfl rfl, fun s => serve_sends s rfl rfl⟩

end Retrocore.Cpm
