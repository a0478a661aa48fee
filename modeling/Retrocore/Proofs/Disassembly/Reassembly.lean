import Retrocore.Proofs.Disassembly.Tiling
import Retrocore.Proofs.Text.Numerals
import Retrocore.Proofs.Text.Operands

/-!
# Assembling a disassembly again

On the machines that work on words, the text of a line says which words the line
covers. `Lmc.assemble` and `Synacor.assemble` read them off the text, whether it
shows an instruction or a word that is none. Line after line they give back the
words of the file, and behind its end the zeros that the last line may have been
filled up with (`Dialect.take_assembled`). So the texts of a file of known length
determine all of its words (`word_disassembly_injective`).
-/

namespace Retrocore

/-! ## Lines and files -/

namespace Dialect

variable {κ : Type}

/-- What is shown of the cells at the start of a stream, and how many of them
that covers. -/
def shown (d : Dialect κ) (s : Stream κ) (address : Word) : String × Nat :=
  match d.decode s address with
  | some line => line
  | none => (d.unknown (s 0), 1)

/-- The cells that a line covers can be read off its text. -/
def AssembledBy (d : Dialect κ) (assemble : String → List κ) : Prop :=
  ∀ s address, assemble (d.shown s address).1 = (List.range (d.shown s address).2).map s

variable [Inhabited κ] {d : Dialect κ} {assemble : String → List κ}

def texts (d : Dialect κ) (cells : Array κ) (origin : Word) : List String :=
  (d.disassemble cells origin).map Line.text

/-- Text is made from the cells at a position and the address they are loaded to. -/
theorem textAt_eq_shown (cells : Array κ) (origin : Word) (pos : Nat) :
    d.textAt cells origin pos =
      d.shown (.ofArray cells pos) (origin + UInt16.ofNat pos) := by
  unfold textAt shown
  cases d.decode (.ofArray cells pos) (origin + UInt16.ofNat pos) <;> rfl

/-- Of a stretch of a file and the zeros behind it, what lies within the
file. -/
theorem take_map_ofArray (cells : Array κ) (pos length : Nat) :
    ((List.range length).map (Stream.ofArray cells pos)).take (cells.size - pos) =
      (cells.toList.drop pos).take length := by
  apply List.ext_getElem?
  intro i
  rw [List.getElem?_take, List.getElem?_take, List.getElem?_map, List.getElem?_drop]
  by_cases hin : i < cells.size - pos
  · have hpos : pos + i < cells.size := by omega
    have hcell : cells.toList[pos + i]? = some (Stream.ofArray cells pos i) := by
      unfold Stream.ofArray
      rw [Array.getElem?_toList, Array.getD_eq_getD_getElem?, Array.getElem?_eq_getElem hpos]
      rfl
    rw [if_pos hin, hcell]
    by_cases hlength : i < length
    · rw [if_pos hlength, List.getElem?_range hlength]
      rfl
    · rw [if_neg hlength, List.getElem?_eq_none (by rw [List.length_range]; omega)]
      rfl
  · have hpos : cells.toList.length ≤ pos + i := by
      rw [Array.length_toList]
      omega
    rw [if_neg hin, List.getElem?_eq_none hpos, ite_self]

/-- The cells of a file from a position on, out of the tiles that are read from
there on. -/
theorem Reads.take_assembled (hassemble : d.AssembledBy assemble) {cells : Array κ}
    {origin : Word} {pos past : Nat} {ts : List Tile} (h : d.Reads cells origin pos ts past)
    (hend : cells.size ≤ past) :
    (ts.flatMap fun t => assemble t.line.text).take (cells.size - pos) =
      cells.toList.drop pos := by
  induction h with
  | nothing =>
    rw [List.flatMap_nil, List.take_nil]
    exact (List.drop_eq_nil_of_le hend).symm
  | @tile pos past t ts hread hrest ih =>
    obtain ⟨-, rfl⟩ := tileAt?_eq_some_iff.mp hread
    have hline := hassemble (.ofArray cells pos) (origin + UInt16.ofNat pos)
    rw [← textAt_eq_shown] at hline
    -- what the first line covers of the file, and the rest behind it
    rw [List.flatMap_cons, hline, List.take_append, take_map_ofArray, List.length_map,
      List.length_range, Nat.sub_sub, ih hend, ← List.drop_drop, List.take_append_drop]

/-- Assembling a disassembly gives the file back. -/
theorem take_assembled (hd : d.Bounded) (hassemble : d.AssembledBy assemble) (cells : Array κ)
    (origin : Word) :
    ((d.texts cells origin).flatMap assemble).take cells.size = cells.toList := by
  obtain ⟨ts, past, hreads, hend, hlines⟩ := hd.exists_reads cells origin 0
  have hwords := hreads.take_assembled hassemble (tileAt?_eq_none_iff.mp hend)
  unfold texts disassemble
  rw [hlines, List.map_map, List.flatMap_map]
  exact hwords

/-- So files of one length with the same texts are the same. -/
theorem texts_injective (hd : d.Bounded) (hassemble : d.AssembledBy assemble) (n : Nat)
    (origin : Word) :
    Function.Injective fun cells : Vector κ n => d.texts cells.toArray origin := by
  intro cells cells' h
  have hcells := take_assembled hd hassemble cells.toArray origin
  have hcells' := take_assembled hd hassemble cells'.toArray origin
  rw [Vector.size_toArray] at hcells hcells'
  have hlist : cells.toArray.toList = cells'.toArray.toList := by
    rw [← hcells, ← hcells']
    exact congrArg (fun texts => (texts.flatMap assemble).take n) h
  exact Vector.toArray_inj.mp (Array.toList_inj.mp hlist)

end Dialect

/-- The number that decimal digits stand for. -/
def Text.number (cs : List Char) : Word := UInt16.ofNat (Nat.ofDigitChars 10 cs 0)

/-- A number is read back from its digits, modulo the size of a word. -/
theorem Text.number_digits (w n : Nat) : number (digits 10 w n) = UInt16.ofNat n := by
  unfold number
  rw [ofDigitChars_digits (by decide) (by decide)]

/-! ## The Little Man Computer -/

namespace Lmc

/-- What a mnemonic adds to the number behind it. -/
def base (mnemonic : List Char) : Word :=
  match String.ofList mnemonic with
  | "add" => 100
  | "sub" => 200
  | "sta" => 300
  | "lda" => 500
  | "bra" => 600
  | "brz" => 700
  | "brp" => 800
  | "inp" => 901
  | "out" => 902
  | "otc" => 922
  | _ => 0

/-- The number that a text stands for. -/
def assemble (text : String) : List Word :=
  [base (Text.mnemonic text.toList) + Text.number (Text.operands text.toList).flatten]

/-- A mnemonic alone. -/
theorem assemble_of_notMem {name : String} (h : ' ' ∉ name.toList) :
    assemble name = [base name.toList] := by
  unfold assemble
  rw [Text.mnemonic_of_notMem h, Text.operands_of_notMem h]
  exact congrArg (fun v => [v]) (UInt16.add_zero _)

/-- A mnemonic with a number behind it. -/
theorem assemble_spelled (name lead : String) (hname : ' ' ∉ name.toList)
    (hlead : lead.toList = name.toList ++ [' ']) (w n : Nat) :
    assemble (lead ++ String.ofList (Text.digits 10 w n)) =
      [base name.toList + UInt16.ofNat n] := by
  have hcomma : ',' ∉ Text.digits 10 w n := Text.notMem_digits (by decide) (by decide) rfl w n
  unfold assemble
  rw [Text.toList_spelled hlead, String.toList_ofList, Text.mnemonic_spelled hname,
    Text.operands_spelled hname, Text.splitOperands_of_notMem hcomma, List.flatten_singleton,
    Text.number_digits]

/-- A word that is no instruction is written as data, and read back. -/
theorem assemble_dat (n : Nat) : assemble s!"dat {n}" = [UInt16.ofNat n] := by
  show assemble ("dat " ++ toString n) = _
  rw [Text.toString_eq_digits, assemble_spelled "dat" "dat " (by decide) (by decide)]
  exact congrArg (fun v => [v]) (UInt16.zero_add _)

/-- The number that an instruction is decoded from. -/
def Instruction.word : Instruction → Word
  | hlt => 0
  | dat n => n
  | add box => 100 + UInt16.ofNat box.toNat
  | sub box => 200 + UInt16.ofNat box.toNat
  | sta box => 300 + UInt16.ofNat box.toNat
  | lda box => 500 + UInt16.ofNat box.toNat
  | bra box => 600 + UInt16.ofNat box.toNat
  | brz box => 700 + UInt16.ofNat box.toNat
  | brp box => 800 + UInt16.ofNat box.toNat
  | inp => 901
  | out => 902
  | otc => 922

/-- The text of an LMC instruction has its word in it. -/
theorem Instruction.assemble_text (i : Instruction) : assemble i.text = [i.word] := by
  have hbox (name lead : String) (hname : ' ' ∉ name.toList)
      (hlead : lead.toList = name.toList ++ [' ']) (box : Byte) :
      assemble (lead ++ boxText box) = [base name.toList + UInt16.ofNat box.toNat] :=
    assemble_spelled name lead hname hlead 2 box.toNat
  cases i with
  | hlt => exact assemble_of_notMem (by decide)
  | dat n => rw [text, assemble_dat, UInt16.ofNat_toNat, word]
  | add box => exact hbox "add" "add " (by decide) (by decide) box
  | sub box => exact hbox "sub" "sub " (by decide) (by decide) box
  | sta box => exact hbox "sta" "sta " (by decide) (by decide) box
  | lda box => exact hbox "lda" "lda " (by decide) (by decide) box
  | bra box => exact hbox "bra" "bra " (by decide) (by decide) box
  | brz box => exact hbox "brz" "brz " (by decide) (by decide) box
  | brp box => exact hbox "brp" "brp " (by decide) (by decide) box
  | inp => exact assemble_of_notMem (by decide)
  | out => exact assemble_of_notMem (by decide)
  | otc => exact assemble_of_notMem (by decide)

/-- Hundreds and mailbox make up the number. -/
theorem hundreds_add_box {w : Word} {hundreds : Nat} (h : (w / 100).toNat = hundreds) :
    UInt16.ofNat (100 * hundreds) + UInt16.ofNat (w % 100).toUInt8.toNat = w := by
  have hw := w.toNat_lt
  apply UInt16.toNat_inj.mp
  simp only [UInt16.toNat_div, UInt16.reduceToNat] at h
  simp only [UInt16.toNat_add, UInt16.toNat_ofNat', UInt16.toNat_toUInt8, UInt16.toNat_mod,
    UInt16.reduceToNat]
  omega

theorem Instruction.word_of_ofWord? {w : Word} {i : Instruction} (h : ofWord? w = some i) :
    i.word = w := by
  unfold ofWord? at h
  split at h
  next => cases h
  next hle =>
    dsimp only at h
    split at h
    next hzero =>
      split at h
      next hbox =>
        have hword := hundreds_add_box hzero
        rw [hbox] at hword
        cases h
        exact hword
      next =>
        cases h
        rfl
    next hhundreds => cases h; exact hundreds_add_box hhundreds
    next hhundreds => cases h; exact hundreds_add_box hhundreds
    next hhundreds => cases h; exact hundreds_add_box hhundreds
    next hhundreds => cases h; exact hundreds_add_box hhundreds
    next hhundreds => cases h; exact hundreds_add_box hhundreds
    next hhundreds => cases h; exact hundreds_add_box hhundreds
    next hhundreds => cases h; exact hundreds_add_box hhundreds
    next hhundreds =>
      -- the nine hundreds, where the rest names no mailbox
      have hword := hundreds_add_box hhundreds
      split at h <;> cases h
      all_goals
        next hbox =>
          rw [hbox] at hword
          exact hword
    next => cases h

/-- So the assembler of the LMC inverts its disassembler. -/
theorem assembledBy : Dialect.lmc.AssembledBy assemble := by
  intro s address
  cases hword : Instruction.ofWord? (s 0) with
  | some i =>
    have hshown : Dialect.lmc.shown s address = (i.text, 1) := by
      simp only [Dialect.shown, Dialect.lmc, decode, hword]
      rfl
    rw [hshown, i.assemble_text, Instruction.word_of_ofWord? hword]
    rfl
  | none =>
    have hshown : Dialect.lmc.shown s address = (s!"dat {(s 0).toNat}", 1) := by
      simp only [Dialect.shown, Dialect.lmc, decode, hword]
      rfl
    rw [hshown, assemble_dat, UInt16.ofNat_toNat]
    rfl

end Lmc

/-! ## The Synacor machine -/

namespace Synacor

namespace Op

def all : List Op :=
  [halt, set, push, pop, eq, gt, jmp, jt, jf, add, mult, mod, and, or, not, rmem, wmem, call, ret,
    out, inp, noop]

def ofName? (name : List Char) : Option Op := all.find? (·.name.toList == name)

/-- Operations are told apart by their names. -/
theorem ofName?_name (op : Op) : ofName? op.name.toList = some op := by
  cases op <;> decide

/-- A name ends at the first blank. -/
theorem blank_notMem_name (op : Op) : ' ' ∉ op.name.toList := by
  cases op <;> decide

theorem code_of_ofCode? {n : Word} {op : Op} (h : ofCode? n.toNat = some op) : op.code = n := by
  unfold ofCode? at h
  split at h
  all_goals cases h
  all_goals next hn => exact UInt16.toNat_inj.mp hn.symm

end Op

/-- The character in front of the closing quote. Of a line feed, two characters
are shown. -/
def quotedWord : List Char → Word
  | [c, _] => UInt16.ofNat c.toNat
  | _ => 10

/-- The word that an operand stands for. -/
def operandWord (cs : List Char) : Word :=
  if cs.head? = some 'r' then modulus + Text.number cs.tail
  else if cs.head? = some '\'' then quotedWord cs.tail
  else Text.number cs

/-- The words that a text stands for. -/
def assemble (text : String) : List Word :=
  let ws := (Text.operands text.toList).map operandWord
  match Op.ofName? (Text.mnemonic text.toList) with
  | some op => op.code :: ws
  | none => ws

/-- A number is read back from its digits. -/
theorem operandWord_digits (w n : Nat) :
    operandWord (Text.digits 10 w n) = UInt16.ofNat n := by
  have hr : 'r' ∉ Text.digits 10 w n := Text.notMem_digits (by decide) (by decide) rfl w n
  have hquote : '\'' ∉ Text.digits 10 w n := Text.notMem_digits (by decide) (by decide) rfl w n
  unfold operandWord
  rw [if_neg fun h => hr (List.mem_of_head? h), if_neg fun h => hquote (List.mem_of_head? h),
    Text.number_digits]

namespace Arg

/-- The word that an argument is decoded from. -/
def word : Arg → Word
  | lit n => n
  | reg r => modulus + UInt16.ofNat r.val

/-- A word below the registers or among them makes an argument, which stands for it. -/
theorem word_of_ofWord? {w : Word} {a : Arg} (h : ofWord? w = some a) : a.word = w := by
  unfold ofWord? at h
  split at h
  next =>
    cases h
    rfl
  next hlit =>
    split at h
    next hreg =>
      have hlit := UInt16.not_lt.mp hlit
      have hbound : (w - modulus).toNat < 8 := by
        rw [UInt16.toNat_sub_of_le _ _ hlit]
        exact Nat.sub_lt_left_of_lt_add (UInt16.le_iff_toNat_le.mp hlit)
          (UInt16.lt_iff_toNat_lt.mp hreg)
      have hindex : (Fin.ofNat 8 (w - modulus).toNat).val = (w - modulus).toNat :=
        Nat.mod_eq_of_lt hbound
      cases h
      rw [word, hindex, UInt16.ofNat_toNat, UInt16.add_comm, UInt16.sub_add_cancel]
    next => cases h

/-- A number in decimal, or the letter of the registers and a digit. -/
theorem toList_text (a : Arg) :
    a.text.toList =
      match a with
      | lit n => Text.digits 10 0 n.toNat
      | reg r => 'r' :: Text.digits 10 0 r.val := by
  cases a with
  | lit n =>
    show (toString (toString n.toNat)).toList = _
    rw [Text.toString_eq_digits]
    exact String.toList_ofList
  | reg r =>
    show ("r" ++ toString r.val).toList = _
    rw [Text.toString_eq_digits, String.toList_append]
    exact congrArg ('r' :: ·) String.toList_ofList

/-- An argument is read back from its text. -/
theorem operandWord_text (a : Arg) : operandWord a.text.toList = a.word := by
  rw [toList_text]
  cases a with
  | lit n => rw [operandWord_digits, UInt16.ofNat_toNat, word]
  | reg r =>
    show modulus + Text.number (Text.digits 10 0 r.val) = _
    rw [Text.number_digits, word]

/-- No argument has a comma in it that would split it. -/
theorem comma_notMem_text (a : Arg) : ',' ∉ a.text.toList := by
  have hcomma (n : Nat) : ',' ∉ Text.digits 10 0 n :=
    Text.notMem_digits (by decide) (by decide) rfl 0 n
  rw [toList_text]
  cases a with
  | lit n => exact hcomma _
  | reg r => exact List.not_mem_cons_of_ne_of_not_mem (by decide) (hcomma _)

/-- So all of them are read back, one by one. -/
theorem operands_texts {as : List Arg} (hne : as ≠ []) :
    (Text.splitOperands (", ".intercalate (as.map text)).toList).map operandWord =
      as.map word := by
  have hsplit : Text.splitOperands ([',', ' '].intercalate (as.map fun a => a.text.toList)) =
      as.map fun a => a.text.toList := by
    refine Text.splitOperands_intercalate (List.map_eq_nil_iff.not.mpr hne) fun o ho => ?_
    obtain ⟨a, -, rfl⟩ := List.mem_map.mp ho
    exact a.comma_notMem_text
  rw [String.toList_intercalate, List.map_map]
  show (Text.splitOperands ([',', ' '].intercalate (as.map fun a => a.text.toList))).map _ = _
  rw [hsplit, List.map_map]
  exact List.map_congr_left fun a _ => a.operandWord_text

end Arg

/-- A visible character stands for its own number. -/
theorem toNat_ofNat_visible {n : Word} (h : 0x20 ≤ n ∧ n < 0x7f) :
    (Char.ofNat n.toNat).toNat = n.toNat := by
  have hall : ∀ n < 0x7f, (Char.ofNat n).toNat = n := by decide
  exact hall _ (UInt16.lt_iff_toNat_lt.mp h.2)

/-- The operand of `out` is one operand too, even where it shows a comma. -/
theorem operands_charText (a : Arg) :
    (Text.splitOperands (charText a).toList).map operandWord = [a.word] := by
  have htext : (Text.splitOperands a.text.toList).map operandWord = [a.word] := by
    rw [Text.splitOperands_of_notMem a.comma_notMem_text, List.map_singleton, a.operandWord_text]
  unfold charText
  split
  next c =>
    split
    next hfeed =>
      subst hfeed
      decide
    next =>
      split
      next hvisible =>
        rw [String.toList_ofList, Text.splitOperands_quoted, List.map_singleton]
        show [UInt16.ofNat (Char.ofNat c.toNat).toNat] = [c]
        rw [toNat_ofNat_visible hvisible, UInt16.ofNat_toNat]
      next => exact htext
  next => exact htext

/-- An operation without arguments is one word. -/
theorem assemble_name (op : Op) : assemble op.name = [op.code] := by
  unfold assemble
  rw [Text.operands_of_notMem op.blank_notMem_name, Text.mnemonic_of_notMem op.blank_notMem_name,
    Op.ofName?_name]
  rfl

/-- An operation with arguments is as many more words. -/
theorem assemble_spelled (op : Op) (field : String) :
    assemble (s!"{op.name} " ++ field) =
      op.code :: (Text.splitOperands field.toList).map operandWord := by
  have hlead : (s!"{op.name} ").toList = op.name.toList ++ [' '] := String.toList_append
  unfold assemble
  rw [Text.toList_spelled hlead, Text.operands_spelled op.blank_notMem_name,
    Text.mnemonic_spelled op.blank_notMem_name, Op.ofName?_name]

namespace Instruction

/-- The words that an instruction is decoded from. -/
def words (i : Instruction) : List Word := i.op.code :: i.args.map Arg.word

/-- So the text of a Synacor instruction has all its words in it. -/
theorem assemble_text (i : Instruction) : assemble i.text = i.words := by
  -- `out` alone shows its argument as a character
  by_cases hout : i.op = .out
  · obtain ⟨a, rfl⟩ : ∃ a, i = .out a := by
      cases i <;> first | exact ⟨_, rfl⟩ | cases hout
    show assemble (s!"{Op.out.name} " ++ ", ".intercalate [charText a]) = _
    rw [assemble_spelled, String.intercalate_singleton, operands_charText]
    rfl
  · unfold text words
    rw [if_neg hout]
    cases i.args with
    | nil => exact assemble_name i.op
    | cons a as =>
      show assemble (s!"{i.op.name} " ++ ", ".intercalate ((a :: as).map Arg.text)) = _
      rw [assemble_spelled, Arg.operands_texts (List.cons_ne_nil a as)]

end Instruction

/-- An instruction is decoded from its own words. -/
theorem words_of_decode {s : Stream Word} {d : Decoded Instruction} (h : decode s = .ok d) :
    d.instruction.words = (List.range d.length).map s := by
  have hread := readFrom_of_decode h
  have hargs : d.instruction.args.map Arg.word =
      (List.range d.instruction.args.length).map fun j => s (j + 1) := by
    apply List.ext_getElem
    · rw [List.length_map, List.length_map, List.length_range]
    · intro j hj _
      rw [List.getElem_map, List.getElem_map, List.getElem_range]
      rw [List.length_map] at hj
      exact Arg.word_of_ofWord? (hread.args j _ (List.getElem?_eq_getElem hj))
  rw [hread.length, Instruction.length, Nat.add_comm, List.range_succ_eq_map, List.map_cons,
    List.map_map, Instruction.words, Op.code_of_ofCode? hread.op, hargs]
  rfl

/-- A word that names no operation, with a number behind it. -/
theorem assemble_number {name lead : String} (hlead : lead.toList = name.toList ++ [' '])
    (hblank : ' ' ∉ name.toList) (hname : Op.ofName? name.toList = none) (w n : Nat) :
    assemble (lead ++ String.ofList (Text.digits 10 w n)) = [UInt16.ofNat n] := by
  have hcomma : ',' ∉ Text.digits 10 w n := Text.notMem_digits (by decide) (by decide) rfl w n
  unfold assemble
  rw [Text.toList_spelled hlead, String.toList_ofList, Text.operands_spelled hblank,
    Text.mnemonic_spelled hblank, hname, Text.splitOperands_of_notMem hcomma]
  exact congrArg (fun v => [v]) (operandWord_digits w n)

/-- A word that is no instruction is written as data, and read back. -/
theorem assemble_dw (n : Nat) : assemble s!"dw {n}" = [UInt16.ofNat n] := by
  have hlead : "dw ".toList = "dw".toList ++ [' '] := by decide
  show assemble ("dw " ++ toString n) = _
  rw [Text.toString_eq_digits]
  exact assemble_number hlead (by decide) (by decide) 0 n

/-- So the assembler of the Synacor machine inverts its disassembler. -/
theorem assembledBy : Dialect.synacor.AssembledBy assemble := by
  intro s address
  cases hdecode : decode s with
  | ok d =>
    have hshown : Dialect.synacor.shown s address = (d.instruction.text, d.length) := by
      simp only [Dialect.shown, Dialect.synacor, hdecode]
      rfl
    rw [hshown, d.instruction.assemble_text, words_of_decode hdecode]
  | error u =>
    have hshown : Dialect.synacor.shown s address = (s!"dw {(s 0).toNat}", 1) := by
      simp only [Dialect.shown, Dialect.synacor, hdecode]
      rfl
    rw [hshown, assemble_dw, UInt16.ofNat_toNat]
    rfl

end Synacor

/-- On the machines that work on words, the texts of a disassembly determine a
file of known length. -/
theorem word_disassembly_injective (n : Nat) (origin : Word) :
    (Function.Injective fun cells : Vector Word n =>
      Dialect.lmc.texts cells.toArray origin) ∧
    Function.Injective fun cells : Vector Word n =>
      Dialect.synacor.texts cells.toArray origin :=
  ⟨Dialect.texts_injective Dialect.bounded_lmc Lmc.assembledBy n origin,
    Dialect.texts_injective Dialect.bounded_synacor Synacor.assembledBy n origin⟩

end Retrocore
