import Retrocore.Proofs.Disassembly.Locality
import Retrocore.Proofs.Z80.Prefixed

/-!
# The grammar of the Z80's instructions

The first bytes of a stream select one of five tables, and one of them is looked up
in it (`Entry`). Two of the tables have holes (`Hole`): the extended one is full in
its second quarter only, and holds sixteen block instructions besides; the indexed
one has no entry for another prefix. That is the whole grammar: a stream starts
with an entry or with a hole (`decode_eq_ok_iff`, `decode_eq_error_iff`).

How many bytes an entry takes is told by its operands. An entry of the root table
is the same for two streams if and only if they agree on just these
(`decodeRoot_eq_iff`): nothing behind them is looked at, and all of them can be
read back off the instruction.
-/

namespace Retrocore

/-- Where in an instruction the byte stands that is looked up in the table. The
distance of an indexed cell comes before it. -/
def OpcodeTable.position : OpcodeTable → Nat
  | .root => 0
  | .bits | .extended | .indexed => 1
  | .indexedBits => 3

namespace Stream

variable {κ : Type}

/-- Cells can be dropped at once or one after the other. -/
theorem drop_drop (s : Stream κ) (m n : Nat) : (s.drop m).drop n = s.drop (m + n) := by
  funext i
  show s (m + (n + i)) = s (m + n + i)
  rw [Nat.add_assoc]

/-- A stream is its first cell and the rest. -/
theorem cons_drop (s : Stream κ) : cons (s 0) (s.drop 1) = s := by
  funext i
  cases i with
  | zero => rfl
  | succ i =>
    show s (1 + i) = s (i + 1)
    rw [Nat.add_comm]

/-- Streams that agree behind their first cells. -/
theorem agree_drop_iff {s t : Stream κ} {m n : Nat} :
    (∀ j < n, t.drop m j = s.drop m j) ↔ ∀ j < m + n, m ≤ j → t j = s j := by
  constructor
  · intro h j hj hm
    have hcell : t (m + (j - m)) = s (m + (j - m)) := h (j - m) (by omega)
    rwa [Nat.add_sub_cancel' hm] at hcell
  · intro h j hj
    exact h (m + j) (by omega) (by omega)

/-- A word is its two bytes. -/
theorem word_eq_iff {s t : Stream Byte} :
    t.word 0 = s.word 0 ↔ ∀ i < 2, t i = s i := by
  constructor
  · intro h i hi
    have hlow : t 0 = s 0 := by
      have := congrArg lowByte h
      rwa [word, word, lowByte_wordOf, lowByte_wordOf] at this
    have hhigh : t 1 = s 1 := by
      have := congrArg highByte h
      rwa [word, word, highByte_wordOf, highByte_wordOf] at this
    rcases i with _ | _ | i
    · exact hlow
    · exact hhigh
    · omega
  · intro h
    exact word_congr (h 0 (by omega)) (h 1 (by omega))

end Stream

namespace Z80

/-! ## Operands -/

section

variable {s t : Stream Byte}

/-- An entry without operands. -/
theorem fixed_eq_iff (i : Instruction) :
    (i, 0) = (i, 0) ↔ ∀ j < 0, t j = s j :=
  iff_of_true rfl fun j hj => absurd hj (Nat.not_lt_zero j)

/-- A register needs no byte of the stream. -/
theorem Place.ofCode_eq_of_ne (index : Option Index) {code : Nat} (hcode : code ≠ 6)
    (d e : Byte) : Place.ofCode index d code = Place.ofCode index e code := by
  cases index with
  | none =>
    obtain ⟨which, hplace, _⟩ := Place.ofCode_of_ne .ix hcode
    rw [hplace, hplace]
  | some x =>
    obtain ⟨which, _, hplace⟩ := Place.ofCode_of_ne x hcode
    rw [hplace, hplace]

/-- A cell at a distance is the one place that does. -/
theorem place_eq_iff (index : Option Index) (code : Nat) :
    Place.ofCode index (t 0) code = Place.ofCode index (s 0) code ↔
      ∀ j < distanceCells index code, t j = s j := by
  unfold distanceCells
  by_cases hdistance : code = 6 ∧ index.isSome
  · rw [if_pos hdistance]
    obtain ⟨rfl, hsome⟩ := hdistance
    obtain ⟨x, rfl⟩ := Option.isSome_iff_exists.mp hsome
    show Place.idx x (t 0) = Place.idx x (s 0) ↔ _
    rw [Place.idx.injEq]
    constructor
    · rintro ⟨_, h⟩ j hj
      obtain rfl : j = 0 := by omega
      exact h
    · intro h
      exact ⟨rfl, h 0 (by omega)⟩
  · rw [if_neg hdistance]
    refine iff_of_true ?_ fun j hj => absurd hj (Nat.not_lt_zero j)
    by_cases hcode : code = 6
    · subst hcode
      cases index with
      | none => rfl
      | some x => exact absurd ⟨rfl, rfl⟩ hdistance
    · exact Place.ofCode_eq_of_ne index hcode _ _

/-- The load of an immediate byte to a place: the byte comes last. -/
theorem immediate_eq_iff (index : Option Index) (code : Nat) :
    (Instruction.ld (Place.ofCode index (t 0) code) (.imm (t (distanceCells index code))),
        distanceCells index code + 1) =
      (Instruction.ld (Place.ofCode index (s 0) code) (.imm (s (distanceCells index code))),
        distanceCells index code + 1) ↔
      ∀ j < distanceCells index code + 1, t j = s j := by
  rw [Prod.mk.injEq, Instruction.ld.injEq, Operand.imm.injEq, place_eq_iff]
  constructor
  · rintro ⟨⟨hplace, hlast⟩, _⟩ j hj
    by_cases hj' : j < distanceCells index code
    · exact hplace j hj'
    · obtain rfl : j = distanceCells index code := by omega
      exact hlast
  · intro h
    exact ⟨⟨fun j hj => h j (by omega), h _ (by omega)⟩, rfl⟩

/-- Between registers no byte is read behind the opcode. -/
theorem registers_eq_iff (index : Option Index) {dst src : Nat} (hdst : dst ≠ 6)
    (hsrc : src ≠ 6) :
    (Instruction.ld (Place.ofCode index (t 0) dst) (.place (Place.ofCode index (t 0) src)), 0) =
        (Instruction.ld (Place.ofCode index (s 0) dst)
          (.place (Place.ofCode index (s 0) src)), 0) ↔
      ∀ j < 0, t j = s j := by
  rw [Place.ofCode_eq_of_ne index hdst (t 0) (s 0), Place.ofCode_eq_of_ne index hsrc (t 0) (s 0)]
  exact fixed_eq_iff _

/-- **An entry of the root table is made of its operands.** Another stream gives the
same if and only if it agrees on all cells that they take. -/
theorem decodeRoot_eq_iff {index : Option Index} {opcode : Byte} {e : Instruction × Nat}
    (h : decodeRoot index opcode s = e) :
    decodeRoot index opcode t = e ↔ ∀ j < e.2, t j = s j := by
  subst h
  unfold decodeRoot
  dsimp only
  generalize Fields.of opcode = fields
  obtain ⟨fx, fy, fz, fp, fq⟩ := fields
  dsimp only
  repeat' split
  -- in the end it is about a byte, a word or a place, unless there is no operand
  all_goals
    first
    | exact fixed_eq_iff _
    | exact registers_eq_iff index (by assumption) (by assumption)
    | exact immediate_eq_iff index fy
    | simp [Stream.word_eq_iff, place_eq_iff]

/-- In the extended table only the loads of pairs from and to cells have
operands. -/
theorem decodeExtended_eq_iff {opcode : Byte} {e : Instruction × Nat}
    (h : decodeExtended opcode s = some e) :
    decodeExtended opcode t = some e ↔ ∀ j < e.2, t j = s j := by
  have hentries : decodeExtended opcode t = decodeExtended opcode s ↔
      ∀ e ∈ decodeExtended opcode s, ∀ j < e.2, t j = s j := by
    unfold decodeExtended
    dsimp only
    generalize Fields.of opcode = fields
    obtain ⟨fx, fy, fz, fp, fq⟩ := fields
    dsimp only
    repeat' split
    all_goals simp [Stream.word_eq_iff]
  rw [h] at hentries
  rw [hentries]
  exact ⟨fun hagree => hagree e rfl, fun hagree e' he => by cases he; exact hagree⟩

end

/-! ## Entries and holes -/

/-- A byte for which there is an instruction behind ED. -/
def InExtended (opcode : Byte) : Prop :=
  (0x40 ≤ opcode ∧ opcode ≤ 0x7f) ∨
  (0xa0 ≤ opcode ∧ opcode ≤ 0xa3) ∨ (0xa8 ≤ opcode ∧ opcode ≤ 0xab) ∨
  (0xb0 ≤ opcode ∧ opcode ≤ 0xb3) ∨ (0xb8 ≤ opcode ∧ opcode ≤ 0xbb)

/-- The holes of the extended table are the opcodes it does not list. -/
theorem decodeExtended_eq_none_iff (opcode : Byte) (s : Stream Byte) :
    decodeExtended opcode s = none ↔ ¬ InExtended opcode := by
  have hfields : InExtended opcode ↔ opcode.toNat / 64 = 1 ∨
      opcode.toNat / 64 = 2 ∧ opcode.toNat % 8 < 4 ∧ 4 ≤ opcode.toNat / 8 % 8 := by
    unfold InExtended
    simp only [UInt8.le_iff_toNat_le, UInt8.reduceToNat]
    omega
  rw [hfields]
  unfold decodeExtended Fields.of
  dsimp only
  repeat' split
  all_goals
    first
    | exact iff_of_false (Option.some_ne_none _) (not_not_intro (by omega))
    | exact iff_of_true rfl (by omega)
    | exact iff_of_true rfl (by rintro (h | ⟨h, _⟩) <;> contradiction)

/-- The instruction that stands at the start of a stream, with the table that its
first bytes select and the byte that is looked up there. -/
inductive Entry (s : Stream Byte) : Decoded Instruction → Prop
  | root {i : Instruction} {operands : Nat} (hopcode : s 0 ∉ prefixBytes)
      (hentry : decodeRoot none (s 0) (s.drop 1) = (i, operands)) :
      Entry s ⟨i, .root, s 0, 1 + operands, 1⟩
  | bits (hlead : s 0 = 0xcb) :
      Entry s ⟨decodeBits (s 1) (Place.ofCode none 0 (s 1 % 8).toNat) none, .bits, s 1, 2, 2⟩
  | extended {i : Instruction} {operands : Nat} (hlead : s 0 = 0xed)
      (hentry : decodeExtended (s 1) (s.drop 2) = some (i, operands)) :
      Entry s ⟨i, .extended, s 1, 2 + operands, 2⟩
  | indexed {x : Index} {i : Instruction} {operands : Nat} (hlead : s 0 = x.announcement)
      (hopcode : s 1 ∉ prefixBytes)
      (hentry : decodeRoot (some x) (s 1) (s.drop 2) = (i, operands)) :
      Entry s ⟨i, .indexed, s 1, 2 + operands, 2⟩
  /-- Beside the cell at a distance, a field may name a register for a copy. -/
  | indexedBits {x : Index} (hlead : s 0 = x.announcement) (hbits : s 1 = 0xcb) :
      Entry s ⟨decodeBits (s 3) (.idx x (s 2))
        (if s 3 % 8 = 6 then none else some (Reg.ofCode (s 3 % 8).toNat)), .indexedBits, s 3, 4, 2⟩

/-- The stream starts with two bytes for which the table has no entry. -/
inductive Hole (s : Stream Byte) : OpcodeTable → Prop
  | extended (hlead : s 0 = 0xed) (hopcode : ¬ InExtended (s 1)) : Hole s .extended
  | indexed (hlead : s 0 = 0xdd ∨ s 0 = 0xfd) (hopcode : s 1 = 0xdd ∨ s 1 = 0xed ∨ s 1 = 0xfd) :
      Hole s .indexed

section

variable {s t : Stream Byte} {d : Decoded Instruction}

theorem notMem_prefixBytes {o : Byte} (hcb : o ≠ 0xcb) (hdd : o ≠ 0xdd) (hed : o ≠ 0xed)
    (hfd : o ≠ 0xfd) : o ∉ prefixBytes := by
  simp [prefixBytes, hcb, hdd, hed, hfd]

/-- An index prefix leaves the rest to the indexed table. -/
theorem decode_of_announced {x : Index} (h : s 0 = x.announcement) :
    decode s = decodeIndexed x (s.drop 1) := by
  rw [← decode_announced, ← h, Stream.cons_drop]

/-- Everything that the grammar has is decoded. -/
theorem decode_of_entry (h : Entry s d) : decode s = .ok d := by
  cases h with
  | root hopcode hentry =>
    have hdecode := decode_unprefixed hopcode (s.drop 1)
    rwa [Stream.cons_drop, hentry] at hdecode
  | bits hlead =>
    unfold decode
    simp only [hlead]
  | extended hlead hentry =>
    unfold decode
    simp only [hlead, hentry]
  | indexed hlead hopcode hentry =>
    rename_i x i operands
    have hdecode := decodeIndexed_unprefixed x hopcode (s.drop 2)
    have hrest : Stream.cons (s 1) (s.drop 2) = s.drop 1 := by
      rw [← Stream.drop_drop s 1 1]
      exact Stream.cons_drop (s.drop 1)
    rw [decode_of_announced hlead, ← hrest, hdecode, hentry]
  | indexedBits hlead hbits =>
    have hbits : s.drop 1 0 = 0xcb := hbits
    rw [decode_of_announced hlead]
    unfold decodeIndexed
    simp only [hbits]
    rfl

/-- What the indexed table decodes has an entry behind its prefix. -/
theorem entry_of_decodeIndexed {x : Index} (hlead : s 0 = x.announcement)
    (h : decodeIndexed x (s.drop 1) = .ok d) : Entry s d := by
  unfold decodeIndexed at h
  split at h
  next hbits =>
    cases h
    exact .indexedBits hlead hbits
  next => cases h
  next => cases h
  next => cases h
  next hcb hdd hed hfd =>
    cases h
    refine .indexed hlead (notMem_prefixBytes hcb hdd hed hfd) ?_
    rw [← Stream.drop_drop s 1 1]
    rfl

/-- And everything that is decoded is in the grammar. -/
theorem entry_of_decode (h : decode s = .ok d) : Entry s d := by
  unfold decode at h
  split at h
  next hlead =>
    cases h
    exact .bits hlead
  next hlead =>
    split at h
    next hentry =>
      cases h
      exact .extended hlead hentry
    next => cases h
  next hlead => exact entry_of_decodeIndexed (x := .ix) hlead h
  next hlead => exact entry_of_decodeIndexed (x := .iy) hlead h
  next hcb hed hdd hfd =>
    cases h
    exact .root (notMem_prefixBytes hcb hdd hed hfd) rfl

/-- Behind an index prefix the holes are the other prefixes. -/
theorem hole_of_decodeIndexed {x : Index} {u : Undecodable} (hlead : s 0 = 0xdd ∨ s 0 = 0xfd)
    (h : decodeIndexed x (s.drop 1) = .error u) :
    ∃ table, Hole s table ∧ u = ⟨(s 1).toUInt16, table, 2, 2⟩ := by
  unfold decodeIndexed at h
  split at h
  next => cases h
  next hopcode =>
    cases h
    exact ⟨_, .indexed hlead (.inl hopcode), rfl⟩
  next hopcode =>
    cases h
    exact ⟨_, .indexed hlead (.inr (.inl hopcode)), rfl⟩
  next hopcode =>
    cases h
    exact ⟨_, .indexed hlead (.inr (.inr hopcode)), rfl⟩
  next => cases h

/-- The grammar is what the decoder accepts. -/
theorem decode_eq_ok_iff : decode s = .ok d ↔ Entry s d :=
  ⟨entry_of_decode, decode_of_entry⟩

/-- Decoding fails at a hole and nowhere else. It has read two opcodes by then. -/
theorem decode_eq_error_iff {u : Undecodable} :
    decode s = .error u ↔ ∃ table, Hole s table ∧ u = ⟨(s 1).toUInt16, table, 2, 2⟩ := by
  constructor
  · intro h
    unfold decode at h
    split at h
    next => cases h
    next hlead =>
      split at h
      next => cases h
      next hnone =>
        cases h
        exact ⟨_, .extended hlead ((decodeExtended_eq_none_iff _ _).mp hnone), rfl⟩
    next hlead => exact hole_of_decodeIndexed (.inl hlead) h
    next hlead => exact hole_of_decodeIndexed (.inr hlead) h
    next => cases h
  · rintro ⟨table, hhole, rfl⟩
    cases hhole with
    | extended hlead hopcode =>
      have hnone := (decodeExtended_eq_none_iff (s 1) (s.drop 2)).mpr hopcode
      unfold decode
      simp only [hlead, hnone]
    | indexed hlead hopcode =>
      obtain ⟨x, hx⟩ : ∃ x : Index, s 0 = x.announcement := by
        rcases hlead with hlead | hlead
        · exact ⟨.ix, hlead⟩
        · exact ⟨.iy, hlead⟩
      rw [decode_of_announced hx]
      have hsecond : s.drop 1 0 = s 1 := rfl
      unfold decodeIndexed
      rcases hopcode with hopcode | hopcode | hopcode <;>
        simp only [hsecond, hopcode]

/-! ## What an entry takes -/

/-- The opcode is read from the position that its table gives it. -/
theorem Entry.opcode_eq (h : Entry s d) : d.opcode = s d.table.position := by
  cases h <;> rfl

/-- Two opcode fetches, unless there is no prefix. -/
theorem Entry.fetches_eq (h : Entry s d) : d.fetches = if d.table = .root then 1 else 2 := by
  cases h <;> rfl

/-- The cells that it takes are all that an entry depends on. -/
theorem Entry.of_agree (h : Entry s d) (hagree : ∀ j < d.length, t j = s j) : Entry t d := by
  have hfirst : t 0 = s 0 := hagree 0 (decode_length_pos (decode_of_entry h))
  cases h with
  | root hopcode hentry =>
    have hentry' := (decodeRoot_eq_iff hentry).mpr
      (Stream.agree_drop_iff.mpr fun j hj _ => hagree j hj)
    rw [← hfirst] at hopcode hentry' ⊢
    exact .root hopcode hentry'
  | bits hlead =>
    have hsecond : t 1 = s 1 := hagree 1 Nat.one_lt_two
    rw [← hfirst] at hlead
    rw [← hsecond]
    exact .bits hlead
  | extended hlead hentry =>
    have hsecond : t 1 = s 1 := hagree 1 (Nat.lt_add_right _ Nat.one_lt_two)
    have hentry' := (decodeExtended_eq_iff hentry).mpr
      (Stream.agree_drop_iff.mpr fun j hj _ => hagree j hj)
    rw [← hfirst] at hlead
    rw [← hsecond] at hentry' ⊢
    exact .extended hlead hentry'
  | indexed hlead hopcode hentry =>
    have hsecond : t 1 = s 1 := hagree 1 (Nat.lt_add_right _ Nat.one_lt_two)
    have hentry' := (decodeRoot_eq_iff hentry).mpr
      (Stream.agree_drop_iff.mpr fun j hj _ => hagree j hj)
    rw [← hfirst] at hlead
    rw [← hsecond] at hopcode hentry' ⊢
    exact .indexed hlead hopcode hentry'
  | indexedBits hlead hbits =>
    have hcells : ∀ j < 4, t j = s j := hagree
    rw [← hfirst] at hlead
    rw [← hcells 1 (by omega)] at hbits
    rw [← hcells 2 (by omega), ← hcells 3 (by omega)]
    exact .indexedBits hlead hbits

/-- The target of a bit instruction can be read back off it. -/
theorem decodeBits_target {opcode : Byte} {target target' : Place} {copy copy' : Option Reg}
    (h : decodeBits opcode target copy = decodeBits opcode target' copy') : target = target' := by
  unfold decodeBits at h
  dsimp only at h
  split at h <;>
    cases h <;> rfl

/-- The two prefixes tell the index registers apart. -/
theorem Index.announcement_inj {x y : Index} (h : x.announcement = y.announcement) : x = y := by
  cases x <;> cases y <;> first | rfl | cases h

/-- It depends on all of them: the operands can be read back off the instruction.
The first byte is another matter, since often IX and IY make no difference. -/
theorem Entry.agree (hs : Entry s d) (ht : Entry t d) (hfirst : t 0 = s 0) :
    ∀ j < d.length, t j = s j := by
  have hopcode : t d.table.position = s d.table.position := ht.opcode_eq.symm.trans hs.opcode_eq
  generalize hd : d = e at ht
  intro j hj
  cases hs with
  | root _ hentry =>
    cases ht with
    | root _ hentry' =>
      obtain ⟨rfl, _, _, hlength, _⟩ := (Decoded.mk.injEq ..).mp hd
      obtain rfl := Nat.add_left_cancel hlength
      rw [hfirst] at hentry'
      have hoperands := Stream.agree_drop_iff.mp ((decodeRoot_eq_iff hentry).mp hentry')
      rcases j with _ | j
      · exact hfirst
      · exact hoperands _ hj (by omega)
    | _ => cases congrArg Decoded.table hd
  | bits _ =>
    have hsecond : t 1 = s 1 := hopcode
    obtain rfl | rfl : j = 0 ∨ j = 1 := by
      subst hd
      have hj : j < 2 := hj
      omega
    · exact hfirst
    · exact hsecond
  | extended _ hentry =>
    have hsecond : t 1 = s 1 := hopcode
    cases ht with
    | extended _ hentry' =>
      obtain ⟨rfl, _, _, hlength, _⟩ := (Decoded.mk.injEq ..).mp hd
      obtain rfl := Nat.add_left_cancel hlength
      rw [hsecond] at hentry'
      have hoperands := Stream.agree_drop_iff.mp ((decodeExtended_eq_iff hentry).mp hentry')
      rcases j with _ | _ | j
      · exact hfirst
      · exact hsecond
      · exact hoperands _ hj (by omega)
    | _ => cases congrArg Decoded.table hd
  | indexed hlead _ hentry =>
    have hsecond : t 1 = s 1 := hopcode
    cases ht with
    | indexed hlead' _ hentry' =>
      obtain ⟨rfl, _, _, hlength, _⟩ := (Decoded.mk.injEq ..).mp hd
      obtain rfl := Nat.add_left_cancel hlength
      obtain rfl := Index.announcement_inj (hlead.symm.trans (hfirst.symm.trans hlead'))
      rw [hsecond] at hentry'
      have hoperands := Stream.agree_drop_iff.mp ((decodeRoot_eq_iff hentry).mp hentry')
      rcases j with _ | _ | j
      · exact hfirst
      · exact hsecond
      · exact hoperands _ hj (by omega)
    | _ => cases congrArg Decoded.table hd
  | indexedBits _ hbits =>
    have hlast : t 3 = s 3 := hopcode
    cases ht with
    | indexedBits _ hbits' =>
      obtain ⟨hinstruction, _⟩ := (Decoded.mk.injEq ..).mp hd
      rw [hlast] at hinstruction
      obtain ⟨_, hdistance⟩ := (Place.idx.injEq ..).mp (decodeBits_target hinstruction)
      have hcells : j = 0 ∨ j = 1 ∨ j = 2 ∨ j = 3 := by
        have hj : j < 4 := hj
        omega
      rcases hcells with rfl | rfl | rfl | rfl
      · exact hfirst
      · exact hbits'.trans hbits.symm
      · exact hdistance.symm
      · exact hlast
    | _ => cases congrArg Decoded.table hd

/-! ## The decoder -/

/-- All that an instruction at the start of a stream comes to. -/
structure Reads (s : Stream Byte) (d : Decoded Instruction) : Prop where
  decodes : decode s = .ok d
  entry : Entry s d
  opcode : d.opcode = s d.table.position
  fetches : d.fetches = if d.table = .root then 1 else 2
  length_pos : 1 ≤ d.length
  length_le : d.length ≤ 4
  /-- Nothing behind the cells that it takes is looked at. -/
  sufficient : ∀ t : Stream Byte, (∀ j < d.length, t j = s j) → decode t = .ok d
  /-- And none of these is taken in vain. -/
  necessary : ∀ t : Stream Byte, t 0 = s 0 → decode t = .ok d → ∀ j < d.length, t j = s j

/-- So what is decoded depends on its own bytes alone. -/
theorem reads_of_decode (h : decode s = .ok d) : Reads s d := by
  have hentry := entry_of_decode h
  exact {
    decodes := h
    entry := hentry
    opcode := hentry.opcode_eq
    fetches := hentry.fetches_eq
    length_pos := decode_length_pos h
    length_le := decode_length_le h
    sufficient := fun t hagree => decode_of_entry (hentry.of_agree hagree)
    necessary := fun t hfirst ht => hentry.agree (entry_of_decode ht) hfirst }

end

/-- **The decoder accepts exactly its grammar.** It fails on the streams that start
with a hole, and then two opcodes have been read and the second is reported. All
others start with an instruction of one to four cells, which depends on these and
on nothing else. -/
theorem decode_accepts_grammar (s : Stream Byte) :
    (∀ u, decode s = .error u ↔ ∃ table, Hole s table ∧ u = ⟨(s 1).toUInt16, table, 2, 2⟩) ∧
    ((∃ d, Reads s d) ↔ ¬ ∃ table, Hole s table) := by
  refine ⟨fun u => decode_eq_error_iff, ?_, ?_⟩
  · rintro ⟨d, hreads⟩ ⟨table, hhole⟩
    have hfails := decode_eq_error_iff.mpr ⟨table, hhole, rfl⟩
    rw [hreads.decodes] at hfails
    cases hfails
  · intro hnone
    rcases hdecode : decode s with u | d
    · obtain ⟨table, hhole, _⟩ := decode_eq_error_iff.mp hdecode
      exact absurd ⟨table, hhole⟩ hnone
    · exact ⟨d, reads_of_decode hdecode⟩

end Z80

end Retrocore
