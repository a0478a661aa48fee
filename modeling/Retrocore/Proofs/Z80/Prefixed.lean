import Retrocore.Proofs.Z80.Renaming

/-!
# What a DD or FD prefix means

Behind a DD byte the opcodes of the root table mean what they mean without it,
with IX in the place of HL; behind an FD byte it is IY. There are two ways of
this, and which of them applies is seen from the plain instruction.

If it has the cell at HL for an operand, that operand alone is replaced, by a
cell at a distance from the index register. The distance follows the opcode, in
front of an immediate operand, and an H or L beside it stays as it is
(`Instruction.displaced`). Any other instruction has its operands renamed, H and
L to the halves of the index register and HL to all of it (`Renaming.forHl`); EX
DE,HL and EXX name no operands and stay what they are.

`decodeRoot_some` is this rule for the root table, one case for each shape of
its entries; `decode_prefixed` is the rule for streams, with the lengths. An
opcode that is no prefix itself is never refused, with a prefix or without.
-/

namespace Retrocore.Z80

/-- The bytes of the root table that hold no instruction of their own. -/
def prefixBytes : List Byte := [0xcb, 0xdd, 0xed, 0xfd]

/-- The byte that announces an index register. -/
def Index.announcement : Index → Byte
  | ix => 0xdd
  | iy => 0xfd

/-- An index register in the place of HL, and its halves in those of H and L. -/
def Renaming.forHl (x : Index) : Renaming where
  reg
    | .h => x.high
    | .l => x.low
    | which => which
  pair
    | .hl => x.pair
    | p => p
  index := id

/-! ## The cell at HL -/

def Place.isAtHl : Place → Bool
  | .at .hl => true
  | _ => false

def Operand.isAtHl : Operand → Bool
  | place p => p.isAtHl
  | imm _ => false

/-- The cell at HL is an operand. -/
def Instruction.isAtHl : Instruction → Bool
  | ld dst src => dst.isAtHl || src.isAtHl
  | alu _ src => src.isAtHl
  | inc target | dec target => target.isAtHl
  | _ => false

section

variable (x : Index) (d : Byte)

/-- A cell at a distance from an index register in the place of the cell at
HL. -/
def Place.displaced : Place → Place
  | .at .hl => .idx x d
  | p => p

def Operand.displaced : Operand → Operand
  | place p => .place (p.displaced x d)
  | imm v => .imm v

def Instruction.displaced : Instruction → Instruction
  | ld dst src => .ld (dst.displaced x d) (src.displaced x d)
  | alu op src => .alu op (src.displaced x d)
  | inc target => .inc (target.displaced x d)
  | dec target => .dec (target.displaced x d)
  | i => i

end

/-! ## The root table -/

section

variable (x : Index)

/-- What a prefix makes of an entry of the root table: of `plain` or, if there
is a distance `d`, of `behind`, whose operands begin behind the distance. -/
def prefixed (d : Byte) (plain behind : Instruction × Nat) : Instruction × Nat :=
  if plain.1.isAtHl then (behind.1.displaced x d, plain.2 + 1)
  else (plain.1.rename (.forHl x), plain.2)

/-- Behind an index prefix a field that names HL names the index register. -/
theorem Pair.ofCode_some (code : Nat) :
    Pair.ofCode (some x) code = (Renaming.forHl x).pair (Pair.ofCode none code) := by
  rcases code with _ | _ | _ | code <;> rfl

/-- So does a field that names a pair to push or pop. -/
theorem Pair.ofStackCode_some (code : Nat) :
    Pair.ofStackCode (some x) code = (Renaming.forHl x).pair (Pair.ofStackCode none code) := by
  rcases code with _ | _ | _ | _ | code <;> rfl

/-- A 3-bit field other than 6 names a register, with a prefix or without. -/
theorem Place.ofCode_of_ne {code : Nat} (hcode : code ≠ 6) :
    ∃ which, (∀ d, Place.ofCode none d code = .reg which) ∧
      ∀ d, Place.ofCode (some x) d code = .reg ((Renaming.forHl x).reg which) := by
  rcases code with _ | _ | _ | _ | _ | _ | _ | code
  case succ.succ.succ.succ.succ.succ.zero => exact absurd rfl hcode
  all_goals exact ⟨_, fun _ => rfl, fun _ => rfl⟩

/-- An instruction with one operand of a byte, which may be the cell at HL. -/
theorem prefixed_place (f : Place → Instruction) (hat : ∀ p, (f p).isAtHl = p.isAtHl)
    (hdisplaced : ∀ p d, (f p).displaced x d = f (p.displaced x d))
    (hrename : ∀ p, (f p).rename (.forHl x) = f (p.rename (.forHl x))) (code : Nat)
    (d e : Byte) :
    (f (Place.ofCode (some x) d code), distanceCells (some x) code) =
      prefixed x d (f (Place.ofCode none d code), distanceCells none code)
        (f (Place.ofCode none e code), distanceCells none code) := by
  unfold prefixed distanceCells
  by_cases hcode : code = 6
  · subst hcode
    have hat : (f (Place.ofCode none d 6)).isAtHl = true := hat _
    simp only [hat, hdisplaced]
    rfl
  · obtain ⟨which, hnone, hsome⟩ := Place.ofCode_of_ne x hcode
    have hat : (f (.reg which)).isAtHl = false := hat _
    simp only [hcode, false_and, if_false, hnone, hsome, hat, hrename]
    rfl

/-- A load of an immediate byte: with a distance, that comes first. -/
theorem prefixed_immediate (code : Nat) (s : Stream Byte) :
    (Instruction.ld (Place.ofCode (some x) (s 0) code) (.imm (s (distanceCells (some x) code))),
        distanceCells (some x) code + 1) =
      prefixed x (s 0)
        (.ld (Place.ofCode none (s 0) code) (.imm (s (distanceCells none code))),
          distanceCells none code + 1)
        (.ld (Place.ofCode none (s.drop 1 0) code) (.imm (s.drop 1 (distanceCells none code))),
          distanceCells none code + 1) := by
  unfold prefixed distanceCells
  by_cases hcode : code = 6
  · subst hcode
    rfl
  · obtain ⟨which, hnone, hsome⟩ := Place.ofCode_of_ne x hcode
    simp only [hcode, false_and, if_false, hnone, hsome]
    rfl

/-- A load from a register to a register. -/
theorem prefixed_registers {dst src : Nat} (hdst : dst ≠ 6) (hsrc : src ≠ 6) (d e : Byte) :
    (Instruction.ld (Place.ofCode (some x) d dst) (.place (Place.ofCode (some x) d src)), 0) =
      prefixed x d (.ld (Place.ofCode none d dst) (.place (Place.ofCode none d src)), 0)
        (.ld (Place.ofCode none e dst) (.place (Place.ofCode none e src)), 0) := by
  obtain ⟨target, htarget, htarget'⟩ := Place.ofCode_of_ne x hdst
  obtain ⟨source, hsource, hsource'⟩ := Place.ofCode_of_ne x hsrc
  simp only [htarget, htarget', hsource, hsource']
  rfl

/-- With a prefix, an entry of the root table means what the rule makes of its
plain meaning. -/
theorem decodeRoot_some (opcode : Byte) (s : Stream Byte) :
    decodeRoot (some x) opcode s =
      prefixed x (s 0) (decodeRoot none opcode s) (decodeRoot none opcode (s.drop 1)) := by
  unfold decodeRoot
  dsimp only
  -- the three of them part in the same way, by the fields of the opcode
  generalize Fields.of opcode = fields
  obtain ⟨fx, fy, fz, fp, fq⟩ := fields
  dsimp only
  repeat' split
  all_goals
    first
    | rfl
    | rw [Pair.ofCode_some]; rfl
    | rw [Pair.ofStackCode_some]; rfl
    | exact prefixed_place x .inc (fun _ => rfl) (fun _ _ => rfl) (fun _ => rfl) fy _ _
    | exact prefixed_place x .dec (fun _ => rfl) (fun _ _ => rfl) (fun _ => rfl) fy _ _
    | exact prefixed_place x (fun p => .alu (.ofCode fy) (.place p)) (fun _ => rfl)
        (fun _ _ => rfl) (fun _ => rfl) fz _ _
    | exact prefixed_immediate x fy s
    | exact prefixed_registers x (by assumption) (by assumption) _ _

end

/-! ## Streams -/

theorem ne_of_notMem_prefixBytes {o : Byte} (ho : o ∉ prefixBytes) :
    o ≠ 0xcb ∧ o ≠ 0xdd ∧ o ≠ 0xed ∧ o ≠ 0xfd := by
  simpa [prefixBytes] using ho

/-- Without a prefix, the root table says what an opcode means. -/
theorem decode_unprefixed {o : Byte} (ho : o ∉ prefixBytes) (s : Stream Byte) :
    decode (.cons o s) = .ok (.root o (decodeRoot none o s).1 (decodeRoot none o s).2) := by
  obtain ⟨hcb, hdd, hed, hfd⟩ := ne_of_notMem_prefixBytes ho
  unfold decode
  split
  next h => exact absurd h hcb
  next h => exact absurd h hed
  next h => exact absurd h hdd
  next h => exact absurd h hfd
  next =>
    rw [Stream.drop_cons]
    rfl

/-- DD and FD announce one index register each. -/
theorem decode_announced (x : Index) (s : Stream Byte) :
    decode (.cons x.announcement s) = decodeIndexed x s := by
  unfold decode
  rw [Stream.drop_cons]
  cases x with
  | ix =>
    split
    next h => exact absurd h (show (0xdd : Byte) ≠ 0xcb by decide)
    next h => exact absurd h (show (0xdd : Byte) ≠ 0xed by decide)
    next => rfl
    next h => exact absurd h (show (0xdd : Byte) ≠ 0xfd by decide)
    next hne _ => exact absurd rfl hne
  | iy =>
    split
    next h => exact absurd h (show (0xfd : Byte) ≠ 0xcb by decide)
    next h => exact absurd h (show (0xfd : Byte) ≠ 0xed by decide)
    next h => exact absurd h (show (0xfd : Byte) ≠ 0xdd by decide)
    next => rfl
    next hne => exact absurd rfl hne

/-- An opcode that is no prefix means what it does in the root table, with the names
changed. -/
theorem decodeIndexed_unprefixed (x : Index) {o : Byte} (ho : o ∉ prefixBytes) (s : Stream Byte) :
    decodeIndexed x (.cons o s) =
      .ok ⟨(decodeRoot (some x) o s).1, .indexed, o, 2 + (decodeRoot (some x) o s).2, 2⟩ := by
  obtain ⟨hcb, hdd, hed, hfd⟩ := ne_of_notMem_prefixBytes ho
  unfold decodeIndexed
  split
  next h => exact absurd h hcb
  next h => exact absurd h hdd
  next h => exact absurd h hed
  next h => exact absurd h hfd
  next =>
    rw [Stream.drop_cons]
    rfl

/-- **A DD or FD prefix replaces the cell at HL if that is an operand, and else
renames H, L and HL.** `behind` is what the opcode means with the cells that
follow the distance. -/
theorem decode_prefixed (x : Index) {o : Byte} (ho : o ∉ prefixBytes) (s : Stream Byte) :
    ∃ plain behind, decode (.cons o s) = .ok plain ∧ decode (.cons o (s.drop 1)) = .ok behind ∧
      decode (.cons x.announcement (.cons o s)) =
        .ok (if plain.instruction.isAtHl then
            ⟨behind.instruction.displaced x (s 0), .indexed, o, plain.length + 2, 2⟩
          else ⟨plain.instruction.rename (.forHl x), .indexed, o, plain.length + 1, 2⟩) := by
  refine ⟨_, _, decode_unprefixed ho s, decode_unprefixed ho (s.drop 1), ?_⟩
  rw [decode_announced, decodeIndexed_unprefixed x ho, decodeRoot_some]
  generalize decodeRoot none o s = plain
  generalize decodeRoot none o (s.drop 1) = behind
  obtain ⟨i, operands⟩ := plain
  show Except.ok _ = Except.ok (if i.isAtHl then _ else _)
  unfold prefixed
  by_cases hat : i.isAtHl
  · have hlength : 2 + (operands + 1) = 1 + operands + 2 := by omega
    rw [if_pos hat, if_pos hat]
    show Except.ok (Decoded.mk _ _ _ (2 + (operands + 1)) _) = _
    rw [hlength]
    rfl
  · have hlength : 2 + operands = 1 + operands + 1 := by omega
    rw [if_neg hat, if_neg hat]
    show Except.ok (Decoded.mk _ _ _ (2 + operands) _) = _
    rw [hlength]
    rfl

/-- LD (HL),n behind FD: the distance comes first, and then the byte. -/
theorem decode_prefixed_immediate :
    let s : Stream Byte := Stream.ofArray #[0x05, 0x99] 0
    (0x36 : Byte) ∉ prefixBytes ∧
    decode (.cons 0x36 s) = .ok ⟨.ld (.at .hl) (.imm 0x05), .root, 0x36, 2, 1⟩ ∧
    decode (.cons 0xfd (.cons 0x36 s)) =
      .ok ⟨.ld (.idx .iy 0x05) (.imm 0x99), .indexed, 0x36, 4, 2⟩ := by
  intro s
  have ho : (0x36 : Byte) ∉ prefixBytes := by decide
  obtain ⟨plain, behind, hplain, hbehind, hprefixed⟩ := decode_prefixed .iy ho s
  have hplain' : decode (.cons 0x36 s) = .ok ⟨.ld (.at .hl) (.imm 0x05), .root, 0x36, 2, 1⟩ :=
    (decode_unprefixed ho s).trans rfl
  have hbehind' : decode (.cons 0x36 (s.drop 1)) =
      .ok ⟨.ld (.at .hl) (.imm 0x99), .root, 0x36, 2, 1⟩ :=
    (decode_unprefixed ho (s.drop 1)).trans rfl
  obtain rfl := Except.ok.inj (hplain.symm.trans hplain')
  obtain rfl := Except.ok.inj (hbehind.symm.trans hbehind')
  exact ⟨ho, hplain, hprefixed⟩

end Retrocore.Z80
