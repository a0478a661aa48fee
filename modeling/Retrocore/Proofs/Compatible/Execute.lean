import Retrocore.Proofs.Compatible.Agree

/-!
# Counterparts have the same effect

`execute_agree`: from corresponding states, an instruction of the 8080 and its
counterpart on the Z80 end in corresponding states, and refuse the same inputs
and outputs. Loads, branches and port accesses, where the two machines are
written differently, come first; all other instructions are compositions of the
moves of `Agree`.
-/

namespace Retrocore.Compatible

variable {μ δ : Type} {m : I8080.Machine μ δ} {z : Z80.Machine μ δ}

namespace AgreeAfter

/-- Agreement does not look at costs. -/
theorem ok (h : Agree m z) (cycles cycles' : Nat) :
    AgreeAfter ⟨m, .ok cycles⟩ ⟨z, .ok cycles'⟩ :=
  ⟨h, rfl⟩

/-- The 8080 counts the cycles in each instruction and the Z80 in a table, which does
not matter here. -/
theorem free (h : Agree m z) (cycles : Nat) :
    AgreeAfter ⟨m, .ok cycles⟩ (.free z) :=
  ok h cycles 0

variable {r : Ran (I8080.Machine μ δ)} {s : Ran (Z80.Machine μ δ)}

theorem plus (h : AgreeAfter r s) (cycles : Nat) :
    AgreeAfter r (s.plus cycles) := by
  refine ⟨h.states, ?_⟩
  rw [Ran.fault?_plus]
  exact h.faults

theorem costing (h : AgreeAfter r s) (cycles : Nat) :
    AgreeAfter r (s.costing cycles) := by
  refine ⟨h.states, ?_⟩
  rw [Ran.fault?_costing]
  exact h.faults

end AgreeAfter

namespace Agree

/-! ## Loads -/

/-- The 8080 has no I and no R, from which alone a load sets flags. -/
theorem loadFlags_placeOf (dst r : I8080.Reg) (v : Byte) :
    z.loadFlags (placeOf dst) (.place (placeOf r)) v = z.flags := by
  cases dst <;> cases r <;> rfl

/-- A load is the store of what was read. -/
theorem ld [Mapper μ Byte] [Observer δ Byte Byte] (h : Agree m z) {src : Z80.Operand} {v : Byte}
    (hv : z.operand src = (v, z)) (r : I8080.Reg)
    (hflags : z.loadFlags (placeOf r) src v = z.flags) (cycles : Nat) :
    AgreeAfter ⟨m.setReg r v, .ok cycles⟩ (z.execute (.ld (placeOf r) src)) := by
  simp only [Z80.Machine.execute, hv, hflags]
  exact .free (h.assign r v) cycles

/-! ## Branches -/

/-- Conditions that both have are decided alike. -/
theorem taken (h : Agree m z) {when? : Option Condition}
    (hs : SameCondition when?) :
    z.taken when? = when?.all m.flags.satisfy := by
  cases when? with
  | none => rfl
  | some cc => exact (h.flags.satisfy hs).symm

variable [Mapper μ Byte] [Observer δ Byte Byte]

/-- Both return or both go on. -/
theorem ret (h : Agree m z) {when? : Option Condition} (hs : SameCondition when?) :
    AgreeAfter (m.execute (.ret when?)) (z.execute (.ret when?)) := by
  have htaken := h.taken hs
  cases when? with
  | none => exact .ok h.goBack _ _
  | some cc =>
    simp only [I8080.Machine.execute, Z80.Machine.execute, htaken, Option.all_some]
    split
    next => exact .ok h.goBack _ _
    next => exact .free h _

/-- Both jump or both go on. -/
theorem jmp (h : Agree m z) {when? : Option Condition} (hs : SameCondition when?)
    (address : Word) :
    AgreeAfter (m.execute (.jmp when? address)) (z.execute (.jp when? address)) := by
  have htaken := h.taken hs
  cases when? with
  | none => exact .free (h.jump address) _
  | some cc =>
    simp only [I8080.Machine.execute, Z80.Machine.execute, htaken, Option.all_some]
    split
    next => exact .free (h.jump address) _
    next => exact .free h _

/-- Both call or both go on. -/
theorem call (h : Agree m z) {when? : Option Condition} (hs : SameCondition when?)
    (address : Word) :
    AgreeAfter (m.execute (.call when? address)) (z.execute (.call when? address)) := by
  have htaken := h.taken hs
  cases when? with
  | none => exact .ok (h.callTo address) _ _
  | some cc =>
    simp only [I8080.Machine.execute, Z80.Machine.execute, htaken, Option.all_some]
    split
    next => exact .ok (h.callTo address) _ _
    next => exact .free h _

/-! ## Ports -/

/-- Both latch an output first and then let the observers hear of it. -/
theorem out (h : Agree m z) (port : Byte) :
    AgreeAfter (m.execute (.out port)) (z.execute (.outImm port)) := by
  have hwrite : m.ports.write port m.regs.a = z.ports.write port z.regs.a := by
    rw [h.ports, h.regs.a]
  refine ⟨{ h with ports := congrArg Prod.fst hwrite }, ?_⟩
  simp only [I8080.Machine.execute, Z80.Machine.execute, hwrite]
  cases (z.ports.write port z.regs.a).2 <;> rfl

/-- An input ends in the same value, or in the same refusal. -/
theorem inp (h : Agree m z) (port : Byte) :
    AgreeAfter (m.execute (.inp port)) (z.execute (.inImm port)) := by
  have hread : m.ports.read port = z.ports.read port := by
    rw [h.ports]
  rcases hanswer : z.ports.read port with ⟨ports, fault | v⟩
  · simp only [I8080.Machine.execute, Z80.Machine.execute, hread, hanswer]
    exact ⟨{ h with ports := rfl }, rfl⟩
  · simp only [I8080.Machine.execute, Z80.Machine.execute, hread, hanswer]
    refine .free ?_ _
    exact { h with ports := rfl, regs := { h.regs with a := rfl } }

end Agree

/-! ## All instructions -/

variable [Mapper μ Byte] [Observer δ Byte Byte]

/-- What a branch on a condition translates to, it translates to under a
condition that both processors judge alike. -/
theorem branchOn_eq_some {when? : Option Condition} {branch j : Z80.Instruction}
    (hj : branchOn when? branch = some j) : SameCondition when? ∧ branch = j := by
  unfold branchOn at hj
  split at hj
  next hs => exact ⟨hs, Option.some.inj hj⟩
  next => cases hj

/-- An instruction and its counterpart, from corresponding states. -/
theorem execute_agree (h : Agree m z) {i : I8080.Instruction} {j : Z80.Instruction}
    (hj : translate i = some j) : AgreeAfter (m.execute i) (z.execute j) := by
  cases i with
  | nop => cases hj; exact .free h _
  | lxi p v => cases hj; exact .free (h.setPair p v) _
  | stax p =>
    cases hj
    have hstore := h.store (m.pair p) m.regs.a
    rw [h.pair p, h.regs.a] at hstore
    refine .free ?_ _
    rw [h.pair p, h.regs.a]
    exact hstore
  | ldax p =>
    cases hj
    obtain ⟨v, hm, hz⟩ := h.read (m.pair p)
    rw [h.pair p] at hz
    have hz : z.operand (.place (.at (pairOf p))) = (v, z) := hz
    simp only [I8080.Machine.execute, hm]
    exact h.ld hz .a rfl _
  | shld address =>
    cases hj
    refine .free ?_ _
    rw [h.regs.hl]
    exact h.storeWord address _
  | lhld address =>
    cases hj
    obtain ⟨v, hm, hz⟩ := h.readWord address
    simp only [I8080.Machine.execute, Z80.Machine.execute, hm, hz]
    exact .free (h.setPair .h v) _
  | sta address =>
    cases hj
    refine .free ?_ _
    rw [h.regs.a]
    exact h.store address _
  | lda address =>
    cases hj
    obtain ⟨v, hm, hz⟩ := h.read address
    have hz : z.operand (.place (.cell address)) = (v, z) := hz
    simp only [I8080.Machine.execute, hm]
    exact h.ld hz .a rfl _
  | inx p =>
    cases hj
    refine .free ?_ _
    rw [h.pair p]
    exact h.setPair p _
  | dcx p =>
    cases hj
    refine .free ?_ _
    rw [h.pair p]
    exact h.setPair p _
  | inr r =>
    cases hj
    obtain ⟨v, hm, hz⟩ := h.load r
    simp only [I8080.Machine.execute, Z80.Machine.execute, hm, hz]
    exact .free ((h.setFlags (h.flags.inc v)).assign r _) _
  | dcr r =>
    cases hj
    obtain ⟨v, hm, hz⟩ := h.load r
    simp only [I8080.Machine.execute, Z80.Machine.execute, hm, hz]
    exact .free ((h.setFlags (h.flags.dec v)).assign r _) _
  | mvi r v =>
    cases hj
    -- an immediate is never I or R
    have hflags : z.loadFlags (placeOf r) (.imm v) v = z.flags := by
      cases r <;> rfl
    exact h.ld rfl r hflags _
  | dad p =>
    cases hj
    have hflags : FlagsAgree
        { m.flags with
          carry := carriesOutOf 15 z.regs.hl.toNat (z.pair (pairOf p)).toNat false }
        (z.flags.add16 z.regs.hl (z.pair (pairOf p))).2 :=
      ⟨h.flags.sign, h.flags.zero, rfl⟩
    refine .free ?_ _
    rw [h.pair p, h.regs.hl]
    exact (h.setFlags hflags).setPair .h _
  | rlc => cases hj; exact .free (h.rotateA .rlc) _
  | rrc => cases hj; exact .free (h.rotateA .rrc) _
  | ral => cases hj; exact .free (h.rotateA .rl) _
  | rar => cases hj; exact .free (h.rotateA .rr) _
  | daa => cases hj
  | cma =>
    cases hj
    refine .free ?_ _
    rw [h.regs.a]
    exact { h.setA _ with flags := ⟨h.flags.sign, h.flags.zero, h.flags.carry⟩ }
  | stc =>
    cases hj
    refine .free ?_ _
    exact { h with flags := ⟨h.flags.sign, h.flags.zero, rfl⟩ }
  | cmc =>
    cases hj
    have hcarry : (!m.flags.carry) = !z.flags.carry := by
      rw [h.flags.carry]
    refine .free ?_ _
    exact { h with flags := ⟨h.flags.sign, h.flags.zero, hcarry⟩ }
  | mov dst src =>
    cases hj
    obtain ⟨v, hm, hz⟩ := h.load src
    have hz : z.operand (.place (placeOf src)) = (v, z) := hz
    simp only [I8080.Machine.execute, hm]
    exact h.ld hz dst (Agree.loadFlags_placeOf dst src v) _
  | hlt =>
    cases hj
    refine .free ?_ _
    exact { h with halted := rfl }
  | alu op r =>
    cases hj
    obtain ⟨v, hm, hz⟩ := h.load r
    have hz : z.operand (.place (placeOf r)) = (v, z) := hz
    simp only [I8080.Machine.execute, Z80.Machine.execute, hm, hz]
    exact .free (h.accumulate op v) _
  | aluImm op v => cases hj; exact .free (h.accumulate op v) _
  | ret when? =>
    obtain ⟨hs, rfl⟩ := branchOn_eq_some hj
    exact h.ret hs
  | jmp when? address =>
    obtain ⟨hs, rfl⟩ := branchOn_eq_some hj
    exact h.jmp hs address
  | call when? address =>
    obtain ⟨hs, rfl⟩ := branchOn_eq_some hj
    exact h.call hs address
  | pop p =>
    -- three pairs are the same on both, the fourth holds the flags
    have hrest : ∀ q : I8080.Pair,
        Agree (m.pop.2.setPair q m.pop.1) (z.pop.2.setPair (pairOf q) z.pop.1) := by
      intro q
      rw [h.pop_word]
      exact h.pop_rest.setPair q _
    cases p with
    | b => cases hj; exact .free (hrest .b) _
    | d => cases hj; exact .free (hrest .d) _
    | h => cases hj; exact .free (hrest .h) _
    | psw => cases hj
  | push p =>
    have hpush : ∀ q : I8080.Pair,
        Agree (m.push (m.pair q)) (z.push (z.pair (pairOf q))) := by
      intro q
      rw [h.pair q]
      exact h.push _
    cases p with
    | b => cases hj; exact .free (hpush .b) _
    | d => cases hj; exact .free (hpush .d) _
    | h => cases hj; exact .free (hpush .h) _
    | psw => cases hj
  | rst n =>
    by_cases hn : n < 8
    · -- the Z80 keeps the address where the 8080 keeps its number
      have hvector : (UInt8.ofNat (8 * n)).toUInt16 = UInt16.ofNat (8 * n) := by
        apply UInt16.toNat_inj.mp
        simp only [UInt8.toNat_toUInt16, UInt8.toNat_ofNat', UInt16.toNat_ofNat']
        omega
      rw [translate, if_pos hn] at hj
      cases hj
      refine .free ?_ _
      rw [hvector]
      exact h.callTo _
    · rw [translate, if_neg hn] at hj
      cases hj
  | pchl =>
    cases hj
    refine .free ?_ _
    rw [h.regs.hl]
    exact h.jump _
  | sphl =>
    cases hj
    refine .free ?_ _
    rw [h.regs.hl]
    exact h.setPair .sp _
  | xthl =>
    cases hj
    obtain ⟨v, hm, hz⟩ := h.readWord m.regs.sp
    rw [h.regs.sp] at hm hz
    simp only [I8080.Machine.execute, Z80.Machine.execute, h.regs.sp, hm, hz, h.regs.hl]
    exact .free ((h.storeWord _ _).setPair .h v) _
  | xchg =>
    cases hj
    refine .free ?_ _
    rw [h.regs.hl, h.regs.de]
    exact (h.setPair .d _).setPair .h _
  | out port => cases hj; exact h.out port
  | inp port => cases hj; exact h.inp port
  | di =>
    cases hj
    refine .free ?_ _
    exact { h with enabled := rfl }
  | ei =>
    cases hj
    refine .free ?_ _
    exact { h with enabled := rfl }

end Retrocore.Compatible
