import Retrocore.I8080.Machine
import Retrocore.Z80.Machine
import Retrocore.Lr35902.Machine
import Retrocore.Lmc.Machine
import Retrocore.Synacor.Machine

/-!
# Front panels

Every register of a machine can be read and set from outside by its name. The
panel of a machine is the list of its dials.
-/

namespace Retrocore

/-- A register on the front panel of a machine. -/
structure Dial (σ : Type) where
  name : String
  /-- How many hexadecimal digits it shows. -/
  digits : Nat
  get : σ → Nat
  set : σ → Nat → σ

/-- A machine with a front panel. -/
class Panel (σ : Type) where
  dials : List (Dial σ)

namespace Panel

variable {σ : Type} [Panel σ]

def dial? (σ : Type) [Panel σ] (name : String) : Option (Dial σ) :=
  (dials (σ := σ)).find? (·.name == name)

/-- The machine with the named register set. A name that no dial has changes
nothing. -/
def set (s : σ) (name : String) (v : Nat) : σ := (dial? σ name).elim s (·.set s v)

/-- The named register in hexadecimal. -/
def show? (s : σ) (name : String) : Option String :=
  (dial? σ name).map fun d => Text.bareHex d.digits (d.get s)

end Panel

/-- A dial for a byte. -/
def Dial.byte {σ : Type} (name : String) (get : σ → Byte) (set : σ → Byte → σ) : Dial σ :=
  ⟨name, 2, fun s => (get s).toNat, fun s v => set s (UInt8.ofNat v)⟩

/-- A dial for a word. -/
def Dial.word {σ : Type} (name : String) (get : σ → Word) (set : σ → Word → σ) : Dial σ :=
  ⟨name, 4, fun s => (get s).toNat, fun s v => set s (UInt16.ofNat v)⟩

/-- A dial for a switch, which is off at zero. -/
def Dial.switch {σ : Type} (name : String) (get : σ → Bool) (set : σ → Bool → σ) : Dial σ :=
  ⟨name, 1, fun s => (get s).toNat, fun s v => set s (v != 0)⟩

instance {μ δ : Type} : Panel (I8080.Machine μ δ) where
  dials := [
    .byte "a" (·.regs.a) fun m v => { m with regs.a := v },
    .byte "b" (·.regs.b) fun m v => { m with regs.b := v },
    .byte "c" (·.regs.c) fun m v => { m with regs.c := v },
    .byte "d" (·.regs.d) fun m v => { m with regs.d := v },
    .byte "e" (·.regs.e) fun m v => { m with regs.e := v },
    .byte "h" (·.regs.h) fun m v => { m with regs.h := v },
    .byte "l" (·.regs.l) fun m v => { m with regs.l := v },
    .byte "f" (·.flags.toByte) fun m v => { m with flags := .ofByte v },
    .word "sp" (·.regs.sp) fun m v => { m with regs.sp := v },
    .word "pc" (·.regs.pc) fun m v => { m with regs.pc := v }]

instance {μ : Type} : Panel (Lr35902.Machine μ) where
  dials := [
    .byte "a" (·.regs.a) fun m v => { m with regs.a := v },
    .byte "b" (·.regs.b) fun m v => { m with regs.b := v },
    .byte "c" (·.regs.c) fun m v => { m with regs.c := v },
    .byte "d" (·.regs.d) fun m v => { m with regs.d := v },
    .byte "e" (·.regs.e) fun m v => { m with regs.e := v },
    .byte "h" (·.regs.h) fun m v => { m with regs.h := v },
    .byte "l" (·.regs.l) fun m v => { m with regs.l := v },
    .byte "f" (·.flags.toByte) fun m v => { m with flags := .ofByte v },
    .word "sp" (·.regs.sp) fun m v => { m with regs.sp := v },
    .word "pc" (·.regs.pc) fun m v => { m with regs.pc := v },
    .switch "ime" (·.ime) fun m v => { m with ime := v }]

instance {μ δ : Type} : Panel (Z80.Machine μ δ) where
  dials := [
    .byte "a" (·.regs.a) fun m v => { m with regs.a := v },
    .byte "b" (·.regs.b) fun m v => { m with regs.b := v },
    .byte "c" (·.regs.c) fun m v => { m with regs.c := v },
    .byte "d" (·.regs.d) fun m v => { m with regs.d := v },
    .byte "e" (·.regs.e) fun m v => { m with regs.e := v },
    .byte "h" (·.regs.h) fun m v => { m with regs.h := v },
    .byte "l" (·.regs.l) fun m v => { m with regs.l := v },
    .byte "f" (·.flags.toByte) fun m v => { m with flags := .ofByte v },
    .byte "i" (·.regs.i) fun m v => { m with regs.i := v },
    .byte "r" (·.regs.r) fun m v => { m with regs.r := v },
    .word "ix" (·.regs.ix) fun m v => { m with regs.ix := v },
    .word "iy" (·.regs.iy) fun m v => { m with regs.iy := v },
    .word "sp" (·.regs.sp) fun m v => { m with regs.sp := v },
    .word "pc" (·.regs.pc) fun m v => { m with regs.pc := v },
    .byte "a'" (·.regs.shadow.a) fun m v => { m with regs.shadow.a := v },
    .byte "b'" (·.regs.shadow.b) fun m v => { m with regs.shadow.b := v },
    .byte "c'" (·.regs.shadow.c) fun m v => { m with regs.shadow.c := v },
    .byte "d'" (·.regs.shadow.d) fun m v => { m with regs.shadow.d := v },
    .byte "e'" (·.regs.shadow.e) fun m v => { m with regs.shadow.e := v },
    .byte "h'" (·.regs.shadow.h) fun m v => { m with regs.shadow.h := v },
    .byte "l'" (·.regs.shadow.l) fun m v => { m with regs.shadow.l := v },
    .byte "f'" (·.regs.shadow.flags.toByte)
      fun m v => { m with regs.shadow.flags := .ofByte v },
    .switch "iff1" (·.iff1) fun m v => { m with iff1 := v },
    .switch "iff2" (·.iff2) fun m v => { m with iff2 := v },
    ⟨"im", 1, fun m => m.mode.number, fun m v => { m with mode := .ofNumber v }⟩]

instance {μ δ : Type} : Panel (Lmc.Machine μ δ) where
  dials := [⟨"acc", 3, fun m => m.acc.toNat, fun m v => m.setAcc (UInt16.ofNat v)⟩]

instance {μ δ : Type} : Panel (Synacor.Machine μ δ) where
  dials := (List.finRange 8).map fun r =>
    .word s!"r{r.val}" (·.regs.get r) fun m v => m.setReg r v

end Retrocore
