import Retrocore.CommandLine.Emulator
import Retrocore.Proofs.Breakpoints.Lines
import Retrocore.Proofs.Disassembly.Listing

/-!
# Breakpoints from copied lines

A line of a disassembly begins with its address and can be given to the emulator
as a breakpoint. The emulator reads every address in hexadecimal, while the
disassembly of the Little Man Computer shows addresses in decimal.
`copied_line_breaks_iff` says which lines are understood: all lines of the other
machines, and of the Little Man Computer those whose address has one digit.
-/

namespace Retrocore

/-! ## Printed lines -/

/-- What is printed is a line, or stands for lines that are left out. -/
theorem eq_render_of_mem_listing {lines : List Line} {printed : String}
    (h : printed ∈ listing lines) :
    printed = "..." ∨ ∃ line ∈ lines, printed = line.render := by
  have hruns := maximalRuns_iff.mpr (rfl : _ = lines.splitBy fun a b => a.text == b.text)
  rw [listing_eq hruns] at h
  obtain ⟨run, hrun, hprinted⟩ := List.mem_flatMap.mp h
  have hlines : ∀ line ∈ run, line ∈ lines := by
    intro line hline
    rw [← hruns.flatten]
    exact List.mem_flatten.mpr ⟨run, hrun, hline⟩
  unfold printedRun at hprinted
  split at hprinted
  next =>
    obtain ⟨line, hline, rfl⟩ := List.mem_map.mp hprinted
    exact .inr ⟨line, hlines line hline, rfl⟩
  next =>
    simp only [List.mem_append, List.mem_singleton, Option.mem_toList, Option.map_eq_some_iff]
      at hprinted
    obtain (⟨line, hline, rfl⟩ | hdots) | ⟨line, hline, rfl⟩ := hprinted
    · exact .inr ⟨line, hlines line (List.mem_of_head? hline), rfl⟩
    · exact .inl hdots
    · exact .inr ⟨line, hlines line (List.mem_of_getLast? hline), rfl⟩

/-- A line is read as a breakpoint where its digits mean in hexadecimal. -/
theorem Breakpoint.ofLine_render_iff (l : Line) (address : Word) :
    ofLine 16 l.render = .ok ⟨address, l.render⟩ ↔
      Text.reread l.base l.address.toNat = address.toNat := by
  have hshows : ShowsAddress 16 l.render.toList (Text.reread l.base l.address.toNat) :=
    l.showsAddress l.base_bounds.2
  rw [ofLine_eq_ok_iff (Nat.le_refl 16)]
  constructor
  · rintro ⟨n, hn, hshows', hsame⟩
    obtain rfl := (Breakpoint.mk.inj hsame).1
    rw [UInt16.toNat_ofNat', Nat.mod_eq_of_lt (by omega)]
    exact hshows.unique (Nat.le_refl 16) hshows'
  · intro h
    rw [h] at hshows
    exact ⟨address.toNat, Nat.le_of_lt_succ address.toNat_lt, hshows, by rw [UInt16.ofNat_toNat]⟩

namespace CommandLine

/-- What does not begin with a dash is a value or the path. -/
theorem Scan.read_of_plain {σ : Type} {ps : List (Parameter σ)} {s : Scan σ} {argument : String}
    (hplain : argument.toList.head? ≠ some '-') (hverbatim : s.verbatim = false) :
    s.read ps argument =
      match s.pending with
      | some (p, none) => .ok { s with pending := some (p, some argument) }
      | _ => s.readPath argument := by
  unfold read
  rw [hverbatim, if_neg Bool.false_ne_true]
  split
  next h => rw [h] at hplain; exact absurd rfl hplain
  next h => rw [h] at hplain; exact absurd rfl hplain
  next h => rw [h] at hplain; exact absurd rfl hplain
  next h => rw [h] at hplain; exact absurd rfl hplain
  next => rfl

namespace Emulator

/-- The option by which the machine is chosen. -/
def isaOption : Parameter Settings := .isa fun s isa => { s with isa }

/-- The option by which a breakpoint is given. -/
def breakOption : Parameter Settings where
  name := "break"
  effect := .value "BREAKPOINTS" fun s line => .ok { s with breakpoints := s.breakpoints ++ [line] }
  about := "Breakpoint address, or a line copied from the disassembler"
  repeatable := true

/-- A file is to be run with one breakpoint. -/
theorem ofArguments_break {path printed : String} (hpath : path.toList.head? ≠ some '-')
    (hprinted : printed.toList.head? ≠ some '-') (isa : Isa) :
    Order.ofArguments [path, "--isa", isa.word, "--break", printed] =
      .ok { path, isa, settings := { isa := some isa, breakpoints := [printed] } } := by
  let ps := program.parameters
  let named : Scan Settings := { settings := {}, path := some path }
  let chosen : Scan Settings :=
    { settings := { isa := some isa }, path := some path, given := ["isa"] }
  have hfirst : Scan.read ps { settings := {} } path = .ok named := by
    rw [Scan.read_of_plain hpath rfl]
    rfl
  have hisa : Scan.read ps named "--isa" = .ok { named with pending := some (isaOption, none) } :=
    rfl
  have hword : Scan.read ps { named with pending := some (isaOption, none) } isa.word =
      .ok { named with pending := some (isaOption, some isa.word) } := by
    cases isa <;> rfl
  have hbreak : Scan.read ps { named with pending := some (isaOption, some isa.word) } "--break" =
      .ok { chosen with pending := some (breakOption, none) } := by
    cases isa <;> rfl
  have hline : Scan.read ps { chosen with pending := some (breakOption, none) } printed =
      .ok { chosen with pending := some (breakOption, some printed) } := by
    rw [Scan.read_of_plain hprinted rfl]
  have hall : readArguments ps {} [path, "--isa", isa.word, "--break", printed] =
      .ok (some path, { isa := some isa, breakpoints := [printed] }) := by
    unfold readArguments
    simp only [List.foldlM_cons, List.foldlM_nil, bind, Except.bind, hfirst, hisa, hword, hbreak,
      hline]
    rfl
  unfold Order.ofArguments
  rw [hall]
  cases isa <;> rfl

/-- The emulator is run on a machine with a text as its one breakpoint, and sets
it up at an address. -/
def BreaksAt (path : String) (isa : Isa) (printed : String) (address : Word) : Prop :=
  ∃ order debugger, Order.ofArguments [path, "--isa", isa.word, "--break", printed] = .ok order ∧
    order.isa = isa ∧ order.settings.debugger = .ok debugger ∧
      debugger.breakpoints = [⟨address, printed⟩]

/-- What is behind the option is read with radix 16, whatever machine is chosen. -/
theorem breaksAt_iff {path printed : String} (hpath : path.toList.head? ≠ some '-')
    (hprinted : printed.toList.head? ≠ some '-') (isa : Isa) (address : Word) :
    BreaksAt path isa printed address ↔ Breakpoint.ofLine 16 printed = .ok ⟨address, printed⟩ := by
  have hdebugger : ({ isa := some isa, breakpoints := [printed] } : Settings).debugger =
      (Breakpoint.ofLine 16 printed).map fun b => { breakpoints := [b] } := by
    unfold Settings.debugger Settings.readBreakpoints
    simp only [List.mapM_cons, List.mapM_nil]
    cases Breakpoint.ofLine 16 printed <;> rfl
  constructor
  · rintro ⟨order, debugger, horder, -, hset, hone⟩
    rw [ofArguments_break hpath hprinted] at horder
    obtain rfl := Except.ok.inj horder
    rw [hdebugger] at hset
    cases hread : Breakpoint.ofLine 16 printed with
    | error fault =>
      rw [hread] at hset
      cases hset
    | ok b =>
      rw [hread] at hset
      obtain rfl := Except.ok.inj hset
      exact congrArg _ (List.cons.inj hone).1
  · intro hread
    let debugger : Debugger := { breakpoints := [⟨address, printed⟩] }
    refine ⟨_, debugger, ofArguments_break hpath hprinted isa, rfl, hdebugger.trans ?_, rfl⟩
    rw [hread]
    rfl

/-- A line begins with an address, which is no option. -/
theorem head_render (l : Line) : l.render.toList.head? ≠ some '-' := by
  obtain ⟨hbase, hbase'⟩ := l.base_bounds
  have hne : l.field ≠ [] := Text.digits_ne_nil _ _ _
  intro h
  rw [l.toList_render, List.head?_append_of_ne_nil _ hne] at h
  exact Text.notMem_digits hbase hbase' rfl _ _ (List.mem_of_head? h)

/-- **A copied line is a breakpoint at its address** if addresses are shown in
hexadecimal or the address has one digit, and otherwise it is not. The dots that
stand for lines left out are no breakpoint at all. -/
theorem copied_line_breaks_iff (isa : Isa) (bytes : List Byte) (origin : Word)
    (path printed : String) (hpath : path.toList.head? ≠ some '-')
    (hprinted : printed ∈ listing (disassembleFile isa bytes origin)) :
    (printed = "..." ∧ ∀ address, ¬ BreaksAt path isa printed address) ∨
      ∃ line ∈ disassembleFile isa bytes origin, printed = line.render ∧
        (BreaksAt path isa printed line.address ↔ isa ≠ .lmc ∨ line.address.toNat < 10) := by
  obtain rfl | ⟨line, hline, rfl⟩ := eq_render_of_mem_listing hprinted
  · refine .inl ⟨rfl, fun address h => ?_⟩
    have hread := (breaksAt_iff hpath (by decide) isa address).mp h
    cases hread
  · refine .inr ⟨line, hline, rfl, ?_⟩
    rw [breaksAt_iff hpath (head_render line), Breakpoint.ofLine_render_iff, Line.base,
      decimal_of_mem hline]
    by_cases hlmc : isa = .lmc
    · simp [hlmc, Text.reread_decimal]
    · simp [hlmc, Text.reread_hex]

/-- The one line of the 8080's halt at address 16 is a breakpoint there. -/
theorem copied_line_breaks_8080 : "prog.bin".toList.head? ≠ some '-' ∧
    "0010\thlt" ∈ listing (disassembleFile .i8080 [0x76] 16) ∧
      BreaksAt "prog.bin" .i8080 "0010\thlt" 16 := by
  have hpath : "prog.bin".toList.head? ≠ some '-' := by decide
  have hfile : disassembleFile .i8080 [0x76] 16 = [⟨16, "hlt", false⟩] := by cbv
  have hprinted : "0010\thlt" ∈ listing (disassembleFile .i8080 [0x76] 16) := by
    rw [hfile, listing_singleton]
    decide
  refine ⟨hpath, hprinted, ?_⟩
  obtain ⟨hdots, -⟩ | ⟨line, hline, -, hbreaks⟩ :=
    copied_line_breaks_iff .i8080 [0x76] 16 "prog.bin" _ hpath hprinted
  · exact absurd hdots (by decide)
  · rw [hfile, List.mem_singleton] at hline
    subst hline
    exact hbreaks.mpr (.inl (by decide))

/-- The one line of the Little Man Computer's halt at address 16 is a breakpoint
at 22. -/
theorem copied_line_breaks_elsewhere :
    disassembleFile .lmc [0, 0] 16 = [⟨16, "hlt", true⟩] ∧
      listing (disassembleFile .lmc [0, 0] 16) = ["16\thlt"] ∧
        BreaksAt "prog.bin" .lmc "16\thlt" 22 ∧ ¬ BreaksAt "prog.bin" .lmc "16\thlt" 16 := by
  have hread : Breakpoint.ofLine 16 "16\thlt" = .ok ⟨22, "16\thlt"⟩ := rfl
  have hfile : disassembleFile .lmc [0, 0] 16 = [⟨16, "hlt", true⟩] := by cbv
  refine ⟨hfile, ?_, ?_, fun h => ?_⟩
  · rw [hfile, listing_singleton]
    rfl
  · exact (breaksAt_iff (by decide) (by decide) .lmc 22).mpr hread
  · have hother := (breaksAt_iff (by decide) (by decide) .lmc 16).mp h
    rw [hread] at hother
    exact absurd hother (by decide)

end Emulator

end CommandLine

end Retrocore
