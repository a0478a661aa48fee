import Retrocore.Proofs.Breakpoints.Lines
import Retrocore.Proofs.Operations

/-!
# Breakpoints through edits

Breakpoints are added, also several for one address, removed and cleared, and debug mode is
switched. Whatever was edited before, what a debugger says can be read off its history: `Kept`
lists it, and `breakpoint_lines_round_trip` says it of every history, along with the breakpoints
that the lines of a disassembly are read as.

An edit that says something of an address decides what is there until the next one does
(`find?_perform`); the rest follows from this and from the order of the list.
-/

namespace Retrocore

namespace Debugger

/-- What is done to a debugger. -/
inductive Edit where
  | add (b : Breakpoint)
  | remove (address : Word)
  | clear
  /-- Debug mode is switched on or off. -/
  | debug (on : Bool)
  deriving DecidableEq, Repr

instance : Operable Debugger Edit where
  perform d
    | .add b => d.add b
    | .remove address => d.remove address
    | .clear => d.clear
    | .debug on => { d with debugMode := on }

namespace Edit

/-- What an edit says of an address: the breakpoint that is there then, or that there is none. -/
def says? (address : Word) : Edit → Option (Option Breakpoint)
  | .add b => if b.address = address then some (some b) else none
  | .remove other => if other = address then some none else none
  | .clear => some none
  | .debug _ => none

/-- What an edit says of debug mode. -/
def switch? : Edit → Option Bool
  | .debug on => some on
  | .add _ | .remove _ | .clear => none

/-- No breakpoint at the address is taken away. -/
def Spare (address : Word) (later : List Edit) : Prop := .remove address ∉ later ∧ .clear ∉ later

/-- A breakpoint was added, and nothing was added, removed or cleared at its address since. -/
def Latest (b : Breakpoint) (history : List Edit) : Prop :=
  ∃ before later, history = before ++ .add b :: later ∧ Spare b.address later ∧
    ∀ b', .add b' ∈ later → b'.address ≠ b.address

variable {address : Word} {b : Breakpoint} {later history : List Edit}

/-- Only adding a breakpoint says that there is one. -/
theorem says?_eq_some_some_iff {e : Edit} :
    e.says? address = some (some b) ↔ e = .add b ∧ b.address = address := by
  cases e with
  | add b' => grind [says?]
  | remove other => grind [says?]
  | clear => grind [says?]
  | debug on => grind [says?]

/-- Later edits say nothing about an address if none of them touches it. -/
theorem says?_eq_none_iff : (∀ e ∈ later, e.says? address = none) ↔
    Spare address later ∧ ∀ b, .add b ∈ later → b.address ≠ address := by
  constructor
  · intro h
    refine ⟨⟨fun hremove => ?_, fun hclear => ?_⟩, fun b hadd hb => ?_⟩
    · exact Option.some_ne_none _ ((if_pos rfl).symm.trans (h _ hremove))
    · exact Option.some_ne_none _ (h _ hclear)
    · exact Option.some_ne_none _ ((if_pos hb).symm.trans (h _ hadd))
  · rintro ⟨⟨hremove, hclear⟩, hadd⟩ e he
    cases e with
    | add b => exact if_neg (hadd b he)
    | remove other =>
      have hother : other ≠ address := by
        rintro rfl
        exact hremove he
      exact if_neg hother
    | clear => exact absurd he hclear
    | debug on => rfl

/-- The last edit that says something of an address adds the latest breakpoint there. -/
theorem lastSaid_iff : (history.filterMap (says? address)).getLast? = some (some b) ↔
    Latest b history ∧ b.address = address := by
  rw [Operable.lastSet_eq_some_iff]
  constructor
  · rintro ⟨before, e, later, rfl, hsays, hlater⟩
    obtain ⟨rfl, rfl⟩ := says?_eq_some_some_iff.mp hsays
    exact ⟨⟨before, later, rfl, says?_eq_none_iff.mp hlater⟩, rfl⟩
  · rintro ⟨⟨before, later, rfl, hlater⟩, rfl⟩
    exact ⟨before, .add b, later, rfl, says?_eq_some_some_iff.mpr ⟨rfl, rfl⟩,
      says?_eq_none_iff.mpr hlater⟩

end Edit

open Edit Operable

variable {address : Word} {b : Breakpoint} {d : Debugger}

/-! ## What is at an address -/

/-- There is a breakpoint where one can be found. -/
theorem contains_eq_isSome (d : Debugger) (address : Word) :
    d.contains address = (d.find? address).isSome := List.isSome_find?.symm

/-- Whatever the order, the breakpoint put in comes before all others at its address, and none at
another address goes. -/
theorem find?_insert (b : Breakpoint) (address : Word) (bs : List Breakpoint) :
    (insert b bs).find? (·.address == address) =
      if b.address = address then some b else bs.find? (·.address == address) := by
  induction bs with
  | nil => grind [insert]
  | cons c cs ih => grind [insert]

/-- The breakpoint that is added replaces the one at its address. -/
theorem find?_add (d : Debugger) (b : Breakpoint) (address : Word) :
    (d.add b).find? address = if b.address = address then some b else d.find? address :=
  find?_insert b address d.breakpoints

/-- Only the breakpoint at the address is removed. -/
theorem find?_remove (d : Debugger) (removed address : Word) :
    (d.remove removed).find? address = if removed = address then none else d.find? address := by
  have hfilter : ∀ bs : List Breakpoint,
      (bs.filter (·.address != removed)).find? (·.address == address) =
        if removed = address then none else bs.find? (·.address == address) := by
    intro bs
    induction bs with
    | nil => grind
    | cons c cs ih => grind
  exact hfilter d.breakpoints

/-- What an edit says of an address decides what is there; otherwise nothing changes there. -/
theorem find?_perform (d : Debugger) (e : Edit) :
    (perform d e).find? address = (e.says? address).getD (d.find? address) := by
  cases e with
  | add b =>
    refine (find?_add d b address).trans ?_
    by_cases hb : b.address = address
    · rw [says?, if_pos hb, if_pos hb, Option.getD_some]
    · rw [says?, if_neg hb, if_neg hb, Option.getD_none]
  | remove removed =>
    refine (find?_remove d removed address).trans ?_
    by_cases hremoved : removed = address
    · rw [says?, if_pos hremoved, if_pos hremoved, Option.getD_some]
    · rw [says?, if_neg hremoved, if_neg hremoved, Option.getD_none]
  | clear => rfl
  | debug on => rfl

/-- The breakpoint at an address is the latest that was added there. -/
theorem find?_after_iff {history : List Edit} :
    (after ({} : Debugger) history).find? address = some b ↔
      Latest b history ∧ b.address = address := by
  have hlast : (after ({} : Debugger) history).find? address =
      (history.filterMap (says? address)).getLast?.getD none :=
    after_lastSet (f := (Debugger.find? · address)) find?_perform history {}
  rw [hlast, ← lastSaid_iff, Option.getD_eq_iff]
  simp

/-- Only what removes or clears it takes the breakpoint at an address away. -/
theorem contains_perform {e : Edit} (hremove : e ≠ .remove address) (hclear : e ≠ .clear)
    (hcontains : d.contains address = true) : (perform d e).contains address = true := by
  rw [contains_eq_isSome] at hcontains ⊢
  cases e with
  | add b =>
    show ((d.add b).find? address).isSome = true
    rw [find?_add]
    split
    next => rfl
    next => exact hcontains
  | remove removed =>
    have hne : removed ≠ address := by
      rintro rfl
      exact hremove rfl
    show ((d.remove removed).find? address).isSome = true
    rwa [find?_remove, if_neg hne]
  | clear => exact absurd rfl hclear
  | debug on => exact hcontains

/-- A breakpoint that nobody removes stays, though its line may be replaced. -/
theorem contains_after {later : List Edit} (hspare : Spare address later)
    (hcontains : d.contains address = true) : (after d later).contains address = true := by
  induction later generalizing d with
  | nil => exact hcontains
  | cons e later ih =>
    simp only [Spare, List.mem_cons, not_or] at hspare
    obtain ⟨⟨hremove, hremoves⟩, hclear, hclears⟩ := hspare
    exact ih ⟨hremoves, hclears⟩ (contains_perform (Ne.symm hremove) (Ne.symm hclear) hcontains)

/-- There are breakpoints at the addresses that were added and not taken away since. -/
theorem contains_after_iff {history : List Edit} :
    (after ({} : Debugger) history).contains address = true ↔
      ∃ before b later, history = before ++ .add b :: later ∧ b.address = address ∧
        Spare address later := by
  constructor
  · intro h
    rw [contains_eq_isSome, Option.isSome_iff_exists] at h
    obtain ⟨b, hb⟩ := h
    obtain ⟨⟨before, later, hhistory, hspare, -⟩, rfl⟩ := find?_after_iff.mp hb
    exact ⟨before, b, later, hhistory, rfl, hspare⟩
  · rintro ⟨before, b, later, rfl, rfl, hspare⟩
    rw [after_append, after_cons]
    refine contains_after hspare ?_
    show (Debugger.add _ b).contains b.address = true
    rw [contains_eq_isSome, find?_add, if_pos rfl]
    rfl

/-! ## The order of the list -/

/-- In strictly ascending order of the addresses. -/
def Ascending (bs : List Breakpoint) : Prop := bs.Pairwise fun b c => b.address < c.address

/-- Inserting brings in nothing else. -/
theorem eq_or_mem_of_mem_insert {c : Breakpoint} {bs : List Breakpoint} (h : c ∈ insert b bs) :
    c = b ∨ c ∈ bs := by
  induction bs with
  | nil => exact .inl (List.mem_singleton.mp h)
  | cons b' bs ih =>
    unfold insert at h
    split at h
    next => exact List.mem_cons.mp h
    next =>
      split at h
      next => exact (List.mem_cons.mp h).imp_right (List.mem_cons_of_mem _)
      next =>
        obtain rfl | h := List.mem_cons.mp h
        · exact .inr List.mem_cons_self
        · exact (ih h).imp_right (List.mem_cons_of_mem _)

/-- The breakpoint goes where it belongs, or replaces the one that is there. -/
theorem ascending_insert {bs : List Breakpoint} (h : Ascending bs) : Ascending (insert b bs) := by
  induction bs with
  | nil => exact List.pairwise_singleton _ _
  | cons b' bs ih =>
    obtain ⟨hfirst, hrest⟩ := List.pairwise_cons.mp h
    unfold insert
    split
    next hlt =>
      refine List.pairwise_cons.mpr ⟨fun c hc => ?_, h⟩
      obtain rfl | hc := List.mem_cons.mp hc
      · exact hlt
      · exact UInt16.lt_trans hlt (hfirst c hc)
    next hnlt =>
      split
      next heq => exact List.pairwise_cons.mpr ⟨fun c hc => heq ▸ hfirst c hc, hrest⟩
      next hne =>
        refine List.pairwise_cons.mpr ⟨fun c hc => ?_, ih hrest⟩
        obtain rfl | hc := eq_or_mem_of_mem_insert hc
        · exact UInt16.lt_of_le_of_ne (UInt16.not_lt.mp hnlt) (Ne.symm hne)
        · exact hfirst c hc

/-- Every edit keeps the addresses ascending. -/
theorem ascending_perform (e : Edit) (h : Ascending d.breakpoints) :
    Ascending (perform d e).breakpoints := by
  cases e with
  | add b => exact ascending_insert h
  | remove removed => exact List.Pairwise.filter _ h
  | clear => exact List.Pairwise.nil
  | debug on => exact h

theorem ascending_after (history : List Edit) (h : Ascending d.breakpoints) :
    Ascending (after d history).breakpoints := by
  induction history generalizing d with
  | nil => exact h
  | cons e history ih => exact ih (ascending_perform e h)

/-- In ascending order no breakpoint hides another. -/
theorem find?_eq_some_iff_mem {bs : List Breakpoint} (h : Ascending bs) :
    bs.find? (·.address == b.address) = some b ↔ b ∈ bs := by
  induction bs with
  | nil => exact iff_of_false (by rintro ⟨⟩) List.not_mem_nil
  | cons c bs ih =>
    obtain ⟨hfirst, hrest⟩ := List.pairwise_cons.mp h
    by_cases hc : c.address = b.address
    · rw [List.find?_cons_of_pos (by simpa using hc), List.mem_cons, Option.some.injEq]
      have hne : b ∉ bs := fun hb => UInt16.lt_irrefl _ (hc ▸ hfirst b hb)
      exact ⟨fun h => .inl h.symm, fun h => (h.resolve_right hne).symm⟩
    · rw [List.find?_cons_of_neg (by simpa using hc), ih hrest, List.mem_cons]
      have hne : b ≠ c := by
        rintro rfl
        exact hc rfl
      exact ⟨.inr, fun h => h.resolve_left hne⟩

/-! ## The history of a debugger -/

/-- What a debugger says after a history of edits. -/
structure Kept (history : List Edit) (d : Debugger) : Prop where
  /-- There are breakpoints at the addresses that were added and since then neither removed nor
  cleared. -/
  contains_iff : ∀ address, d.contains address = true ↔
    ∃ before b later, history = before ++ .add b :: later ∧ b.address = address ∧
      Spare address later
  /-- Each is the latest that was added there. -/
  find?_iff : ∀ address b, d.find? address = some b ↔ Latest b history ∧ b.address = address
  /-- They are listed, -/
  mem_iff : ∀ b, b ∈ d.breakpoints ↔ Latest b history
  /-- once each, in the order of their addresses. -/
  ascending : d.breakpoints.Pairwise fun b c => b.address < c.address
  /-- Debug mode is off until it is switched on. -/
  debugMode_eq : d.debugMode = (history.filterMap switch?).getLast?.getD false
  shouldBreak_on : d.debugMode = true → ∀ pc, d.shouldBreak pc = d.contains pc
  shouldBreak_off : d.debugMode = false → ∀ pc, d.shouldBreak pc = false

/-- What the debugger contains is what the history says. -/
theorem kept_after (history : List Edit) : Kept history (after ({} : Debugger) history) where
  contains_iff := fun _ => contains_after_iff
  find?_iff := fun _ _ => find?_after_iff
  mem_iff := by
    intro b
    have hascending := ascending_after (d := {}) history List.Pairwise.nil
    rw [← find?_eq_some_iff_mem hascending]
    exact find?_after_iff.trans (and_iff_left rfl)
  ascending := ascending_after history List.Pairwise.nil
  debugMode_eq := by
    refine after_lastSet (f := Debugger.debugMode) (fun d e => ?_) history {}
    cases e <;> rfl
  shouldBreak_on := by
    intro hon pc
    rw [shouldBreak, hon, Bool.true_and]
  shouldBreak_off := by
    intro hoff pc
    rw [shouldBreak, hoff, Bool.false_and]

end Debugger

/-- **The lines of a disassembly are read as breakpoints at their own addresses** and kept whole,
in decimal where the Little Man Computer is disassembled and in hexadecimal elsewhere. Through any
history of edits a debugger keeps the latest breakpoint of every address that was not removed or
cleared since, in the order of the addresses, and in debug mode it breaks there. -/
theorem breakpoint_lines_round_trip :
    (∀ l : Line, Breakpoint.ofLine l.base l.render = .ok ⟨l.address, l.render⟩) ∧
    (∀ (isa : Isa) (bytes : List Byte) (origin : Word), ∀ l ∈ disassembleFile isa bytes origin,
      l.base = if isa = .lmc then 10 else 16) ∧
    ∀ history : List Debugger.Edit,
      Debugger.Kept history (Operable.after ({} : Debugger) history) := by
  refine ⟨Breakpoint.ofLine_base_render, ?_, Debugger.kept_after⟩
  intro isa bytes origin l hl
  simp only [Line.base, decimal_of_mem hl, decide_eq_true_eq]

end Retrocore
