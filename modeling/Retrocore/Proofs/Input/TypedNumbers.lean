import Mathlib.Data.List.ReduceOption
import Mathlib.Data.Nat.Digits.Defs
import Retrocore.Console
import Retrocore.Proofs.Operations

/-!
# Typed numbers

The numbers that a sequence of typed bytes stands for can be read off the whole of it at once:
only digits and line ends count, each line end completes a line, and a line with digits is a
number unless it is too large for a word (`numbers`). The desk reads the same bytes piece by
piece. It takes them as they come, stops at the first line that is complete, and keeps the
digits of a line that is not.

What ties the two together is what the desk still owes: the numbers of the digits it keeps and
of the bytes that wait. A request takes its answer from the front of that (`numbers_read`), and
typing adds behind it, so that answers and debt together are always the numbers of all bytes
typed (`pays_after`). `numbers_arrive_whole` is what this comes to once nothing waits any more.
-/

namespace Retrocore.NumberDesk

/-! ## The numbers of a text -/

def isDigit (b : Byte) : Bool := 48 ≤ b && b ≤ 57

/-- A line feed or a carriage return. -/
def isLineEnd (b : Byte) : Bool := b == 10 || b == 13

def isKept (b : Byte) : Bool := isDigit b || isLineEnd b

/-- The lines that have been ended, each as its digits. What stands behind the last line end
is no line yet. -/
def lines (bytes : List Byte) : List (List Byte) :=
  ((bytes.filter isKept).splitOnP isLineEnd).dropLast

/-- The decimal number that digits stand for, in the order in which they are written. -/
def decimalValue (digits : List Byte) : Nat :=
  Nat.ofDigits 10 (digits.reverse.map fun d => d.toNat - 48)

/-- The numbers that lines stand for. Lines without digits stand for none, nor do those whose
number is too large. -/
def valuesOf (lines : List (List Byte)) : List Nat :=
  ((lines.filter (· ≠ [])).map decimalValue).filter (· ≤ 65535)

/-- The numbers that typed bytes stand for. -/
def numbers (bytes : List Byte) : List Nat := valuesOf (lines bytes)

/-- A line is read as a number whose digits come last first. -/
theorem number_eq_ofDigits (line : List Byte) :
    number line = Nat.ofDigits 10 (line.map fun d => d.toNat - 48) := by
  induction line with
  | nil => rfl
  | cons d older ih =>
    rw [number, ih, List.map_cons, Nat.ofDigits_cons]
    exact Nat.add_comm _ _

theorem decimalValue_reverse (line : List Byte) : decimalValue line.reverse = number line := by
  rw [decimalValue, List.reverse_reverse, number_eq_ofDigits]

/-- A digit does not end the line. -/
theorem not_isLineEnd_of_isDigit {b : Byte} (h : isDigit b = true) : isLineEnd b = false := by
  unfold isDigit at h
  unfold isLineEnd
  rw [Bool.or_eq_false_iff, beq_eq_false_iff_ne, beq_eq_false_iff_ne]
  constructor <;>
  · rintro rfl
    exact absurd h (by decide)

theorem filter_isKept {digits : List Byte} (h : ∀ d ∈ digits, isDigit d = true) :
    digits.filter isKept = digits := by
  refine List.filter_eq_self.mpr fun d hd => ?_
  rw [isKept, h d hd, Bool.true_or]

/-- Digits alone make no line. -/
theorem lines_of_digits {digits : List Byte} (h : ∀ d ∈ digits, isDigit d = true) :
    lines digits = [] := by
  unfold lines
  rw [filter_isKept h, List.splitOnP_eq_singleton fun d hd => not_isLineEnd_of_isDigit (h d hd)]
  rfl

/-- A line end behind digits completes their line. -/
theorem lines_digits_lineEnd {digits : List Byte} (h : ∀ d ∈ digits, isDigit d = true) {e : Byte}
    (he : isLineEnd e = true) (rest : List Byte) :
    lines (digits ++ e :: rest) = digits :: lines rest := by
  have hkept : isKept e = true := by rw [isKept, he, Bool.or_true]
  unfold lines
  rw [List.filter_append, filter_isKept h, List.filter_cons_of_pos hkept,
    List.splitOnP_append_cons _ _ he,
    List.splitOnP_eq_singleton fun d hd => not_isLineEnd_of_isDigit (h d hd),
    List.singleton_append, List.dropLast_cons_of_ne_nil (List.splitOnP_ne_nil _ _)]

/-- Whatever else is typed counts for nothing. -/
theorem lines_skip {b : Byte} (hdigit : isDigit b = false) (hend : isLineEnd b = false)
    (before rest : List Byte) : lines (before ++ b :: rest) = lines (before ++ rest) := by
  have hdropped : ¬ isKept b = true := by
    rw [isKept, hdigit, hend]
    decide
  unfold lines
  rw [List.filter_append, List.filter_cons_of_neg hdropped, List.filter_append]

/-- An empty line is passed over. -/
theorem valuesOf_cons_nil (rest : List (List Byte)) : valuesOf ([] :: rest) = valuesOf rest := rfl

/-- A line with digits stands for their number if that is not too large. -/
theorem valuesOf_cons {digits : List Byte} (h : digits ≠ []) (rest : List (List Byte)) :
    valuesOf (digits :: rest) =
      (if decimalValue digits < 65536 then [decimalValue digits] else []) ++ valuesOf rest := by
  have hkept : (digits :: rest).filter (· ≠ []) = digits :: rest.filter (· ≠ []) :=
    List.filter_cons_of_pos (decide_eq_true h)
  unfold valuesOf
  rw [hkept, List.map_cons]
  split
  next hsmall => exact List.filter_cons_of_pos (decide_eq_true (Nat.le_of_lt_succ hsmall))
  next hlarge =>
    have hdropped : ¬ decide (decimalValue digits ≤ 65535) = true := by
      rw [decide_eq_true_eq]
      omega
    exact List.filter_cons_of_neg hdropped

/-! ## One request -/

/-- The desk keeps digits and nothing else. -/
def Digits (desk : NumberDesk) : Prop := ∀ d ∈ desk.line, isDigit d = true

/-- What the desk has kept and what comes behind it. -/
def pending (desk : NumberDesk) (rest : List Byte) : List Byte := desk.line.reverse ++ rest

theorem Digits.reverse {desk : NumberDesk} (h : desk.Digits) :
    ∀ d ∈ desk.line.reverse, isDigit d = true := fun d hd => h d (List.mem_reverse.mp hd)

/-- A number, or none, as the list of what it contributes. -/
def paid (answer : Option Word) : List Nat := answer.toList.map UInt16.toNat

theorem paid_word (n : Nat) :
    paid (if n < 65536 then some (UInt16.ofNat n) else none) = if n < 65536 then [n] else [] := by
  split
  next h =>
    show [(UInt16.ofNat n).toNat] = [n]
    rw [UInt16.toNat_ofNat', Nat.mod_eq_of_lt h]
  next => rfl

/-- The desk keeps nothing of the line but its digits. -/
theorem Digits.read {desk : NumberDesk} (h : desk.Digits) (typed : List Byte) :
    (desk.read typed).2.1.Digits := by
  induction typed generalizing desk with
  | nil => exact h
  | cons b rest ih =>
    unfold NumberDesk.read
    split
    next =>
      intro d hd
      cases hd
    next =>
      split
      next hdigit =>
        refine ih fun d hd => ?_
        obtain rfl | hold := List.mem_cons.mp hd
        · simpa [isDigit] using hdigit
        · exact h d hold
      next => exact ih h

/-- A request takes its answer from the front of what the desk owes, whatever is typed later. -/
theorem numbers_read {desk : NumberDesk} (h : desk.Digits) (typed later : List Byte) :
    numbers (desk.pending (typed ++ later)) =
      paid (desk.read typed).1 ++
        numbers ((desk.read typed).2.1.pending ((desk.read typed).2.2 ++ later)) := by
  induction typed generalizing desk with
  | nil => rfl
  | cons b rest ih =>
    rw [List.cons_append]
    unfold NumberDesk.read
    split
    next hcomplete =>
      -- the line is complete: it is the first that is owed
      obtain ⟨hend, hline⟩ := hcomplete
      have hend : isLineEnd b = true := by simpa [isLineEnd] using hend
      have hline : desk.line.reverse ≠ [] := by simpa using hline
      dsimp only
      unfold numbers pending
      rw [lines_digits_lineEnd h.reverse hend, valuesOf_cons hline, decimalValue_reverse, paid_word]
      rfl
    next hincomplete =>
      split
      next hdigit =>
        have hdigit : isDigit b = true := by simpa [isDigit] using hdigit
        have hdigits : Digits { line := b :: desk.line } := by
          intro d hd
          obtain rfl | hold := List.mem_cons.mp hd
          · exact hdigit
          · exact h d hold
        rw [← ih hdigits]
        unfold pending
        rw [List.reverse_cons, List.append_assoc]
        rfl
      next hdigit =>
        rw [← ih h]
        have hdigit : isDigit b = false := by simpa [isDigit] using hdigit
        by_cases hend : isLineEnd b = true
        · -- an empty line stands for no number
          have hline : desk.line = [] := by
            by_contra hline
            exact hincomplete ⟨by simpa [isLineEnd] using hend, hline⟩
          unfold numbers pending
          rw [lines_digits_lineEnd h.reverse hend, hline, List.reverse_nil, valuesOf_cons_nil]
          rfl
        · unfold numbers pending
          rw [lines_skip hdigit (Bool.eq_false_of_not_eq_true hend)]

/-- A request takes at least one byte, if any waits. -/
theorem length_read (desk : NumberDesk) (typed : List Byte) :
    (desk.read typed).2.2.length ≤ typed.length - 1 := by
  induction typed generalizing desk with
  | nil => exact Nat.le_refl _
  | cons b rest ih =>
    have hrest : ∀ desk : NumberDesk, (desk.read rest).2.2.length ≤ rest.length := by
      intro desk
      exact Nat.le_trans (ih desk) (Nat.sub_le _ _)
    unfold NumberDesk.read
    split
    next => exact Nat.le_refl _
    next =>
      split
      next => exact hrest _
      next => exact hrest _

/-! ## Runs -/

/-- What is done at a desk. -/
inductive Usage where
  | type (bytes : List Byte)
  /-- A number is requested. -/
  | request (port : Lmc.Port)
  /-- A number or a character is put out. -/
  | put (port : Lmc.Port) (v : Word)

namespace Usage

/-- The bytes that are typed. -/
def typed : Usage → List Byte
  | type bytes => bytes
  | request _ | put .. => []

/-- What a request is answered. -/
def reply? (t : Terminal NumberDesk) : Usage → Option (Except Fault (Option Word))
  | request port => some (Observer.onIn t port).2
  | type _ | put .. => none

end Usage

instance : Operable (Terminal NumberDesk) Usage where
  perform t
    | .type bytes => t.type bytes
    | .request port => (Observer.onIn t port).1
    | .put port v => (Observer.onOut t port v).1

/-- The answers to the requests of a run. -/
def replies (t : Terminal NumberDesk) : List Usage → List (Except Fault (Option Word))
  | [] => []
  | u :: us => (u.reply? t).toList ++ replies (Operable.perform t u) us

/-- A desk at which nothing has been typed. -/
def fresh : Terminal NumberDesk := { wiring := {} }

/-- What is still to come: the numbers of the digits that are kept and of the bytes that wait,
with those of bytes typed later. -/
def owed (t : Terminal NumberDesk) (later : List Byte) : List Nat :=
  numbers (t.wiring.pending (t.console.typed ++ later))

/-- What happens between two states of a terminal: no request is refused, the numbers among the
answers come off the front of what is owed, and the bytes typed add to it at the end. -/
structure Pays (t : Terminal NumberDesk) (typed : List Byte)
    (replies : List (Except Fault (Option Word))) (answers : List (Option Word))
    (t' : Terminal NumberDesk) : Prop where
  heeded : replies = answers.map .ok
  digits : t'.wiring.Digits
  balance : ∀ later,
    owed t (typed ++ later) = answers.reduceOption.map UInt16.toNat ++ owed t' later

theorem Pays.refl {t : Terminal NumberDesk} (h : t.wiring.Digits) : Pays t [] [] [] t :=
  ⟨rfl, h, fun _ => rfl⟩

/-- What is paid in two stretches is paid altogether. -/
theorem Pays.trans {t₁ t₂ t₃ : Terminal NumberDesk} {typed₁ typed₂ : List Byte}
    {replies₁ replies₂ : List (Except Fault (Option Word))} {answers₁ answers₂ : List (Option Word)}
    (h₁ : Pays t₁ typed₁ replies₁ answers₁ t₂) (h₂ : Pays t₂ typed₂ replies₂ answers₂ t₃) :
    Pays t₁ (typed₁ ++ typed₂) (replies₁ ++ replies₂) (answers₁ ++ answers₂) t₃ where
  heeded := by rw [h₁.heeded, h₂.heeded, List.map_append]
  digits := h₂.digits
  balance later := by
    rw [List.append_assoc, h₁.balance, h₂.balance, List.reduceOption_append, List.map_append,
      List.append_assoc]

/-- An output does not touch what is typed. -/
theorem typed_output (c : Console) (port : Lmc.Port) (v : Word) :
    (output c port v).typed = c.typed := by
  have hprinted : ∀ (bytes : List Byte) (c : Console),
      (bytes.foldl Console.print c).typed = c.typed := by
    intro bytes
    induction bytes with
    | nil => exact fun _ => rfl
    | cons b rest ih => exact fun c => ih (c.print b)
  cases port with
  | otc => rfl
  | inp => exact hprinted _ c
  | out => exact hprinted _ c

/-- Every request is answered with the values of lines that have been typed. -/
theorem pays_perform {t : Terminal NumberDesk} (h : t.wiring.Digits) (u : Usage) :
    ∃ answers, Pays t u.typed (u.reply? t).toList answers (Operable.perform t u) := by
  cases u with
  | type bytes =>
    refine ⟨[], rfl, h, fun later => ?_⟩
    show _ = numbers (t.wiring.pending (t.console.typed ++ bytes ++ later))
    rw [List.append_assoc]
    rfl
  | request port =>
    let answer := (t.wiring.read t.console.typed).1
    refine ⟨[answer], rfl, h.read t.console.typed, fun later => ?_⟩
    have hanswer : [answer].reduceOption.map UInt16.toNat = paid answer := by
      cases answer <;> rfl
    rw [hanswer]
    exact numbers_read h t.console.typed later
  | put port v =>
    refine ⟨[], rfl, h, fun later => ?_⟩
    show _ = numbers (t.wiring.pending ((output t.console port v).typed ++ later))
    rw [typed_output]
    rfl

/-- However typing and requests take turns, a run pays what it owes. -/
theorem pays_after (uses : List Usage) : ∀ {t : Terminal NumberDesk}, t.wiring.Digits →
    ∃ answers, Pays t (uses.flatMap Usage.typed) (replies t uses) answers
      (Operable.after t uses) := by
  induction uses with
  | nil => exact fun h => ⟨[], Pays.refl h⟩
  | cons u us ih =>
    intro t h
    obtain ⟨first, hfirst⟩ := pays_perform h u
    obtain ⟨rest, hrest⟩ := ih hfirst.digits
    exact ⟨first ++ rest, hfirst.trans hrest⟩

/-- No more waits than has been typed. -/
theorem waiting_after (uses : List Usage) (t : Terminal NumberDesk) :
    (Operable.after t uses).console.typed.length ≤
      t.console.typed.length + (uses.flatMap Usage.typed).length := by
  induction uses generalizing t with
  | nil => exact Nat.le_refl _
  | cons u us ih =>
    have hfirst : (Operable.perform t u).console.typed.length ≤
        t.console.typed.length + u.typed.length := by
      cases u with
      | type bytes => exact Nat.le_of_eq List.length_append
      | request port =>
        exact Nat.le_trans (length_read t.wiring t.console.typed) (Nat.sub_le _ _)
      | put port v => exact Nat.le_of_eq (congrArg List.length (typed_output t.console port v))
    have hrest := ih (Operable.perform t u)
    rw [Operable.after_cons, List.flatMap_cons, List.length_append]
    omega

/-- Every request takes a byte as long as there are any. -/
theorem waiting_after_requests (k : Nat) (port : Lmc.Port) (t : Terminal NumberDesk) :
    (Operable.after t (List.replicate k (Usage.request port))).console.typed.length ≤
      t.console.typed.length - k := by
  induction k generalizing t with
  | zero => exact Nat.le_refl _
  | succ k ih =>
    have hfirst : (Operable.perform t (Usage.request port)).console.typed.length ≤
        t.console.typed.length - 1 := length_read t.wiring t.console.typed
    have hrest := ih (Operable.perform t (Usage.request port))
    rw [List.replicate_succ, Operable.after_cons]
    omega

/-- **Typed numbers arrive whole**, however typing and requests take turns. No request is
refused, and the numbers among the answers, in order, are the first of those that the typed bytes
stand for; they are all of them as soon as nothing waits to be read. Enough requests bring that
about. -/
theorem numbers_arrive_whole (uses : List Usage) :
    (∃ answers : List (Option Word), replies fresh uses = answers.map .ok ∧
      answers.reduceOption.map UInt16.toNat <+: numbers (uses.flatMap Usage.typed) ∧
      ((Operable.after fresh uses).console.typed = [] →
        answers.reduceOption.map UInt16.toNat = numbers (uses.flatMap Usage.typed))) ∧
    ∀ k ≥ (uses.flatMap Usage.typed).length,
      (Operable.after fresh (uses ++ List.replicate k (Usage.request .inp))).console.typed =
        [] := by
  constructor
  · have hfresh : fresh.wiring.Digits := fun d hd => absurd hd (List.not_mem_nil)
    obtain ⟨answers, hpays⟩ := pays_after uses hfresh
    have hall : numbers (uses.flatMap Usage.typed) =
        answers.reduceOption.map UInt16.toNat ++ owed (Operable.after fresh uses) [] := by
      rw [← hpays.balance, List.append_nil]
      rfl
    refine ⟨answers, hpays.heeded, ⟨_, hall.symm⟩, fun hdrained => ?_⟩
    -- what is left then are digits without a line end
    have hnothing : owed (Operable.after fresh uses) [] = [] := by
      unfold owed pending numbers
      rw [hdrained, List.append_nil, List.append_nil, lines_of_digits hpays.digits.reverse]
      rfl
    rw [hall, hnothing, List.append_nil]
  · intro k hk
    have hbefore := waiting_after uses fresh
    have hafter := waiting_after_requests k .inp (Operable.after fresh uses)
    have hnone : fresh.console.typed.length = 0 := rfl
    rw [Operable.after_append, ← List.length_eq_zero_iff]
    omega

/-- A number typed in two pieces, an empty line, a letter, zeros in front and a number that is
too large: `4`, then `2`, CR, LF, `x007`, LF, `99999`, LF. -/
def inPieces : List Usage :=
  [.type [0x34], .request .inp,
    .type [0x32, 0x0d, 0x0a, 0x78, 0x30, 0x30, 0x37, 0x0a, 0x39, 0x39, 0x39, 0x39, 0x39, 0x0a],
    .request .inp, .request .inp, .request .inp]

theorem numbers_arrive_whole_in_pieces :
    (Operable.after fresh inPieces).console.typed = [] ∧
      (∃ answers : List (Option Word), replies fresh inPieces = answers.map .ok ∧
        answers.reduceOption.map UInt16.toNat = [42, 7]) ∧
      (Operable.after fresh (inPieces ++ List.replicate 15 (Usage.request .inp))).console.typed =
        [] := by
  have hdrained : (Operable.after fresh inPieces).console.typed = [] := by decide
  have hnumbers : numbers (inPieces.flatMap Usage.typed) = [42, 7] := by decide
  obtain ⟨⟨answers, hreplies, -, hall⟩, henough⟩ := numbers_arrive_whole inPieces
  exact ⟨hdrained, ⟨answers, hreplies, (hall hdrained).trans hnumbers⟩, henough 15 (by decide)⟩

end Retrocore.NumberDesk
