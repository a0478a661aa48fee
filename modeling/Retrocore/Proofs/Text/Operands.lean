import Mathlib.Data.List.TakeWhile
import Retrocore.Word

/-!
# Taking an instruction's text apart

The text of an instruction is a mnemonic and, behind a blank, its operands with
a comma and a blank between them. `mnemonic` and `operands` read the parts back
off the text. They are the parts that it was put together from if there is no
blank in the mnemonic and no comma in operands that stand beside others
(`mnemonic_spelled`, `operands_spelled`).
-/

namespace Retrocore.Text

def mnemonic (cs : List Char) : List Char := cs.takeWhile (· != ' ')

/-- What stands between commas that are followed by a blank. -/
def splitOperands : List Char → List (List Char)
  | [] => [[]]
  | ',' :: ' ' :: cs => [] :: splitOperands cs
  | c :: cs =>
    match splitOperands cs with
    | [] => [[c]]
    | o :: os => (c :: o) :: os

def operands (cs : List Char) : List (List Char) :=
  match cs.dropWhile (· != ' ') with
  | [] => []
  | _ :: field => splitOperands field

/-- A character that is no comma goes to the first operand. -/
theorem splitOperands_cons {c : Char} (h : c ≠ ',') (cs : List Char) :
    splitOperands (c :: cs) =
      match splitOperands cs with
      | [] => [[c]]
      | o :: os => (c :: o) :: os := by
  rw [splitOperands]
  rintro _ rfl
  exact absurd rfl h

/-- Without a comma there is one operand. -/
theorem splitOperands_of_notMem {cs : List Char} (h : ',' ∉ cs) : splitOperands cs = [cs] := by
  induction cs with
  | nil => rfl
  | cons c cs ih =>
    rw [List.mem_cons, not_or] at h
    rw [splitOperands_cons (Ne.symm h.1), ih h.2]

/-- A comma and a blank end an operand. -/
theorem splitOperands_append {o : List Char} (h : ',' ∉ o) (cs : List Char) :
    splitOperands (o ++ ',' :: ' ' :: cs) = o :: splitOperands cs := by
  induction o with
  | nil => rfl
  | cons c o ih =>
    rw [List.mem_cons, not_or] at h
    rw [List.cons_append, splitOperands_cons (Ne.symm h.1), ih h.2]

/-- Operands that have no comma in them are found again when they have been joined. -/
theorem splitOperands_intercalate {os : List (List Char)} (hne : os ≠ [])
    (h : ∀ o ∈ os, ',' ∉ o) : splitOperands ([',', ' '].intercalate os) = os := by
  induction os with
  | nil => exact absurd rfl hne
  | cons o os ih =>
    have ho := h o List.mem_cons_self
    cases os with
    | nil => rw [List.intercalate_singleton, splitOperands_of_notMem ho]
    | cons o' os =>
      have hrest := ih (List.cons_ne_nil o' os) fun x hx => h x (List.mem_cons_of_mem _ hx)
      rw [List.intercalate_cons_cons, List.append_assoc]
      show splitOperands (o ++ ',' :: ' ' :: [',', ' '].intercalate (o' :: os)) = _
      rw [splitOperands_append ho, hrest]

/-- A character in quotes is one operand, whatever the character. -/
theorem splitOperands_quoted (c : Char) : splitOperands ['\'', c, '\''] = [['\'', c, '\'']] := by
  have hlast : splitOperands ['\''] = [['\'']] := rfl
  have hmiddle : splitOperands [c, '\''] = [[c, '\'']] := by
    rw [splitOperands, hlast]
    rintro _ _ h
    cases h
  rw [splitOperands_cons (by decide), hmiddle]

theorem toList_spelled {name lead : String} (hlead : lead.toList = name.toList ++ [' '])
    (field : String) : (lead ++ field).toList = name.toList ++ ' ' :: field.toList := by
  rw [String.toList_append, hlead, List.append_assoc]
  rfl

variable {name : List Char}

theorem ne_blank_of_notMem (h : ' ' ∉ name) : ∀ c ∈ name, (c != ' ') = true := by
  intro c hc
  rw [bne_iff_ne]
  rintro rfl
  exact h hc

/-- A line without a blank is a name by itself. -/
theorem mnemonic_of_notMem (h : ' ' ∉ name) : mnemonic name = name :=
  List.takeWhile_eq_self_iff.mpr (ne_blank_of_notMem h)

/-- The name ends at the first blank. -/
theorem mnemonic_spelled (h : ' ' ∉ name) (field : List Char) :
    mnemonic (name ++ ' ' :: field) = name := by
  unfold mnemonic
  rw [List.takeWhile_append_of_pos (ne_blank_of_notMem h)]
  exact List.append_nil name

/-- Behind a name by itself there are no operands. -/
theorem operands_of_notMem (h : ' ' ∉ name) : operands name = [] := by
  unfold operands
  rw [List.dropWhile_eq_nil_iff.mpr (ne_blank_of_notMem h)]

/-- The operands are what follows the blank, split at the commas. -/
theorem operands_spelled (h : ' ' ∉ name) (field : List Char) :
    operands (name ++ ' ' :: field) = splitOperands field := by
  unfold operands
  rw [List.dropWhile_append_of_pos (ne_blank_of_notMem h)]
  rfl

end Retrocore.Text
