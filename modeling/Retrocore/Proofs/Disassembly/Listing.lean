import Mathlib.Data.List.SplitBy
import Retrocore.Disassembly

/-!
# Listings

A disassembly is printed in two passes over the lines. The first goes along with
two indices and collects the long runs of equal texts; the second prints line by
line, and where a long run starts it prints the two ends and dots between them,
and moves its index behind the run. `listing_elides` says that together they print
what one would expect of the runs that the lines fall into, whatever their number
and length, and that the second pass comes to its end.

Between the passes stand the `spans`, the first and last index of each long run,
computed from the runs themselves. That the first pass finds them is an induction
on the runs, with one lemma for the way through a run and one for its end; that
the second pass uses them up is another, in which nothing has to be known of the
texts.
-/

namespace Retrocore

/-! ## Runs -/

def OneText (run : List Line) : Prop := ∀ a ∈ run, ∀ b ∈ run, a.text = b.text

/-- The lines are the runs, each of which has one text, and neighbours have
different ones. -/
structure MaximalRuns (lines : List Line) (runs : List (List Line)) : Prop where
  flatten : runs.flatten = lines
  nonempty : [] ∉ runs
  equal : ∀ run ∈ runs, OneText run
  differ : runs.IsChain fun run next => ∀ a ∈ run, ∀ b ∈ next, a.text ≠ b.text

/-- A run of lines as it is printed: in full, or as its ends with dots between
them. -/
def printedRun (run : List Line) : List String :=
  if run.length ≤ 8 then run.map Line.render
  else (run.head?.map Line.render).toList ++ ["..."] ++ (run.getLast?.map Line.render).toList

variable {runs later : List (List Line)} {run : List Line}

/-- A run of more than eight lines is cut down to three. -/
theorem printedRun_of_long (hlong : 8 < run.length) :
    printedRun run = [run[0].render, "...", run[run.length - 1].render] := by
  unfold printedRun
  rw [if_neg (Nat.not_le_of_lt hlong), List.head?_eq_getElem?, List.getLast?_eq_getElem?,
    List.getElem?_eq_getElem, List.getElem?_eq_getElem]
  rfl

/-- Without the first run, the others split what is left. -/
theorem MaximalRuns.tail {lines : List Line} (h : MaximalRuns lines (run :: later)) :
    MaximalRuns later.flatten later where
  flatten := rfl
  nonempty := fun hmem => h.nonempty (List.mem_cons_of_mem run hmem)
  equal := fun next hmem => h.equal next (List.mem_cons_of_mem run hmem)
  differ := h.differ.tail

/-- No run is empty. -/
theorem MaximalRuns.head_pos {lines : List Line} (h : MaximalRuns lines (run :: later)) :
    0 < run.length :=
  List.length_pos_iff.mpr fun hnil => h.nonempty (hnil ▸ List.mem_cons_self)

/-- From neighbour to neighbour the text stays that of the first line. -/
theorem text_eq_of_isChain {first : Line} {rest : List Line}
    (hchain : (first :: rest).IsChain fun a b => (a.text == b.text) = true) :
    ∀ a ∈ first :: rest, a.text = first.text := by
  induction rest generalizing first with
  | nil =>
    intro a ha
    rw [List.mem_singleton.mp ha]
  | cons next rest ih =>
    intro a ha
    obtain ⟨hnext, hrest⟩ := List.isChain_cons_cons.mp hchain
    obtain rfl | ha := List.mem_cons.mp ha
    · rfl
    · exact (ih hrest a ha).trans (eq_of_beq hnext).symm

/-- Neighbours with one text make a run with one text. -/
theorem isChain_text_iff :
    (run.IsChain fun a b => (a.text == b.text) = true) ↔ OneText run := by
  constructor
  · intro hchain a ha b hb
    cases run with
    | nil => cases ha
    | cons first rest =>
      have hfirst := text_eq_of_isChain hchain
      exact (hfirst a ha).trans (hfirst b hb).symm
  · intro hequal
    refine List.Pairwise.isChain (List.pairwise_of_forall_mem_list fun a ha b hb => ?_)
    exact beq_iff_eq.mpr (hequal a ha b hb)

/-- Where runs have one text each, it does not matter which lines are compared. -/
theorem differ_iff {next : List Line} (hrun : run ≠ []) (hnext : next ≠ [])
    (hequal : OneText run) (hequal' : OneText next) :
    (∀ a ∈ run, ∀ b ∈ next, a.text ≠ b.text) ↔
      ∃ ha hb, ((run.getLast ha).text == (next.head hb).text) = false := by
  constructor
  · intro hdiffer
    exact ⟨hrun, hnext,
      beq_eq_false_iff_ne.mpr (hdiffer _ (List.getLast_mem hrun) _ (List.head_mem hnext))⟩
  · rintro ⟨hrun, hnext, hdiffer⟩ a ha b hb
    rw [hequal a ha _ (List.getLast_mem hrun), hequal' b hb _ (List.head_mem hnext)]
    exact beq_eq_false_iff_ne.mp hdiffer

/-- There is one way to cut lines into runs. -/
theorem maximalRuns_iff {lines : List Line} :
    MaximalRuns lines runs ↔ runs = lines.splitBy fun a b => a.text == b.text := by
  rw [eq_comm, List.splitBy_eq_iff]
  constructor
  · intro h
    have hne : ∀ run ∈ runs, run ≠ [] := fun run hrun hnil => h.nonempty (hnil ▸ hrun)
    refine ⟨h.flatten.symm, h.nonempty, fun run hrun => isChain_text_iff.mpr (h.equal run hrun), ?_⟩
    refine h.differ.imp_of_mem_imp fun run next hrun hnext hdiffer => ?_
    exact (differ_iff (hne run hrun) (hne next hnext) (h.equal run hrun) (h.equal next hnext)).mp
      hdiffer
  · rintro ⟨hflatten, hnonempty, hchain, hends⟩
    have hne : ∀ run ∈ runs, run ≠ [] := fun run hrun hnil => hnonempty (hnil ▸ hrun)
    have hequal : ∀ run ∈ runs, OneText run :=
      fun run hrun => isChain_text_iff.mp (hchain run hrun)
    refine ⟨hflatten.symm, hnonempty, hequal, ?_⟩
    refine hends.imp_of_mem_imp fun run next hrun hnext hdiffer => ?_
    exact (differ_iff (hne run hrun) (hne next hnext) (hequal run hrun) (hequal next hnext)).mpr
      hdiffer

/-! ## Looking for runs -/

variable {lines : Array Line} {before : List Line}

/-- What stands behind some lines, by its index. -/
theorem getElem?_behind {rest : List Line} (hlines : lines.toList = before ++ rest) (i : Nat) :
    lines[before.length + i]? = rest[i]? := by
  rw [← Array.getElem?_toList, hlines, List.getElem?_append_right (Nat.le_add_right _ _),
    Nat.add_sub_cancel_left]

/-- What is not before the rest is the rest. -/
theorem size_eq_add {rest : List Line} (hlines : lines.toList = before ++ rest) :
    lines.size = before.length + rest.length := by
  rw [← Array.length_toList, hlines, List.length_append]

def LongRun.span (r : LongRun lines) : Nat × Nat := (r.first, r.past)

/-- Where the long runs stand, if the first run starts at an index. -/
def spans : Nat → List (List Line) → List (Nat × Nat)
  | _, [] => []
  | start, run :: later =>
    (if longestFullRun < run.length then [(start, start + run.length)] else []) ++
      spans (start + run.length) later

/-- Spans begin where they are counted from, or later. -/
theorem le_of_mem_spans {start : Nat} {span : Nat × Nat} (h : span ∈ spans start runs) :
    start ≤ span.1 := by
  induction runs generalizing start with
  | nil => cases h
  | cons run later ih =>
    obtain hhere | hlater := List.mem_append.mp h
    · split at hhere
      next => exact (List.mem_singleton.mp hhere) ▸ Nat.le_refl start
      next => cases hhere
    · exact Nat.le_trans (Nat.le_add_right ..) (ih hlater)

/-- Nothing is found before the run ends. -/
theorem longRunsFrom_inside {first past : Nat} (hpast : past ≤ lines.size)
    (hsame : ∀ i, first < i → i < past → lines[i]?.map Line.text = lines[first]?.map Line.text)
    {i : Nat} (hi : first < i) (hle : i ≤ past) :
    longRunsFrom lines first i = longRunsFrom lines first past := by
  induction hle using Nat.decreasingInduction with
  | self => rfl
  | of_succ i hlt ih =>
    have hgoes : ¬ (i = lines.size ∨ lines[i]?.map Line.text ≠ lines[first]?.map Line.text) := by
      rintro (hend | hdiffer)
      · omega
      · exact hdiffer (hsame i hi hlt)
    rw [longRunsFrom, dif_pos (by omega), if_neg hgoes]
    exact ih (Nat.lt_succ_of_lt hi)

/-- Where the run ends it is found if it is long. -/
theorem span_longRunsFrom_end {first i : Nat} (hi : i ≤ lines.size)
    (hend : i = lines.size ∨ lines[i]?.map Line.text ≠ lines[first]?.map Line.text) :
    (longRunsFrom lines first i).map LongRun.span =
      (if longestFullRun < i - first then [(first, i)] else []) ++
        (longRunsFrom lines i (i + 1)).map LongRun.span := by
  rw [longRunsFrom, dif_pos hi, if_pos hend]
  split
  next => rfl
  next => rfl

/-- The lines of a run are found behind those before it. -/
theorem getElem?_run {rest : List Line} (hlines : lines.toList = before ++ (run ++ rest)) {i : Nat}
    (hi : i < run.length) : lines[before.length + i]? = some run[i] := by
  rw [getElem?_behind hlines, List.getElem?_append_left hi, List.getElem?_eq_getElem hi]

/-- Its first line is found right behind them. -/
theorem getElem?_first {rest : List Line} (hlines : lines.toList = before ++ (run ++ rest))
    (hpositive : 0 < run.length) : lines[before.length]? = some run[0] :=
  getElem?_run hlines hpositive

/-- All lines of a run have the text of its first. -/
theorem text_inside {rest : List Line} (hlines : lines.toList = before ++ (run ++ rest))
    (hequal : OneText run) {i : Nat} (hi : before.length ≤ i)
    (hlt : i < before.length + run.length) :
    lines[i]?.map Line.text = lines[before.length]?.map Line.text := by
  obtain ⟨j, rfl⟩ : ∃ j, i = before.length + j := ⟨i - before.length, by omega⟩
  have hj : j < run.length := by omega
  rw [getElem?_run hlines hj, getElem?_first hlines (Nat.zero_lt_of_lt hj)]
  exact congrArg some (hequal _ (List.getElem_mem _) _ (List.getElem_mem _))

/-- A run ends with the last line, or another text follows. -/
theorem text_behind (hruns : MaximalRuns (run :: later).flatten (run :: later))
    (hlines : lines.toList = before ++ (run ++ later.flatten)) :
    before.length + run.length = lines.size ∨
      lines[before.length + run.length]?.map Line.text ≠ lines[before.length]?.map Line.text := by
  have hpositive := hruns.head_pos
  cases later with
  | nil =>
    left
    rw [size_eq_add hlines]
    simp
  | cons next later =>
    right
    obtain ⟨line, rest, rfl⟩ := List.exists_cons_of_length_pos hruns.tail.head_pos
    have hline : lines[before.length + run.length]? = some line := by
      rw [getElem?_behind hlines, List.getElem?_append_right (Nat.le_refl _), Nat.sub_self]
      rfl
    rw [getElem?_first hlines hpositive, hline]
    intro hsame
    have hdiffer := (List.isChain_cons_cons.mp hruns.differ).1
    exact hdiffer _ (List.getElem_mem hpositive) line List.mem_cons_self
      (Option.some.inj hsame).symm

/-- The first pass finds the long runs, in order. -/
theorem span_longRunsFrom (before : List Line) (hruns : MaximalRuns runs.flatten runs)
    (hlines : lines.toList = before ++ runs.flatten) :
    (longRunsFrom lines before.length (before.length + 1)).map LongRun.span =
      spans before.length runs := by
  induction runs generalizing before with
  | nil =>
    -- the index is behind the last line already
    have hsize := size_eq_add hlines
    rw [longRunsFrom, dif_neg (by rw [hsize]; simp)]
    rfl
  | cons run later ih =>
    rw [List.flatten_cons] at hlines
    have hpositive := hruns.head_pos
    have hpast : before.length + run.length ≤ lines.size := by
      rw [size_eq_add hlines, List.length_append]
      omega
    have hequal := hruns.equal run List.mem_cons_self
    have hinside := longRunsFrom_inside hpast
      (fun i hi hlt => text_inside hlines hequal (Nat.le_of_lt hi) hlt)
      (Nat.lt_succ_self before.length) (by omega)
    have hlater := ih (before ++ run) hruns.tail (by rw [hlines, List.append_assoc])
    rw [List.length_append] at hlater
    rw [hinside, span_longRunsFrom_end hpast (text_behind hruns hlines), hlater,
      Nat.add_sub_cancel_left]
    rfl

/-! ## Printing -/

namespace Printer

variable {ahead : List (LongRun lines)} {next : Nat}

/-- Behind the last line nothing is printed. -/
theorem print_of_le {p : Printer lines} (h : lines.size ≤ p.next) : p.print = [] := by
  rw [print, dif_neg (Nat.not_lt_of_le h)]

/-- Before it, a round is printed and then the rest. -/
theorem print_of_lt {p : Printer lines} (h : p.next < lines.size) :
    p.print = (p.round h).1 ++ (p.round h).2.print := by
  rw [print, dif_pos h]

/-- Where no long run starts a round prints one line. -/
theorem round_of_short (h : next < lines.size) (hahead : ∀ r ∈ ahead, r.first ≠ next) :
    (Printer.mk next ahead).round h = ([lines[next].render], ⟨next + 1, ahead⟩) := by
  cases ahead with
  | nil => rfl
  | cons r later => exact if_neg (hahead r List.mem_cons_self)

/-- At a long run, its first line is printed, the dots, and its last line. -/
theorem round_of_long {r : LongRun lines} (h : r.first < lines.size) :
    (Printer.mk r.first (r :: ahead)).round h =
      ([lines[r.first].render, "...", r.last.render], ⟨r.past, ahead⟩) :=
  if_pos rfl

section

variable {r : LongRun lines} {rest : List Line} (hlines : lines.toList = before ++ (run ++ rest))
  (hlong : longestFullRun < run.length)

include hlines

theorem getElem_first (hfirst : r.first = before.length) (hlt : r.first < lines.size) :
    lines[r.first] = run[0] := by
  have hline := getElem?_first hlines (Nat.zero_lt_of_lt hlong)
  rw [← hfirst, Array.getElem?_eq_getElem hlt] at hline
  exact Option.some.inj hline

/-- The last line of a run stands before its end. -/
theorem last_eq (hpast : r.past = before.length + run.length) :
    r.last = run[run.length - 1] := by
  have hline := getElem?_run hlines (i := run.length - 1) (by omega)
  have hindex : r.past - 1 = before.length + (run.length - 1) := by omega
  have hlt : r.past - 1 < lines.size := by
    rw [hindex, size_eq_add hlines, List.length_append]
    omega
  rw [← hindex, Array.getElem?_eq_getElem hlt] at hline
  exact Option.some.inj hline

end

/-- What stands in front of all long runs is printed in full. -/
theorem print_full (before shown : List Line) {rest : List Line}
    (hlines : lines.toList = before ++ (shown ++ rest))
    (hahead : ∀ r ∈ ahead, before.length + shown.length ≤ r.first) :
    (Printer.mk before.length ahead).print =
      shown.map Line.render ++ (Printer.mk (before.length + shown.length) ahead).print := by
  induction shown generalizing before with
  | nil => rfl
  | cons line shown ih =>
    rw [List.length_cons] at hahead
    have hlt : before.length < lines.size := by
      rw [size_eq_add hlines, List.cons_append, List.length_cons]
      omega
    have hline : lines[before.length] = line := by
      have hfirst := getElem?_first hlines (Nat.succ_pos _)
      rw [Array.getElem?_eq_getElem hlt] at hfirst
      exact Option.some.inj hfirst
    have hshort : ∀ r ∈ ahead, r.first ≠ before.length := by
      intro r hr
      have := hahead r hr
      omega
    have hlater := ih (before ++ [line]) (by rw [hlines]; simp) (by
      intro r hr
      have := hahead r hr
      rw [List.length_append, List.length_singleton]
      omega)
    rw [List.length_append, List.length_singleton] at hlater
    rw [print_of_lt hlt, round_of_short hlt hshort, hline, hlater, List.length_cons,
      Nat.add_assoc, Nat.add_comm 1]
    rfl

/-- The second pass prints run after run. -/
theorem print_eq (before : List Line) (ahead : List (LongRun lines))
    (hlines : lines.toList = before ++ runs.flatten)
    (hahead : ahead.map LongRun.span = spans before.length runs) :
    (Printer.mk before.length ahead).print = runs.flatMap printedRun := by
  induction runs generalizing before ahead with
  | nil =>
    refine print_of_le (Nat.le_of_eq ?_)
    rw [size_eq_add hlines]
    rfl
  | cons run later ih =>
    rw [List.flatten_cons] at hlines
    have hafter : lines.toList = before ++ run ++ later.flatten := by
      rw [hlines, List.append_assoc]
    have hlater := fun ahead => ih (before ++ run) ahead hafter
    rw [List.length_append] at hlater
    rw [List.flatMap_cons]
    by_cases hlong : longestFullRun < run.length
    · rw [spans, if_pos hlong] at hahead
      obtain ⟨r, ahead, rfl, hr, hrest⟩ := List.map_eq_cons_iff.mp hahead
      obtain ⟨hfirst, hpast⟩ : r.first = before.length ∧ r.past = before.length + run.length :=
        Prod.mk.inj hr
      have hlt : r.first < lines.size := by
        rw [hfirst, size_eq_add hlines, List.length_append]
        omega
      rw [← hfirst, print_of_lt hlt, round_of_long hlt, printedRun_of_long hlong,
        getElem_first hlines hlong hfirst, last_eq hlines hlong hpast, hpast,
        hlater ahead hrest]
    · -- the long runs that are left start behind this one
      rw [spans, if_neg hlong, List.nil_append] at hahead
      have hstart : ∀ r ∈ ahead, before.length + run.length ≤ r.first := by
        intro r hr
        have hspan : r.span ∈ spans (before.length + run.length) later :=
          hahead ▸ List.mem_map_of_mem hr
        exact le_of_mem_spans hspan
      have hfull : printedRun run = run.map Line.render := if_pos (Nat.le_of_not_lt hlong)
      rw [print_full before run hlines hstart, hlater ahead hahead, hfull]

/-! ### The number of rounds -/

/-- The printer after some rounds, or after its last one. -/
def after (p : Printer lines) : Nat → Printer lines
  | 0 => p
  | rounds + 1 => if h : p.next < lines.size then (p.round h).2.after rounds else p

/-- Every round passes a line at least. -/
theorem le_next_after (p : Printer lines) (rounds : Nat) :
    lines.size ≤ (p.after rounds).next ∨ p.next + rounds ≤ (p.after rounds).next := by
  induction rounds generalizing p with
  | zero => exact .inr (Nat.le_refl _)
  | succ rounds ih =>
    rw [after]
    by_cases h : p.next < lines.size
    · have hmoves := p.next_lt_round h
      rw [dif_pos h]
      obtain hended | hfar := ih (p.round h).2
      · exact .inl hended
      · exact .inr (by omega)
    · rw [dif_neg h]
      exact .inl (Nat.le_of_not_lt h)

/-- There are no more rounds than lines. -/
theorem ends (p : Printer lines) : lines.size ≤ (p.after lines.size).next := by
  obtain hended | hfar := p.le_next_after lines.size
  · exact hended
  · exact Nat.le_trans (Nat.le_add_left ..) hfar

end Printer

/-! ## The whole -/

/-- The two passes together. -/
theorem listing_eq {lines : List Line} (hruns : MaximalRuns lines runs) :
    listing lines = runs.flatMap printedRun := by
  have hflatten := hruns.flatten
  subst hflatten
  have hlines : runs.flatten.toArray.toList = [] ++ runs.flatten := rfl
  exact Printer.print_eq [] _ hlines (span_longRunsFrom [] hruns hlines)

/-- A single line is a run by itself. -/
theorem listing_singleton (line : Line) : listing [line] = [line.render] := by
  have hruns : MaximalRuns [line] [[line]] :=
    ⟨rfl, by simp, by simp [OneText], List.isChain_singleton _⟩
  exact listing_eq hruns

/-- **A listing leaves out the inside of long runs and nothing else.** The lines
fall into maximal runs of equal texts in one way. Runs of at most eight lines are
printed in full, and of a longer one the first line, dots and the last line. The
printing is over after at most as many rounds as there are lines. -/
theorem listing_elides (lines : List Line) :
    (∃ runs, (∀ other, MaximalRuns lines other ↔ other = runs) ∧
      listing lines = runs.flatMap printedRun) ∧
    lines.length ≤ ((Printer.mk 0 (longRuns lines.toArray)).after lines.length).next := by
  constructor
  · have hruns := maximalRuns_iff.mpr (rfl : _ = lines.splitBy fun a b => a.text == b.text)
    exact ⟨_, fun _ => maximalRuns_iff, listing_eq hruns⟩
  · have hends := (Printer.mk 0 (longRuns lines.toArray)).ends
    rwa [List.size_toArray] at hends

/-- Nine equal lines are cut down, and eight are not. -/
example :
    let line (text : String) (i : Nat) : Line := ⟨UInt16.ofNat i, text, true⟩
    listing ((List.range 8).map (line "inp") ++ (List.range 9).map (line "out")) =
      ["00\tinp", "01\tinp", "02\tinp", "03\tinp", "04\tinp", "05\tinp", "06\tinp",
        "07\tinp", "00\tout", "...", "08\tout"] := by
  cbv

end Retrocore
