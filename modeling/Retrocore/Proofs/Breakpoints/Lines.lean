import Mathlib.Data.List.TakeWhile
import Retrocore.Disassembly
import Retrocore.Execution.Debugger
import Retrocore.Proofs.Disassembly.Faithful
import Retrocore.Proofs.Text.Numerals

/-!
# Breakpoint lines

A line shows an address if it begins with a numeral, perhaps behind `0x`, with no more than
white space around it up to the first tab or the end (`ShowsAddress`). These are the lines that
are read as breakpoints, if their address has room in a word; every other line is refused
(`ofLine_accepts_grammar`). The lines of a disassembly are among them (`ofLine_base_render`).
-/

namespace Retrocore

namespace Text

/-- White space about a text goes, if there is none within. -/
theorem trimBlanks_append {lead core trail : List Char} (hlead : ∀ c ∈ lead, isBlank c = true)
    (hcore : ∀ c ∈ core, isBlank c = false) (hne : core ≠ [])
    (htrail : ∀ c ∈ trail, isBlank c = true) : trimBlanks (lead ++ core ++ trail) = core := by
  have hdrop {blanks text : List Char} (hblanks : ∀ c ∈ blanks, isBlank c = true)
      (htext : ∃ c cs, text = c :: cs ∧ isBlank c = false) :
      (blanks ++ text).dropWhile isBlank = text := by
    obtain ⟨c, cs, rfl, hc⟩ := htext
    rw [List.dropWhile_append_of_pos hblanks, List.dropWhile_cons_of_neg (by simp [hc])]
  have hfirst {text : List Char} (htext : ∀ c ∈ text, isBlank c = false) (hne : text ≠ [])
      (more : List Char) : ∃ c cs, text ++ more = c :: cs ∧ isBlank c = false := by
    obtain ⟨c, cs, rfl⟩ := List.exists_cons_of_ne_nil hne
    exact ⟨c, cs ++ more, rfl, htext c List.mem_cons_self⟩
  have hlast : ∃ c cs, core.reverse ++ [] = c :: cs ∧ isBlank c = false :=
    hfirst (by simpa using hcore) (by simpa using hne) []
  rw [List.append_nil] at hlast
  unfold trimBlanks
  rw [List.append_assoc, hdrop hlead (hfirst hcore hne trail), List.reverse_append,
    hdrop (by simpa using htrail) hlast, List.reverse_reverse]

/-- What goes is white space. -/
theorem exists_trimBlanks (cs : List Char) : ∃ lead trail, cs = lead ++ trimBlanks cs ++ trail ∧
    (∀ c ∈ lead, isBlank c = true) ∧ ∀ c ∈ trail, isBlank c = true := by
  let rest := cs.dropWhile isBlank
  refine ⟨cs.takeWhile isBlank, (rest.reverse.takeWhile isBlank).reverse, ?_, ?_, ?_⟩
  · have hrest : trimBlanks cs ++ (rest.reverse.takeWhile isBlank).reverse = rest := by
      show (rest.reverse.dropWhile isBlank).reverse ++ _ = rest
      rw [← List.reverse_append, List.takeWhile_append_dropWhile, List.reverse_reverse]
    rw [List.append_assoc, hrest]
    exact (List.takeWhile_append_dropWhile).symm
  · exact fun c hc => List.mem_takeWhile_imp hc
  · exact fun c hc => List.mem_takeWhile_imp (List.mem_reverse.mp hc)

/-- The mark of hexadecimal digits is cut off where it stands. -/
theorem hexMarked?_eq_some_iff {cs rest : List Char} :
    hexMarked? cs = some rest ↔ cs = '0' :: 'x' :: rest := by
  unfold hexMarked?
  split
  next => simp
  next hother =>
    refine iff_of_false (fun h => nomatch h) fun h => hother rest h

end Text

namespace Breakpoint

open Text (IsNumeral isBlank)

/-- A line shows an address: white space, perhaps `0x`, a numeral and white space again, up to
the first tab or the end of the line. -/
inductive ShowsAddress (radix : Nat) : List Char → Nat → Prop
  | mk {lead mark numeral trail rest : List Char} {n : Nat}
      (hlead : ∀ c ∈ lead, isBlank c = true ∧ c ≠ '\t')
      (hmark : mark = [] ∨ mark = ['0', 'x'])
      (hnumeral : IsNumeral radix numeral n)
      (htrail : ∀ c ∈ trail, isBlank c = true ∧ c ≠ '\t')
      (hrest : rest = [] ∨ ∃ more, rest = '\t' :: more) :
      ShowsAddress radix (lead ++ mark ++ numeral ++ trail ++ rest) n

variable {radix n : Nat}

/-- A numeral behind its mark. -/
theorem hexMarked_numeral (hradix : radix ≤ 16) {mark numeral : List Char}
    (hmark : mark = [] ∨ mark = ['0', 'x']) (hnumeral : IsNumeral radix numeral n) :
    (Text.hexMarked? (mark ++ numeral)).getD (mark ++ numeral) = numeral := by
  obtain rfl | rfl := hmark
  · -- a numeral without a mark holds no `x`
    have hnone : Text.hexMarked? numeral = none := by
      rw [Option.eq_none_iff_forall_ne_some]
      intro rest hmarked
      obtain rfl := Text.hexMarked?_eq_some_iff.mp hmarked
      have hx : 'x' ∉ '0' :: 'x' :: rest := hnumeral.notMem hradix rfl (by decide)
      exact hx (List.mem_cons_of_mem _ List.mem_cons_self)
    rw [List.nil_append, hnone]
    rfl
  · rfl

/-- A field begins with the mark, or does without. -/
theorem exists_mark (field : List Char) : ∃ mark, (mark = [] ∨ mark = ['0', 'x']) ∧
    field = mark ++ (Text.hexMarked? field).getD field := by
  cases hmarked : Text.hexMarked? field with
  | none => exact ⟨[], .inl rfl, rfl⟩
  | some rest => exact ⟨['0', 'x'], .inr rfl, Text.hexMarked?_eq_some_iff.mp hmarked⟩

/-- A line begins with a field, which ends at the first tab or with the line. -/
theorem exists_field (cs : List Char) : ∃ text rest, cs = text ++ rest ∧ '\t' ∉ text ∧
    (rest = [] ∨ ∃ more, rest = '\t' :: more) := by
  induction cs with
  | nil => exact ⟨[], [], rfl, List.not_mem_nil, .inl rfl⟩
  | cons c cs ih =>
    by_cases hc : c = '\t'
    · exact ⟨[], c :: cs, rfl, List.not_mem_nil, .inr ⟨cs, by rw [hc]⟩⟩
    · obtain ⟨text, rest, rfl, htext, hrest⟩ := ih
      exact ⟨c :: text, rest, rfl, List.not_mem_cons_of_ne_of_not_mem (Ne.symm hc) htext, hrest⟩

/-- Behind a text without tabs, the rest of a line is cut off at its tab. -/
theorem takeWhile_field {text rest : List Char} (htext : '\t' ∉ text)
    (hrest : rest = [] ∨ ∃ more, rest = '\t' :: more) :
    (text ++ rest).takeWhile (· != '\t') = text := by
  have hall : ∀ c ∈ text, (c != '\t') = true := by
    intro c hc
    rw [bne_iff_ne]
    rintro rfl
    exact htext hc
  rw [List.takeWhile_append_of_pos hall]
  obtain rfl | ⟨more, rfl⟩ := hrest
  · exact List.append_nil _
  · exact List.append_nil _

/-- A line that shows an address has the numeral of it. -/
theorem ShowsAddress.isNumeral (hradix : radix ≤ 16) {line : String}
    (h : ShowsAddress radix line.toList n) : IsNumeral radix (numeral line) n := by
  unfold numeral
  generalize line.toList = cs at h
  cases h with
  | @mk lead mark numeral trail rest _ hlead hmark hnumeral htrail hrest =>
    have hblanks {blanks : List Char} (h : ∀ c ∈ blanks, isBlank c = true ∧ c ≠ '\t') :
        '\t' ∉ blanks := fun hmem => (h _ hmem).2 rfl
    have hmarked : '\t' ∉ mark := by
      obtain rfl | rfl := hmark <;> decide
    have htab : '\t' ∉ lead ++ mark ++ numeral ++ trail := by
      simp only [List.mem_append, not_or]
      exact ⟨⟨⟨hblanks hlead, hmarked⟩, hnumeral.notMem hradix rfl (by decide)⟩, hblanks htrail⟩
    have hcore : ∀ c ∈ mark ++ numeral, isBlank c = false := by
      intro c hc
      obtain hc | hc := List.mem_append.mp hc
      · obtain rfl | rfl := hmark
        · cases hc
        · simp only [List.mem_cons, List.not_mem_nil, or_false] at hc
          obtain rfl | rfl := hc <;> decide
      · exact hnumeral.isBlank_eq_false hradix c hc
    have hne : mark ++ numeral ≠ [] := by
      obtain ⟨sign, ds, rfl, -, hds, -⟩ := hnumeral
      simp [hds]
    dsimp only
    rw [takeWhile_field htab hrest, List.append_assoc lead,
      Text.trimBlanks_append (fun c hc => (hlead c hc).1) hcore hne fun c hc => (htrail c hc).1,
      hexMarked_numeral hradix hmark hnumeral]
    exact hnumeral

/-- And a line with a numeral shows what that stands for. -/
theorem showsAddress_of_isNumeral {line : String} (h : IsNumeral radix (numeral line) n) :
    ShowsAddress radix line.toList n := by
  unfold numeral at h
  obtain ⟨text, rest, hline, htext, hrest⟩ := exists_field line.toList
  rw [hline, takeWhile_field htext hrest] at h
  rw [hline]
  obtain ⟨lead, trail, hsplit, hlead, htrail⟩ := Text.exists_trimBlanks text
  obtain ⟨mark, hmark, hfield⟩ := exists_mark (Text.trimBlanks text)
  have hwithin {c : Char} (hc : c ∈ text) : c ≠ '\t' := by
    rintro rfl
    exact htext hc
  have hleft : ∀ c ∈ lead, isBlank c = true ∧ c ≠ '\t' := fun c hc =>
    ⟨hlead c hc, hwithin (hsplit ▸ List.mem_append_left _ (List.mem_append_left _ hc))⟩
  have hright : ∀ c ∈ trail, isBlank c = true ∧ c ≠ '\t' := fun c hc =>
    ⟨htrail c hc, hwithin (hsplit ▸ List.mem_append_right _ hc)⟩
  have hshows := ShowsAddress.mk hleft hmark h hright hrest
  rwa [List.append_assoc lead, ← hfield, ← hsplit] at hshows

/-- The address of a line is what stands at its beginning. -/
theorem isNumeral_numeral_iff (hradix : radix ≤ 16) {line : String} :
    IsNumeral radix (numeral line) n ↔ ShowsAddress radix line.toList n :=
  ⟨showsAddress_of_isNumeral, ShowsAddress.isNumeral hradix⟩

/-- No line shows two addresses in one radix. -/
theorem ShowsAddress.unique (hradix : radix ≤ 16) {line : String} {m : Nat}
    (hm : ShowsAddress radix line.toList m) (hn : ShowsAddress radix line.toList n) : m = n :=
  (hm.isNumeral hradix).unique hradix (hn.isNumeral hradix)

/-- A line is taken if it shows an address that there is. -/
theorem ofLine_eq_ok_iff (hradix : radix ≤ 16) {line : String} {b : Breakpoint} :
    ofLine radix line = .ok b ↔
      ∃ n ≤ 65535, ShowsAddress radix line.toList n ∧ b = ⟨UInt16.ofNat n, line⟩ := by
  have hread (n : Nat) : Text.readNumeral radix 65535 (numeral line) = .ok n ↔
      n ≤ 65535 ∧ ShowsAddress radix line.toList n := by
    rw [Text.readNumeral_eq_ok_iff hradix, isNumeral_numeral_iff hradix]
  unfold ofLine
  constructor
  · intro h
    split at h
    next n hn =>
      obtain ⟨hlimit, hshows⟩ := (hread n).mp hn
      exact ⟨n, hlimit, hshows, (Except.ok.inj h).symm⟩
    next => cases h
  · rintro ⟨n, hlimit, hshows, rfl⟩
    rw [(hread n).mpr ⟨hlimit, hshows⟩]

/-- Whatever is wrong with a line, it is refused as a whole. -/
theorem fault_ofLine {line : String} {fault : Fault} (h : ofLine radix line = .error fault) :
    fault = .invalidBreakpoint line := by
  unfold ofLine at h
  split at h
  next => cases h
  next => exact (Except.error.inj h).symm

/-- A line that shows no address, or one that there is not, is refused as a whole. -/
theorem ofLine_eq_error_iff (hradix : radix ≤ 16) {line : String} {fault : Fault} :
    ofLine radix line = .error fault ↔
      (∀ n ≤ 65535, ¬ ShowsAddress radix line.toList n) ∧ fault = .invalidBreakpoint line := by
  constructor
  · intro h
    refine ⟨fun n hn hshows => ?_, fault_ofLine h⟩
    rw [(ofLine_eq_ok_iff hradix).mpr ⟨n, hn, hshows, rfl⟩] at h
    cases h
  · rintro ⟨hnone, rfl⟩
    cases hread : ofLine radix line with
    | ok b =>
      obtain ⟨n, hn, hshows, -⟩ := (ofLine_eq_ok_iff hradix).mp hread
      exact absurd hshows (hnone n hn)
    | error fault => rw [fault_ofLine hread]

/-- **The lines that show an address are read as breakpoints**, in decimal and in hexadecimal,
if the address has room in a word, and every other line is refused with the whole of it. -/
theorem ofLine_accepts_grammar {radix : Nat} (hradix : radix = 10 ∨ radix = 16) (line : String) :
    (∀ b, ofLine radix line = .ok b ↔
      ∃ n ≤ 65535, ShowsAddress radix line.toList n ∧ b = ⟨UInt16.ofNat n, line⟩) ∧
    ∀ fault, ofLine radix line = .error fault ↔
      (∀ n ≤ 65535, ¬ ShowsAddress radix line.toList n) ∧ fault = .invalidBreakpoint line := by
  have hle : radix ≤ 16 := by omega
  exact ⟨fun _ => ofLine_eq_ok_iff hle, fun _ => ofLine_eq_error_iff hle⟩

/-- With white space, mark, sign, zeros and letters of both cases; a second mark is too much. -/
theorem ofLine_accepts_grammar_padded :
    ((16 : Nat) = 10 ∨ (16 : Nat) = 16) ∧
      ofLine 16 "\u00a00x+00fF \tnop" = .ok ⟨255, "\u00a00x+00fF \tnop"⟩ ∧
      ∀ n ≤ 65535, ¬ ShowsAddress 16 "0x0x10".toList n := by
  have hradix : (16 : Nat) = 10 ∨ (16 : Nat) = 16 := .inr rfl
  have hvalue : Text.StandFor 16 ['0', '0', 'f', 'F'] 255 := by
    refine ⟨[0, 0, 15, 15], .cons ?_ (.cons ?_ (.cons ?_ (.cons ?_ .nil))), by decide⟩
    · exact ⟨by decide, .inl rfl⟩
    · exact ⟨by decide, .inl rfl⟩
    · exact ⟨by decide, .inl rfl⟩
    · exact ⟨by decide, .inr (by decide)⟩
  have hnumeral : IsNumeral 16 ['+', '0', '0', 'f', 'F'] 255 :=
    (Text.isNumeral_plus (Nat.le_refl 16)).mpr ⟨List.cons_ne_nil _ _, hvalue⟩
  have hshows : ShowsAddress 16
      (['\u00a0'] ++ ['0', 'x'] ++ ['+', '0', '0', 'f', 'F'] ++ [' '] ++ ['\t', 'n', 'o', 'p'])
      255 :=
    .mk (List.forall_mem_singleton.mpr (by decide)) (.inr rfl) hnumeral
      (List.forall_mem_singleton.mpr (by decide)) (.inr ⟨_, rfl⟩)
  refine ⟨hradix, ?_, ?_⟩
  · exact ((ofLine_accepts_grammar hradix _).1 _).mpr ⟨255, by decide, hshows, rfl⟩
  · exact (((ofLine_accepts_grammar hradix "0x0x10").2 _).mp rfl).1

end Breakpoint

/-! ## Printed lines -/

/-- The lines of a file show their addresses as its machine does. -/
theorem decimal_of_mem {isa : Isa} {bytes : List Byte} {origin : Word} {line : Line}
    (h : line ∈ disassembleFile isa bytes origin) : line.decimal = decide (isa = .lmc) := by
  have hwalk {κ : Type} [Inhabited κ] {d : Dialect κ} {cells : Array κ}
      (h : line ∈ d.disassemble cells origin) : line.decimal = d.decimal := by
    obtain ⟨before, after, hsplit⟩ := List.append_of_mem h
    obtain ⟨pos, _, rfl, _⟩ := Dialect.walk_eq_append hsplit
    rfl
  cases isa <;> exact hwalk h

/-- The base that a line shows its address in. -/
def Line.base (l : Line) : Nat := if l.decimal then 10 else 16

/-- The digits that a line begins with. -/
def Line.field (l : Line) : List Char :=
  Text.digits l.base (if l.decimal then 2 else 4) l.address.toNat

/-- The address stands first, then a tab. -/
theorem Line.toList_render (l : Line) : l.render.toList = l.field ++ '\t' :: l.text.toList := by
  have hfield (cs : List Char) (text : String) :
      (String.ofList cs ++ "\t" ++ text).toList = cs ++ '\t' :: text.toList := by
    simp [String.toList_append]
  unfold render field base
  cases l.decimal <;> exact hfield _ _

/-- Both radixes have digits that can be told apart. -/
theorem Line.base_bounds (l : Line) : 1 < l.base ∧ l.base ≤ 16 := by
  unfold base
  cases l.decimal <;> decide

/-- Whatever the radix, what is read of a printed line are the digits of its address. -/
theorem Line.showsAddress (l : Line) {radix : Nat} (hradix : l.base ≤ radix) :
    Breakpoint.ShowsAddress radix l.render.toList
      (Nat.ofDigits radix (Nat.digits l.base l.address.toNat)) := by
  have hnumeral : Text.IsNumeral radix l.field
      (Nat.ofDigits radix (Nat.digits l.base l.address.toNat)) :=
    ⟨[], l.field, rfl, .inl rfl, Text.digits_ne_nil _ _ _,
      Text.standFor_digits l.base_bounds.1 hradix _ _⟩
  have hshows := Breakpoint.ShowsAddress.mk (fun c hc => absurd hc List.not_mem_nil) (.inl rfl)
    hnumeral (fun c hc => absurd hc List.not_mem_nil) (.inr ⟨l.text.toList, rfl⟩)
  rw [List.append_nil] at hshows
  rw [l.toList_render]
  exact hshows

/-- A printed line is read as a breakpoint at its own address, in the base that it is shown in. -/
theorem Breakpoint.ofLine_base_render (l : Line) :
    ofLine l.base l.render = .ok ⟨l.address, l.render⟩ := by
  have hshows := l.showsAddress (Nat.le_refl l.base)
  rw [Nat.ofDigits_digits] at hshows
  refine (ofLine_eq_ok_iff l.base_bounds.2).mpr ⟨l.address.toNat, ?_, hshows, ?_⟩
  · exact Nat.le_of_lt_succ l.address.toNat_lt
  · rw [UInt16.ofNat_toNat]

end Retrocore
