import Mathlib.Order.Bounds.Basic
import MarkupCompiler.Proofs.Splicing
import MarkupCompiler.Text.Location

/-!
# Locations name positions

A location is computed by two separate scans of the text before a position: one counts its line
feeds, the other the characters after the last of them. Read as directions, it leads back to the
position (`offset?`): from the start of the source past all but one of the lines, and along the last
of them past all but one of the columns. The two fit together because the text before a position is
a stretch of whole lines and a part of a line (`Lines`), which `placeAfter` and the walk both take
apart at the same point. One more character moves a location forward (`before_placeAfter_append`),
so later positions have later locations.
-/

namespace MarkupCompiler

open Text

/-! ## Directions -/

namespace Text

/-- Passes so many line feeds: the bytes up to the end of the last of them, and what follows. -/
def passLines? : Nat → List Char → Option (Nat × List Char)
  | 0, text => some (0, text)
  | _ + 1, [] => none
  | count + 1, c :: text =>
    (passLines? (if c = '\n' then count else count + 1) text).map fun (bytes, rest) =>
      (c.utf8Size + bytes, rest)

/-- Passes so many characters of a line, and counts their bytes. -/
def passColumns? : Nat → List Char → Option Nat
  | 0, _ => some 0
  | _ + 1, [] => none
  | count + 1, c :: text =>
    if c = '\n' then none else (passColumns? count text).map (c.utf8Size + ·)

/-- A stretch of whole lines: it is empty or ends with a line feed. -/
def Lines (text : List Char) : Prop := ∀ c ∈ text.getLast?, c = '\n'

end Text

namespace Location

/-- The offset that a location leads to, if the source has that line and that column. -/
def offset? (source : List Char) : Location → Option Nat
  | ⟨line + 1, column + 1⟩ => do
    let (bytes, rest) ← passLines? line source
    let more ← passColumns? column rest
    return bytes + more
  | _ => none

/-- One location is before another if it is on an earlier line, or on the same line in an earlier
column. -/
def Before (a b : Location) : Prop := a.line < b.line ∨ a.line = b.line ∧ a.column < b.column

/-- The location of the end of a text. -/
def placeAfter (before : List Char) : Location :=
  ⟨before.count '\n' + 1, (before.reverse.takeWhile (· != '\n')).length + 1⟩

end Location

/-! ## Offsets that are moved -/

namespace Text

/-- A cut is moved back, never forward, and no further than needed. -/
theorem isGreatest_cutNear (offset : Nat) (text : List Char) :
    IsGreatest {n | IsCut text n ∧ n ≤ offset} (byteLength (cutNear offset text).1) := by
  refine ⟨⟨isCut_iff.2 ⟨_, _, (cutNear_append offset text).symm, rfl⟩, ?_⟩, ?_⟩
  · fun_induction cutNear offset text with
    | case1 | case2 | case4 => exact Nat.zero_le _
    | case3 n c text hle before after hcut ih =>
      rw [hcut] at ih
      show c.utf8Size + byteLength before ≤ n + 1
      have hbefore : byteLength before ≤ n + 1 - c.utf8Size := ih
      omega
  · rintro m ⟨hcut, hle⟩
    obtain ⟨before, after, rfl, rfl⟩ := isCut_iff.1 hcut
    induction before generalizing offset with
    | nil => exact Nat.zero_le _
    | cons c before ih =>
      rw [byteLength] at hle
      have hpos := c.utf8Size_pos
      obtain ⟨n, rfl⟩ : ∃ n, offset = n + 1 := ⟨offset - 1, by omega⟩
      rw [List.cons_append, cutNear, if_pos (by omega), byteLength, byteLength]
      exact Nat.add_le_add_left (ih (n + 1 - c.utf8Size)
        (by omega) (isCut_iff.2 ⟨before, after, rfl, rfl⟩)) _

end Text

namespace Location

/-- The location of an offset is that of the end of the text before it. -/
theorem ofOffset_eq (source : List Char) (offset : Nat) :
    ofOffset source offset = placeAfter (cutNear offset source).1 := rfl

/-- At a cut, the text before it is not moved. -/
theorem ofOffset_byteLength (before after : List Char) :
    ofOffset (before ++ after) (byteLength before) = placeAfter before := by
  rw [ofOffset_eq, cutNear_of_cutAt? (cutAt?_append before after)]

variable {source : List Char}

/-- An offset has the location of the last cut at or before it. -/
theorem ofOffset_of_isGreatest {offset n : Nat}
    (h : IsGreatest {m | IsCut source m ∧ m ≤ offset} n) :
    ofOffset source offset = ofOffset source n := by
  obtain rfl := h.unique (isGreatest_cutNear offset source)
  have hcut := ofOffset_byteLength (cutNear offset source).1 (cutNear offset source).2
  rw [cutNear_append] at hcut
  rw [hcut, ofOffset_eq]

/-- The end of a source is its last cut. -/
theorem isGreatest_end {offset : Nat} (h : byteLength source ≤ offset) :
    IsGreatest {m | IsCut source m ∧ m ≤ offset} (byteLength source) := by
  refine ⟨⟨isCut_iff.2 ⟨source, [], (List.append_nil _).symm, rfl⟩, h⟩, ?_⟩
  rintro m ⟨hcut, -⟩
  obtain ⟨before, after, rfl, rfl⟩ := isCut_iff.1 hcut
  rw [byteLength_append]
  exact Nat.le_add_right _ _

/-- Inside a character, the last cut is at its start. -/
theorem isGreatest_start {before after : List Char} {c : Char} {offset : Nat}
    (hle : byteLength before ≤ offset) (hlt : offset < byteLength before + c.utf8Size) :
    IsGreatest {m | IsCut (before ++ c :: after) m ∧ m ≤ offset} (byteLength before) := by
  refine ⟨⟨isCut_iff.2 ⟨before, c :: after, rfl, rfl⟩, hle⟩, ?_⟩
  rintro m ⟨hcut, hm⟩
  obtain ⟨left, right, htext, rfl⟩ := isCut_iff.1 hcut
  refine Nat.le_of_not_lt fun hbeyond => ?_
  obtain ⟨between, rfl, hbetween⟩ := append_eq_append_of_byteLength_le htext (Nat.le_of_lt hbeyond)
  cases between with
  | nil =>
    rw [List.append_nil] at hbeyond
    exact Nat.lt_irrefl _ hbeyond
  | cons d between =>
    -- What follows the earlier cut begins with the character, so the later one is beyond it.
    obtain ⟨rfl, -⟩ := List.cons.inj hbetween
    rw [byteLength_append, byteLength] at hm
    omega

/-! ## Later positions have later locations -/

/-- Places are ordered. -/
theorem Before.trans {a b c : Location} (hab : a.Before b) (hbc : b.Before c) : a.Before c := by
  unfold Before at *
  omega

/-- One more character moves a location to the next line or the next column. -/
theorem placeAfter_concat (before : List Char) (c : Char) :
    placeAfter (before ++ [c]) =
      if c = '\n' then ⟨(placeAfter before).line + 1, 1⟩
      else ⟨(placeAfter before).line, (placeAfter before).column + 1⟩ := by
  unfold placeAfter
  by_cases hc : c = '\n'
  · simp [hc]
  · simp [hc]

/-- A character leads to a later place. -/
theorem before_placeAfter_concat (before : List Char) (c : Char) :
    (placeAfter before).Before (placeAfter (before ++ [c])) := by
  rw [placeAfter_concat]
  split
  · exact .inl (Nat.lt_succ_self _)
  · exact .inr ⟨rfl, Nat.lt_succ_self _⟩

/-- More characters move a location forward. -/
theorem before_placeAfter_append (before : List Char) {between : List Char} (h : between ≠ []) :
    (placeAfter before).Before (placeAfter (before ++ between)) := by
  induction between generalizing before with
  | nil => exact absurd rfl h
  | cons c between ih =>
    have hstep := before_placeAfter_concat before c
    cases between with
    | nil => exact hstep
    | cons d between =>
      have hrest := ih (before ++ [c]) (List.cons_ne_nil d between)
      rw [List.append_assoc, List.singleton_append] at hrest
      exact hstep.trans hrest

/-- Of two cuts, the later one has the later location. -/
theorem before_ofOffset {a b : Nat} (ha : IsCut source a) (hb : IsCut source b) (hlt : a < b) :
    (ofOffset source a).Before (ofOffset source b) := by
  obtain ⟨left, rest, rfl, rfl⟩ := isCut_iff.1 ha
  obtain ⟨upTo, after, htext, rfl⟩ := isCut_iff.1 hb
  obtain ⟨between, rfl, rfl⟩ := append_eq_append_of_byteLength_le htext (Nat.le_of_lt hlt)
  rw [ofOffset_byteLength, ← List.append_assoc, ofOffset_byteLength]
  refine before_placeAfter_append left fun hnil => ?_
  rw [hnil, List.append_nil] at hlt
  exact Nat.lt_irrefl _ hlt

/-! ## Directions lead back -/

end Location

namespace Text

/-- No text has no line that is not ended. -/
theorem lines_nil : Lines [] := fun _ h => nomatch h

variable {text : List Char}

/-- A text is lines if its rest is and it ends with a line break. -/
theorem lines_cons_iff {c : Char} : Lines (c :: text) ↔ Lines text ∧ (text = [] → c = '\n') := by
  cases text with
  | nil => simp [Lines]
  | cons d text => simp [Lines]

/-- Whole lines without a line feed are none. -/
theorem Lines.eq_nil (h : Lines text) (hcount : text.count '\n' = 0) : text = [] := by
  cases hlast : text.getLast? with
  | none => exact List.getLast?_eq_none_iff.1 hlast
  | some c =>
    have hmem := List.mem_of_getLast? hlast
    rw [h c hlast] at hmem
    exact absurd hmem (List.count_eq_zero.1 hcount)

/-- Lines are passed up to the end of a stretch of whole lines. -/
theorem passLines?_eq_some {count bytes : Nat} {text rest : List Char} :
    passLines? count text = some (bytes, rest) ↔
      ∃ lines, text = lines ++ rest ∧ byteLength lines = bytes ∧ lines.count '\n' = count ∧
        Lines lines := by
  fun_induction passLines? count text generalizing bytes with
  | case1 text =>
    constructor
    · intro h
      cases h
      exact ⟨[], rfl, rfl, rfl, lines_nil⟩
    · rintro ⟨lines, rfl, rfl, hcount, hlines⟩
      rw [hlines.eq_nil hcount]
      rfl
  | case2 count =>
    constructor
    · intro h
      cases h
    · rintro ⟨lines, htext, -, hcount, -⟩
      rw [(List.append_eq_nil_iff.1 htext.symm).1] at hcount
      cases hcount
  | case3 count c text ih =>
    constructor
    · intro h
      obtain ⟨⟨bytes', rest'⟩, hpass, hpair⟩ := Option.map_eq_some_iff.1 h
      cases hpair
      obtain ⟨lines, rfl, rfl, hcount, hlines⟩ := ih.1 hpass
      refine ⟨c :: lines, rfl, rfl, ?_, lines_cons_iff.2 ⟨hlines, fun hnil => ?_⟩⟩
      · rw [List.count_cons, hcount]
        by_cases hc : c = '\n' <;> simp [hc]
      · -- Nothing comes after it, so it must be the line feed that is counted.
        refine Decidable.byContradiction fun hc => ?_
        rw [hnil, if_neg hc] at hcount
        cases hcount
    · rintro ⟨lines, htext, rfl, hcount, hlines⟩
      cases lines with
      | nil => cases hcount
      | cons d lines =>
        obtain ⟨rfl, rfl⟩ := List.cons.inj htext
        have hcount' : lines.count '\n' = if c = '\n' then count else count + 1 := by
          rw [List.count_cons] at hcount
          by_cases hc : c = '\n' <;> simp [hc] at hcount ⊢ <;> omega
        rw [ih.2 ⟨lines, rfl, rfl, hcount', (lines_cons_iff.1 hlines).1⟩]
        rfl

/-- Columns are passed along a part of a line. -/
theorem passColumns?_eq_some {count bytes : Nat} :
    passColumns? count text = some bytes ↔
      ∃ part rest, text = part ++ rest ∧ byteLength part = bytes ∧ part.length = count ∧
        '\n' ∉ part := by
  fun_induction passColumns? count text generalizing bytes with
  | case1 text =>
    constructor
    · intro h
      cases h
      exact ⟨[], text, rfl, rfl, rfl, List.not_mem_nil⟩
    · rintro ⟨part, rest, rfl, rfl, hlength, -⟩
      rw [List.eq_nil_of_length_eq_zero hlength]
      rfl
  | case2 count =>
    constructor
    · intro h
      cases h
    · rintro ⟨part, rest, htext, -, hlength, -⟩
      rw [(List.append_eq_nil_iff.1 htext.symm).1] at hlength
      cases hlength
  -- A line feed ends the line before the column is reached.
  | case3 count text =>
    constructor
    · intro h
      cases h
    · rintro ⟨part, rest, htext, -, hlength, hpart⟩
      cases part with
      | nil => cases hlength
      | cons d part =>
        obtain ⟨rfl, -⟩ := List.cons.inj htext
        exact absurd (.head _) hpart
  | case4 count c text hc ih =>
    constructor
    · intro h
      obtain ⟨bytes', hpass, rfl⟩ := Option.map_eq_some_iff.1 h
      obtain ⟨part, rest, rfl, rfl, rfl, hpart⟩ := ih.1 hpass
      refine ⟨c :: part, rest, rfl, rfl, rfl, fun hmem => ?_⟩
      rcases List.mem_cons.1 hmem with heq | hmem
      · exact hc heq.symm
      · exact hpart hmem
    · rintro ⟨part, rest, htext, rfl, hlength, hpart⟩
      cases part with
      | nil => cases hlength
      | cons d part =>
        obtain ⟨rfl, rfl⟩ := List.cons.inj htext
        rw [ih.2 ⟨part, rest, rfl, rfl, Nat.succ.inj hlength,
          fun hmem => hpart (List.mem_cons_of_mem _ hmem)⟩]
        rfl

/-- A text is a stretch of whole lines and a part of a line. -/
theorem exists_lines (text : List Char) :
    ∃ lines part, text = lines ++ part ∧ Lines lines ∧ '\n' ∉ part := by
  induction text with
  | nil => exact ⟨[], [], rfl, lines_nil, List.not_mem_nil⟩
  | cons c text ih =>
    obtain ⟨lines, part, rfl, hlines, hpart⟩ := ih
    by_cases hnil : lines = []
    · subst hnil
      by_cases hc : c = '\n'
      · exact ⟨[c], part, rfl, lines_cons_iff.2 ⟨lines_nil, fun _ => hc⟩, hpart⟩
      · refine ⟨[], c :: part, rfl, lines_nil, fun hmem => ?_⟩
        rcases List.mem_cons.1 hmem with heq | hmem
        · exact hc heq.symm
        · exact hpart hmem
    · exact ⟨c :: lines, part, rfl, lines_cons_iff.2 ⟨hlines, fun h => absurd h hnil⟩, hpart⟩

end Text

namespace Location

/-- After whole lines and a part of a line, the location counts the lines and the characters of the
part. -/
theorem placeAfter_append {lines part : List Char} (hlines : Lines lines) (hpart : '\n' ∉ part) :
    placeAfter (lines ++ part) = ⟨lines.count '\n' + 1, part.length + 1⟩ := by
  have hcount : (lines ++ part).count '\n' = lines.count '\n' := by
    rw [List.count_append, List.count_eq_zero.2 hpart, Nat.add_zero]
  have hpass : ∀ c ∈ part.reverse, (c != '\n') = true := fun c hc =>
    bne_iff_ne.2 fun heq => hpart (heq ▸ List.mem_reverse.1 hc)
  have hstop : lines.reverse.takeWhile (· != '\n') = [] := by
    cases hlast : lines.reverse with
    | nil => rfl
    | cons c rest =>
      have hc : lines.getLast? = some c := by rw [← List.head?_reverse, hlast]; rfl
      rw [hlines c hc]
      rfl
  rw [placeAfter, hcount, List.reverse_append, List.takeWhile_append_of_pos hpass, hstop,
    List.append_nil, List.length_reverse]

/-- A location leads to an offset exactly if the offset is a cut and has that location. -/
theorem offset?_eq_some {source : List Char} {location : Location} {n : Nat} :
    location.offset? source = some n ↔ IsCut source n ∧ ofOffset source n = location := by
  constructor
  · intro h
    obtain ⟨_ | line, _ | column⟩ := location
    case succ.succ =>
      simp only [offset?, Option.bind_eq_bind, Option.bind_eq_some_iff, Option.pure_def] at h
      obtain ⟨⟨bytes, rest⟩, hlines, more, hcolumns, hn⟩ := h
      obtain ⟨lines, rfl, rfl, rfl, hwhole⟩ := passLines?_eq_some.1 hlines
      obtain ⟨part, after, rfl, rfl, rfl, hpart⟩ := passColumns?_eq_some.1 hcolumns
      obtain rfl : byteLength (lines ++ part) = n := by
        rw [byteLength_append]
        exact Option.some.inj hn
      rw [← List.append_assoc, ofOffset_byteLength, placeAfter_append hwhole hpart]
      exact ⟨isCut_iff.2 ⟨_, _, rfl, rfl⟩, rfl⟩
    all_goals cases h
  · rintro ⟨hcut, rfl⟩
    obtain ⟨before, after, rfl, rfl⟩ := isCut_iff.1 hcut
    obtain ⟨lines, part, rfl, hlines, hpart⟩ := exists_lines before
    rw [ofOffset_byteLength, placeAfter_append hlines hpart, byteLength_append]
    have hwalk : passLines? (lines.count '\n') (lines ++ part ++ after) =
        some (byteLength lines, part ++ after) :=
      passLines?_eq_some.2 ⟨lines, List.append_assoc _ _ _, rfl, rfl, hlines⟩
    have hcolumns : passColumns? part.length (part ++ after) = some (byteLength part) :=
      passColumns?_eq_some.2 ⟨part, after, rfl, rfl, rfl, hpart⟩
    simp only [offset?, hwalk, hcolumns, Option.bind_eq_bind, Option.bind_some, Option.pure_def]

/-! ## The size of lines and columns -/

/-- A character takes a byte at least. -/
theorem length_le_byteLength (text : List Char) : text.length ≤ byteLength text := by
  induction text with
  | nil => exact Nat.le_refl _
  | cons c text ih =>
    have hpos := c.utf8Size_pos
    rw [List.length_cons, byteLength]
    omega

/-- Lines and columns are not more than the bytes before them, and one. -/
theorem ofOffset_le (source : List Char) (offset : Nat) :
    (ofOffset source offset).line ≤ byteLength source + 1 ∧
      (ofOffset source offset).column ≤ byteLength source + 1 := by
  have hbytes : (cutNear offset source).1.length ≤ byteLength source := by
    calc (cutNear offset source).1.length ≤ byteLength (cutNear offset source).1 :=
          length_le_byteLength _
      _ ≤ byteLength ((cutNear offset source).1 ++ (cutNear offset source).2) := by
          rw [byteLength_append]
          exact Nat.le_add_right _ _
      _ = byteLength source := by rw [cutNear_append]
  have hlines := List.count_le_length (a := '\n') (l := (cutNear offset source).1)
  have hcolumns := (List.takeWhile_sublist (fun c => c != '\n')
    (l := (cutNear offset source).1.reverse)).length_le
  rw [List.length_reverse] at hcolumns
  exact ⟨Nat.succ_le_succ (hlines.trans hbytes), Nat.succ_le_succ (hcolumns.trans hbytes)⟩

/-- Locations keep the order of positions and name each of them once. An offset past the end has the
location of the end, and one inside a character that of the start of the character. Later cuts have
later locations. A location leads to an offset exactly if the offset is a cut with that location, so
that the location of any offset leads to the last cut at or before it. In a source of less than
`2 ^ 32 - 1` bytes, lines and columns fit a word of 32 bits. -/
theorem locations_name_positions (source : List Char)
    (hsize : byteLength source < Nat.pow 2 32 - 1) :
    (∀ offset, byteLength source ≤ offset →
      ofOffset source offset = ofOffset source (byteLength source)) ∧
    (∀ before c after offset, source = before ++ c :: after → byteLength before ≤ offset →
      offset < byteLength before + c.utf8Size →
      ofOffset source offset = ofOffset source (byteLength before)) ∧
    (∀ a b, IsCut source a → IsCut source b → a < b →
      (ofOffset source a).Before (ofOffset source b)) ∧
    (∀ location n, offset? source location = some n ↔
      IsCut source n ∧ ofOffset source n = location) ∧
    (∀ offset, ∃ n, IsGreatest {m | IsCut source m ∧ m ≤ offset} n ∧
      offset? source (ofOffset source offset) = some n) ∧
    ∀ offset, (ofOffset source offset).line < Nat.pow 2 32 ∧
      (ofOffset source offset).column < Nat.pow 2 32 := by
  refine ⟨fun offset h => ofOffset_of_isGreatest (isGreatest_end h), ?_, fun a b => before_ofOffset,
    fun location n => offset?_eq_some, fun offset => ?_, fun offset => ?_⟩
  · rintro before c after offset rfl hle hlt
    exact ofOffset_of_isGreatest (isGreatest_start hle hlt)
  · have hcut := isGreatest_cutNear offset source
    exact ⟨_, hcut, offset?_eq_some.2 ⟨hcut.1.1, (ofOffset_of_isGreatest hcut).symm⟩⟩
  · have hle := ofOffset_le source offset
    omega

/-- An offset inside a character of two bytes, an empty line and the end of a source. -/
theorem locations_name_positions_emptyLine :
    byteLength ['é', '\n', '\n', 'a', 'b'] < Nat.pow 2 32 - 1 ∧
      ofOffset ['é', '\n', '\n', 'a', 'b'] 9 = ofOffset ['é', '\n', '\n', 'a', 'b'] 6 ∧
      ofOffset ['é', '\n', '\n', 'a', 'b'] 1 = ofOffset ['é', '\n', '\n', 'a', 'b'] 0 ∧
      (ofOffset ['é', '\n', '\n', 'a', 'b'] 3).Before (ofOffset ['é', '\n', '\n', 'a', 'b'] 4) ∧
      offset? ['é', '\n', '\n', 'a', 'b'] ⟨3, 3⟩ = some 6 := by
  have h := locations_name_positions ['é', '\n', '\n', 'a', 'b'] (by decide)
  exact ⟨by decide, h.1 9 (by decide), h.2.1 [] 'é' _ 1 rfl (by decide) (by decide),
    h.2.2.1 3 4 (by decide) (by decide) (by decide), (h.2.2.2.1 ⟨3, 3⟩ 6).2 ⟨by decide, by decide⟩⟩

end Location

end MarkupCompiler
