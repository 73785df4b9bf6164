import Mathlib.Data.List.DropRight
import MarkupCompiler.Proofs.PlainTexts

/-!
# What is left of lines

The content of a text between tags is said line by line here (`content`): the tabs of a line are
spaces, the spaces where it meets another line are gone, lines that are then empty are dropped, and
one space stands between two that are kept. `clean` looks ahead for a line with something on it
instead. The two agree because, where there is more than one line, a line is kept exactly if it has
something on it (`trimLine_ne_nil_iff`).

An empty line between two others changes nothing (`joinLines_append_nil_cons`), so that it does not
matter how the ends of lines are written, nor whether `CR LF` is taken for one of them or for two.
-/

namespace MarkupCompiler.Text

/-! ## Lines and their content -/

/-- The lines of a text. A line ends at `CR LF`, at `CR` and at `LF`. -/
def linesOf : List Char → List (List Char)
  | '\r' :: '\n' :: cs => [] :: linesOf cs
  | c :: cs =>
    if c = '\r' ∨ c = '\n' then [] :: linesOf cs else (linesOf cs).modifyHead (c :: ·)
  | [] => [[]]

/-- What is left of the line with an index, of so many lines. -/
def lineContent (count index : Nat) (line : List Char) : List Char :=
  let spaced := line.map fun c => if c = '\t' then ' ' else c
  let front := if index = 0 then spaced else spaced.dropWhile (· == ' ')
  if index + 1 = count then front else front.rdropWhile (· == ' ')

/-- What is left of the lines of a text, those apart of which nothing is left, with a space between
two of them. -/
def content (text : List Char) : List Char :=
  let lines := linesOf text
  [' '].intercalate ((lines.mapIdx (lineContent lines.length)).filter (· ≠ []))

/-- A text whose line ends are written in other ways: some of its `CR LF` and `CR` are `LF`. -/
inductive Respelled : List Char → List Char → Prop
  | nil : Respelled [] []
  | same (c : Char) {text text' : List Char} :
    Respelled text text' → Respelled (c :: text) (c :: text')
  | pair {text text' : List Char} :
    Respelled text text' → Respelled ('\r' :: '\n' :: text) ('\n' :: text')
  | single {text text' : List Char} :
    Respelled text text' → Respelled ('\r' :: text) ('\n' :: text')

/-! ## Where lines end -/

/-- Every text has a line. -/
theorem splitLines_ne_nil (text : List Char) : splitLines text ≠ [] := by
  fun_cases splitLines text <;> simp_all

variable {c : Char} {text : List Char}

/-- A character that ends no line belongs to the first of the lines. -/
theorem splitLines_cons (hc : c ≠ '\n') (text : List Char) :
    splitLines (c :: text) = (splitLines text).modifyHead (c :: ·) := by
  rw [splitLines, if_neg (by simpa using hc)]
  cases hlines : splitLines text with
  | nil => exact absurd hlines (splitLines_ne_nil text)
  | cons line lines => rfl

/-- A `CR` that no line feed follows is written as one. -/
theorem unifyLineEnds_cons (h : ∀ rest, c = '\r' → text ≠ '\n' :: rest) :
    unifyLineEnds (c :: text) = (if c = '\r' then '\n' else c) :: unifyLineEnds text := by
  rw [unifyLineEnds.eq_def]
  split
  · rename_i heq
    cases heq
    exact absurd rfl (h _ rfl)
  · rename_i heq
    cases heq
    simp
  · rename_i heq
    cases heq

/-- Once all ends of lines are line feeds, lines end at these alone. -/
theorem splitLines_unifyLineEnds (text : List Char) :
    splitLines (unifyLineEnds text) = linesOf text := by
  fun_induction linesOf text with
  | case1 cs ih => simp [unifyLineEnds, splitLines, ih]
  | case2 c cs hpair hend ih =>
    rw [unifyLineEnds_cons fun rest hc hcs => hpair rest hc hcs]
    rcases hend with rfl | rfl <;> simp [splitLines, ih]
  | case3 c cs hpair hend ih =>
    rw [not_or] at hend
    rw [unifyLineEnds_cons fun rest hc _ => hend.1 hc, if_neg hend.1, splitLines_cons hend.2, ih]
  | case4 => rfl

/-- No line has the end of a line in it. -/
theorem ne_lineEnd_of_mem_linesOf {text line : List Char} (hline : line ∈ linesOf text)
    (hc : c ∈ line) : c ≠ '\r' ∧ c ≠ '\n' := by
  fun_induction linesOf text generalizing line with
  | case1 cs ih =>
    rcases List.mem_cons.1 hline with rfl | hline
    · cases hc
    · exact ih hline hc
  | case2 d cs hpair hend ih =>
    rcases List.mem_cons.1 hline with rfl | hline
    · cases hc
    · exact ih hline hc
  | case3 d cs hpair hend ih =>
    cases hlines : linesOf cs with
    | nil =>
      rw [hlines] at hline
      cases hline
    | cons first lines =>
      rw [hlines] at hline ih
      rcases List.mem_cons.1 hline with rfl | hline
      · rcases List.mem_cons.1 hc with rfl | hc
        · exact not_or.1 hend
        · exact ih (.head _) hc
      · exact ih (List.mem_cons_of_mem _ hline) hc
  | case4 =>
    rw [List.mem_singleton.1 hline] at hc
    cases hc

/-- A line feed ends the line before it. -/
theorem splitLines_append (text rest : List Char) :
    splitLines (text ++ '\n' :: rest) = splitLines text ++ splitLines rest := by
  induction text with
  | nil => rfl
  | cons c text ih =>
    by_cases hc : c = '\n'
    · subst hc
      show [] :: splitLines (text ++ '\n' :: rest) = [] :: splitLines text ++ splitLines rest
      rw [ih, List.cons_append]
    · rw [List.cons_append, splitLines_cons hc, splitLines_cons hc, ih]
      cases hlines : splitLines text with
      | nil => exact absurd hlines (splitLines_ne_nil text)
      | cons line lines => rfl

/-! ## What is left of a line -/

/-- Of a line after the first something is left exactly if there is something on it. -/
theorem trimLine_ne_nil_iff (isLast : Bool) (line : List Char) :
    trimLine false isLast line ≠ [] ↔ isVisibleLine line = true := by
  -- A line that begins with something other than a space keeps it when spaces are cut at its end.
  have hcut : ∀ text : List Char,
      ((text.dropWhile (· == ' ')).reverse.dropWhile (· == ' ')).reverse = [] ↔
        text.dropWhile (· == ' ') = [] := by
    intro text
    rw [List.reverse_eq_nil_iff, List.dropWhile_eq_nil_iff]
    simp only [List.mem_reverse]
    rw [← List.dropWhile_eq_nil_iff, List.dropWhile_idempotent]
  have hleft : trimLine false isLast line = [] ↔
      (line.map fun c => if c == '\t' then ' ' else c).dropWhile (· == ' ') = [] := by
    cases isLast with
    | false => exact hcut _
    | true => rfl
  have hspace : ∀ c : Char,
      ((if c == '\t' then ' ' else c) == ' ') = !(c != ' ' && c != '\t') := by
    intro c
    by_cases hc : c = '\t'
    · simp [hc]
    · simp [hc, bne]
  rw [Ne, hleft, List.dropWhile_eq_nil_iff, List.forall_mem_map, isVisibleLine, List.any_eq_true]
  simp only [hspace]
  simp

/-- What is left of lines, the first of which may be the first of all. -/
def trimLines : Bool → List (List Char) → List (List Char)
  | _, [] => []
  | isFirst, line :: lines => trimLine isFirst lines.isEmpty line :: trimLines false lines

/-- What is left of lines depends on their places. -/
theorem trimLines_eq_mapIdx (index : Nat) (lines : List (List Char)) :
    trimLines (decide (index = 0)) lines =
      lines.mapIdx fun i => lineContent (index + lines.length) (index + i) := by
  induction lines generalizing index with
  | nil => rfl
  | cons line lines ih =>
    have hrest := ih (index + 1)
    rw [decide_eq_false (Nat.succ_ne_zero index)] at hrest
    have hline : trimLine (decide (index = 0)) lines.isEmpty line =
        lineContent (index + (line :: lines).length) index line := by
      cases lines with
      | nil => simp [trimLine, lineContent]
      | cons next lines => simp [trimLine, lineContent, List.rdropWhile]
    rw [trimLines, List.mapIdx_cons, hrest, hline]
    simp only [List.length_cons, Nat.add_zero, Nat.add_assoc, Nat.add_comm 1]

/-- There is something on one of several lines after the first exactly if something is left of
one. -/
theorem any_isVisibleLine_iff (lines : List (List Char)) :
    lines.any isVisibleLine = true ↔ (trimLines false lines).filter (· ≠ []) ≠ [] := by
  induction lines with
  | nil => simp [trimLines]
  | cons line lines ih =>
    have hline := trimLine_ne_nil_iff lines.isEmpty line
    rw [List.any_cons, Bool.or_eq_true, ih, ← hline, trimLines]
    by_cases hleft : trimLine false lines.isEmpty line = []
    · simp [hleft]
    · simp [hleft]

/-- Between two lines of which something is left there is one space. -/
theorem joinLines_eq_intercalate (isFirst : Bool) (lines : List (List Char)) :
    joinLines isFirst lines = [' '].intercalate ((trimLines isFirst lines).filter (· ≠ [])) := by
  induction lines generalizing isFirst with
  | nil => rfl
  | cons line lines ih =>
    have hmore := any_isVisibleLine_iff lines
    rw [joinLines, trimLines, ih]
    cases hleft : trimLine isFirst lines.isEmpty line with
    | nil => simp
    | cons c text =>
      rw [List.filter_cons_of_pos (by simp)]
      cases hrest : (trimLines false lines).filter (· ≠ []) with
      | nil =>
        rw [hrest] at hmore
        simp [Bool.eq_false_iff.2 (mt hmore.1 (not_not_intro rfl))]
      | cons next rest =>
        rw [hrest] at hmore
        simp [hmore.2 (List.cons_ne_nil _ _), List.intercalate_cons_cons]

/-- The content of a text is what is left of its lines, with one space between two of them. -/
theorem cleanChars_eq_content (text : List Char) : cleanChars text = content text := by
  have htrim := trimLines_eq_mapIdx 0 (linesOf text)
  rw [cleanChars, splitLines_unifyLineEnds, joinLines_eq_intercalate, content]
  simp only [decide_true, Nat.zero_add] at htrim
  rw [htrim]

/-! ## Empty lines and line ends -/

/-- An empty line between two others leaves nothing. -/
theorem joinLines_append_nil_cons {lines rest : List (List Char)} (hrest : rest ≠ [])
    (isFirst : Bool) (hlines : isFirst = true → lines ≠ []) :
    joinLines isFirst (lines ++ [] :: rest) = joinLines isFirst (lines ++ rest) := by
  induction lines generalizing isFirst with
  | nil =>
    cases isFirst with
    | true => exact absurd rfl (hlines rfl)
    | false => simp [joinLines, trimLine]
  | cons line lines ih =>
    have hlast : (lines ++ [] :: rest).isEmpty = (lines ++ rest).isEmpty := by
      rw [Bool.eq_iff_iff]
      simp [hrest]
    have hvisible : (lines ++ [] :: rest).any isVisibleLine =
      (lines ++ rest).any isVisibleLine := by
      rw [List.any_append, List.any_append, List.any_cons]
      rfl
    rw [List.cons_append, List.cons_append, joinLines, joinLines,
      ih false fun h => absurd h Bool.false_ne_true, hlast, hvisible]

/-- Two line feeds in a row end a line and an empty line. -/
theorem joinLines_splitLines_feeds (text rest : List Char) :
    joinLines true (splitLines (text ++ '\n' :: '\n' :: rest)) =
      joinLines true (splitLines (text ++ '\n' :: rest)) := by
  rw [splitLines_append, splitLines_append]
  exact joinLines_append_nil_cons (splitLines_ne_nil rest) true fun _ => splitLines_ne_nil text

/-- A `CR` as a line feed. -/
def feed (c : Char) : Char := if c = '\r' then '\n' else c

/-- The two characters of `CR LF` may be taken for two ends of lines. -/
theorem cleanChars_eq_joinLines_feed (text : List Char) :
    cleanChars text = joinLines true (splitLines (text.map feed)) := by
  -- What was read before is carried along, since it holds the line that is read.
  have hread : ∀ front, joinLines true (splitLines (front ++ unifyLineEnds text)) =
      joinLines true (splitLines (front ++ text.map feed)) := by
    fun_induction unifyLineEnds text with
    | case1 cs ih =>
      intro front
      have hcs := ih (front ++ ['\n'])
      rw [List.append_assoc, List.append_assoc] at hcs
      exact hcs.trans (joinLines_splitLines_feeds front (cs.map feed)).symm
    | case2 c cs hpair ih =>
      intro front
      have hcs := ih (front ++ [feed c])
      rw [List.append_assoc, List.append_assoc] at hcs
      simpa [feed] using hcs
    | case3 => exact fun _ => rfl
  exact hread []

/-- The content of a text does not depend on how the ends of its lines are written. -/
theorem cleanChars_of_respelled {text text' : List Char} (h : Respelled text text') :
    cleanChars text' = cleanChars text := by
  rw [cleanChars_eq_joinLines_feed, cleanChars_eq_joinLines_feed]
  have hread : ∀ front, joinLines true (splitLines (front ++ text'.map feed)) =
      joinLines true (splitLines (front ++ text.map feed)) := by
    induction h with
    | nil => exact fun _ => rfl
    | same c _ ih =>
      intro front
      have hcs := ih (front ++ [feed c])
      rw [List.append_assoc, List.append_assoc] at hcs
      exact hcs
    | pair _ ih =>
      intro front
      have hcs := ih (front ++ ['\n'])
      rw [List.append_assoc, List.append_assoc] at hcs
      exact hcs.trans (joinLines_splitLines_feeds front _).symm
    | single _ ih =>
      intro front
      have hcs := ih (front ++ ['\n'])
      rw [List.append_assoc, List.append_assoc] at hcs
      exact hcs
  exact hread []

/-! ## Content is clean -/

/-- What is left of a line are characters of it that stood in a row, with spaces for tabs. -/
theorem trimLine_sublist (isFirst isLast : Bool) (line : List Char) :
    (trimLine isFirst isLast line).Sublist (line.map fun c => if c == '\t' then ' ' else c) := by
  have hfront : ∀ spaced : List Char,
      (if isFirst then spaced else spaced.dropWhile (· == ' ')).Sublist spaced := by
    intro spaced
    split
    · exact List.Sublist.refl _
    · exact List.dropWhile_sublist _
  unfold trimLine
  dsimp only
  split
  · exact hfront _
  · exact (List.rdropWhile_prefix _ _).sublist.trans (hfront _)

/-- No tab is left of lines. -/
theorem tab_notMem_joinLines (isFirst : Bool) (lines : List (List Char)) :
    '\t' ∉ joinLines isFirst lines := by
  induction lines generalizing isFirst with
  | nil => exact List.not_mem_nil
  | cons line lines ih =>
    rw [joinLines, List.mem_append, List.mem_append, not_or, not_or]
    refine ⟨⟨fun hmem => ?_, ?_⟩, ih false⟩
    · obtain ⟨c, -, hc⟩ := List.mem_map.1 ((trimLine_sublist _ _ _).mem hmem)
      split at hc
      · cases hc
      · rename_i htab
        exact htab (beq_iff_eq.2 hc)
    · split <;> simp

/-- The content of a text has no tab and no end of a line in it. -/
theorem ne_of_mem_cleanChars (h : c ∈ cleanChars text) : c ≠ '\t' ∧ c ≠ '\r' ∧ c ≠ '\n' := by
  rw [cleanChars, splitLines_unifyLineEnds] at h
  refine ⟨?_, ?_⟩
  · rintro rfl
    exact tab_notMem_joinLines true _ h
  · rcases mem_of_mem_joinLines h with ⟨line, hline, hc⟩ | rfl
    · exact ne_lineEnd_of_mem_linesOf hline hc
    · decide

/-- A text without tabs and ends of lines is its own content. -/
theorem cleanChars_eq_self (h : ∀ c ∈ text, c ≠ '\t' ∧ c ≠ '\r' ∧ c ≠ '\n') :
    cleanChars text = text := by
  have hlines : linesOf text = [text] := by
    induction text with
    | nil => rfl
    | cons c text ih =>
      obtain ⟨⟨-, hreturn, hfeed⟩, hrest⟩ := List.forall_mem_cons.1 h
      rw [linesOf, if_neg (not_or.2 ⟨hreturn, hfeed⟩), ih hrest]
      · rfl
      · exact fun _ hc _ => hreturn hc
  have hkept : trimLine true true text = text := by
    refine (List.map_congr_left fun c hc => ?_).trans (List.map_id text)
    exact if_neg (by simpa using (h c hc).1)
  rw [cleanChars, splitLines_unifyLineEnds, hlines, joinLines, List.isEmpty_nil, hkept]
  simp [joinLines]

/-- The content of a text between tags is that of its lines: tabs are spaces, the spaces where a
line meets another are gone, and one space stands between two lines of which something is left. It
has no tab and no end of a line in it, does not depend on how the ends of lines are written, and is
its own content. -/
theorem clean_joins_lines (text : String) :
    clean text = String.ofList (content text.toList) ∧
    (∀ c ∈ (clean text).toList, c ≠ '\t' ∧ c ≠ '\r' ∧ c ≠ '\n') ∧
    (∀ text' : String, Respelled text.toList text'.toList → clean text' = clean text) ∧
    clean (clean text) = clean text := by
  have hclean : ∀ c ∈ (clean text).toList, c ≠ '\t' ∧ c ≠ '\r' ∧ c ≠ '\n' := by
    rw [clean, String.toList_ofList]
    exact fun c => ne_of_mem_cleanChars
  refine ⟨?_, hclean, fun text' h => ?_, ?_⟩
  · rw [clean, cleanChars_eq_content]
  · rw [clean, clean, cleanChars_of_respelled h]
  · rw [clean, cleanChars_eq_self hclean, String.ofList_toList]

/-- Three lines, the second blank, whose ends are written in two ways and then in one. -/
theorem clean_joins_lines_indented :
    Respelled "a\t\r\n \r b".toList "a\t\n \n b".toList ∧ clean "a\t\n \n b" = "a b" ∧
      ' ' ∈ (clean "a\t\r\n \r b").toList ∧ ' ' ≠ '\t' ∧ ' ' ≠ '\r' ∧ ' ' ≠ '\n' := by
  have hrespelled : Respelled "a\t\r\n \r b".toList "a\t\n \n b".toList :=
    .same 'a' (.same '\t' (.pair (.same ' ' (.single (.same ' ' (.same 'b' .nil))))))
  have hclean : clean "a\t\r\n \r b" = "a b" := by decide
  have hspace : ' ' ∈ (clean "a\t\r\n \r b").toList := by
    rw [hclean]
    decide
  obtain ⟨-, hplain, hsame, -⟩ := clean_joins_lines "a\t\r\n \r b"
  exact ⟨hrespelled, (hsame _ hrespelled).trans hclean, hspace, hplain ' ' hspace⟩

end MarkupCompiler.Text
