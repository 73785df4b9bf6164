import Mathlib.Data.List.Induction
import MarkupCompiler.Proofs.CharacterReferences

/-!
# The grammar of character references

`IsReference` is the grammar of what stands between `&` and `;`: one of the names, or digits of a
number in one of two bases. `Pass` reads a text once from left to right and replaces what a grammar
accepts. Reading character references is such a pass (`pass_decodeFrom`), and the only one
(`Pass.unique`), but for a grammar with one form more: a number may have a plus sign before it
(`IsSigned`). So `&#+65;` is read as a character although it is no reference.

Where no such number stands in the place of a reference, the two passes are the same
(`Pass.of_not_signedAt`). Where one does, they differ: reading it makes the result shorter, and
nothing after it makes up for that (`Pass.length_le`).
-/

namespace MarkupCompiler.Text

/-! ## The grammar -/

/-- A digit of a base and its value. A letter may be small or a capital. -/
def IsDigit (base : Nat) (c : Char) (value : Nat) : Prop :=
  value < base ∧ (c = Nat.digitChar value ∨ c = (Nat.digitChar value).toUpper)

/-- Digits, at least one, and the number that they write in a base. -/
inductive Writes (base : Nat) : List Char → Nat → Prop
  | single {c : Char} {value : Nat} : IsDigit base c value → Writes base [c] value
  | more {digits : List Char} {number : Nat} {c : Char} {value : Nat} :
    Writes base digits number → IsDigit base c value →
      Writes base (digits ++ [c]) (number * base + value)

/-- What stands between `&` and `;` in a character reference, and the character that it means. -/
inductive IsReference : List Char → Char → Prop
  | named {name : String} {c : Char} : (name, c) ∈ namedReferences → IsReference name.toList c
  | decimal {digits : List Char} {c : Char} :
    Writes 10 digits c.toNat → IsReference ('#' :: digits) c
  | hexadecimal {x : Char} {digits : List Char} {c : Char} :
    x = 'x' ∨ x = 'X' → Writes 16 digits c.toNat → IsReference ('#' :: x :: digits) c

/-- A number with a plus sign in the place of a reference, and the character with that number. -/
inductive IsSigned : List Char → Char → Prop
  | decimal {digits : List Char} {c : Char} :
    Writes 10 digits c.toNat → IsSigned ('#' :: '+' :: digits) c
  | hexadecimal {x : Char} {digits : List Char} {c : Char} :
    x = 'x' ∨ x = 'X' → Writes 16 digits c.toNat → IsSigned ('#' :: x :: '+' :: digits) c

/-- A text begins with an ampersand and the name of a character, and the next semicolon is right
behind the name and at most ten bytes behind the ampersand. -/
structure Opens (refers : List Char → Char → Prop) (text name : List Char) (c : Char)
    (rest : List Char) : Prop where
  split : text = '&' :: (name ++ ';' :: rest)
  next : ';' ∉ name
  near : byteLength ('&' :: name) ≤ 10
  refers : refers name c

/-- One pass over a text from left to right, which replaces references by their characters and
copies everything else. What it has written it does not read again. -/
inductive Pass (refers : List Char → Char → Prop) : List Char → List Char → Prop
  | done : Pass refers [] []
  | reference {text name rest out : List Char} {c : Char} :
    Opens refers text name c rest → Pass refers rest out → Pass refers text (c :: out)
  | copy {c : Char} {rest out : List Char} :
    (∀ name d tail, ¬ Opens refers (c :: rest) name d tail) → Pass refers rest out →
      Pass refers (c :: rest) (c :: out)

/-! ## Digits -/

/-- The digits have their values. -/
theorem digitValue?_digitChar : ∀ base ≤ 16, ∀ value < base,
    digitValue? base (Nat.digitChar value) = some value ∧
      digitValue? base (Nat.digitChar value).toUpper = some value := by
  decide

/-- A character in a range is as far behind the first as its code is. -/
theorem exists_ofNat_add {first last c : Char} (h : first ≤ c ∧ c ≤ last) :
    c.toNat - first.toNat ≤ last.toNat - first.toNat ∧
      c = Char.ofNat (first.toNat + (c.toNat - first.toNat)) := by
  have hfirst : first.toNat ≤ c.toNat := UInt32.le_iff_toNat_le.1 h.1
  have hlast : c.toNat ≤ last.toNat := UInt32.le_iff_toNat_le.1 h.2
  exact ⟨by omega, by rw [Nat.add_sub_cancel' hfirst, Char.ofNat_toNat]⟩

variable {base : Nat} {c : Char} {digits : List Char} {number : Nat} {name : List Char}

/-- A character with a value is the digit with that value. -/
theorem eq_digitChar_of_digitValue? {value : Nat} (h : digitValue? base c = some value) :
    c = Nat.digitChar value ∨ c = (Nat.digitChar value).toUpper := by
  have hdecimal : ∀ v ≤ 9, Char.ofNat ('0'.toNat + v) = Nat.digitChar v := by decide
  have hsmall : ∀ v ≤ 5, Char.ofNat ('a'.toNat + v) = Nat.digitChar (v + 10) := by decide
  have hcapital : ∀ v ≤ 5, Char.ofNat ('A'.toNat + v) = (Nat.digitChar (v + 10)).toUpper := by
    decide
  have hvalue := (Option.filter_eq_some_iff.1 h).1
  split_ifs at hvalue with hrange hrange hrange
  all_goals
    cases hvalue
    obtain ⟨hle, hc⟩ := exists_ofNat_add hrange
  · exact .inl (hc.trans (hdecimal _ hle))
  · exact .inl (hc.trans (hsmall _ hle))
  · exact .inr (hc.trans (hcapital _ hle))

/-- A character is read as a digit exactly if it is one. -/
theorem digitValue?_eq_some_iff (hbase : base ≤ 16) {value : Nat} :
    digitValue? base c = some value ↔ IsDigit base c value := by
  constructor
  · intro h
    have hlt : value < base := by simpa using (Option.filter_eq_some_iff.1 h).2
    exact ⟨hlt, eq_digitChar_of_digitValue? h⟩
  · rintro ⟨hlt, rfl | rfl⟩
    · exact (digitValue?_digitChar base hbase value hlt).1
    · exact (digitValue?_digitChar base hbase value hlt).2

/-- The last digit adds its value to the number of those before it. -/
theorem digitsValue?_concat (base start : Nat) (digits : List Char) (c : Char) :
    digitsValue? base start (digits ++ [c]) =
      (digitsValue? base start digits).bind fun number =>
        (digitValue? base c).map (number * base + ·) := by
  induction digits generalizing start with
  | nil =>
    show (digitValue? base c >>= fun value => some (start * base + value)) = _
    cases digitValue? base c <;> rfl
  | cons d digits ih =>
    rw [List.cons_append, digitsValue?, digitsValue?]
    cases digitValue? base d with
    | none => rfl
    | some value => exact ih _

/-- Digits are read as the number that they write. -/
theorem digitsValue?_eq_some_iff (hbase : base ≤ 16) :
    digits ≠ [] ∧ digitsValue? base 0 digits = some number ↔ Writes base digits number := by
  constructor
  · rintro ⟨hne, h⟩
    induction digits using List.reverseRecOn generalizing number with
    | nil => exact absurd rfl hne
    | append_singleton digits c ih =>
      rw [digitsValue?_concat] at h
      obtain ⟨before, hbefore, h⟩ := Option.bind_eq_some_iff.1 h
      obtain ⟨value, hvalue, rfl⟩ := Option.map_eq_some_iff.1 h
      have hc := (digitValue?_eq_some_iff hbase).1 hvalue
      cases digits with
      | nil =>
        cases hbefore
        rw [Nat.zero_mul, Nat.zero_add]
        exact .single hc
      | cons d digits => exact .more (ih (List.cons_ne_nil d digits) hbefore) hc
  · intro h
    induction h with
    | @single c value hc =>
      refine ⟨List.cons_ne_nil _ _, ?_⟩
      have hlast := digitsValue?_concat base 0 [] c
      rw [(digitValue?_eq_some_iff hbase).2 hc] at hlast
      simpa [digitsValue?] using hlast
    | @more digits number c value _ hc ih =>
      refine ⟨by simp, ?_⟩
      rw [digitsValue?_concat, ih.2, (digitValue?_eq_some_iff hbase).2 hc]
      rfl

/-- A number is written with digits alone. -/
theorem Writes.notMem (hbase : base ≤ 16) (h : Writes base digits number)
    (hc : digitValue? base c = none) : c ∉ digits := by
  have hdigit : ∀ {value : Nat}, ¬ IsDigit base c value := by
    intro value hvalue
    rw [(digitValue?_eq_some_iff hbase).2 hvalue] at hc
    cases hc
  induction h with
  | single hlast =>
    rw [List.mem_singleton]
    rintro rfl
    exact hdigit hlast
  | more _ hlast ih =>
    rw [List.mem_append, List.mem_singleton, not_or]
    refine ⟨ih, ?_⟩
    rintro rfl
    exact hdigit hlast

/-- No ampersand and no semicolon stand in a number. -/
theorem Writes.mark_notMem (hbase : base ≤ 16) (h : Writes base digits number)
    (hc : c = '&' ∨ c = ';') : c ∉ digits := by
  apply h.notMem hbase
  rcases hc with rfl | rfl <;> rfl

/-! ## References -/

/-- A number is that of a character exactly if it is a scalar value. -/
theorem scalar?_eq_some_iff {code : Nat} : scalar? code = some c ↔ code = c.toNat := by
  unfold scalar?
  constructor
  · intro h
    split_ifs at h with hvalid
    cases h
    rw [Char.ofNat, dif_pos hvalid]
    rfl
  · rintro rfl
    have hvalid : c.toNat.isValidChar := c.valid
    rw [if_pos hvalid, Char.ofNat_toNat]

/-- Digits are read as the character whose number they write. -/
theorem bind_scalar?_of_digits (hbase : base ≤ 16) :
    (if digits.isEmpty then none
      else (digitsValue? base 0 digits).filter (· < Nat.pow 2 32)) >>= scalar? = some c ↔
      Writes base digits c.toNat := by
  have hsmall : c.toNat < Nat.pow 2 32 := c.val.toNat_lt
  rw [← digitsValue?_eq_some_iff hbase]
  cases digits with
  | nil => exact ⟨nofun, fun h => absurd rfl h.1⟩
  | cons d digits =>
    rw [if_neg (by simp), Option.bind_eq_bind, Option.bind_eq_some_iff]
    simp only [Option.filter_eq_some_iff, scalar?_eq_some_iff, decide_eq_true_eq]
    constructor
    · rintro ⟨number, ⟨hread, -⟩, rfl⟩
      exact ⟨List.cons_ne_nil _ _, hread⟩
    · rintro ⟨-, hread⟩
      exact ⟨c.toNat, ⟨hread, hsmall⟩, rfl⟩

/-- A number is read with or without a plus sign before it. -/
theorem word32?_bind_scalar? (hbase : base ≤ 16) {text : List Char} :
    word32? base text >>= scalar? = some c ↔
      Writes base text c.toNat ∨ ∃ digits, text = '+' :: digits ∧ Writes base digits c.toNat := by
  unfold word32?
  split
  · rename_i digits
    rw [bind_scalar?_of_digits hbase]
    constructor
    · exact fun h => .inr ⟨digits, rfl, h⟩
    · rintro (h | ⟨digits, heq, h⟩)
      · exact absurd (.head _) (h.notMem hbase rfl)
      · cases heq
        exact h
  · rename_i hplus
    rw [bind_scalar?_of_digits hbase]
    constructor
    · exact .inl
    · rintro (h | ⟨digits, heq, h⟩)
      · exact h
      · exact absurd heq (hplus digits)

/-- No decimal digit is an `x`. -/
theorem Writes.ne_x (h : Writes 10 digits number) {x : Char} (hx : x = 'x' ∨ x = 'X')
    (rest : List Char) : digits ≠ x :: rest := by
  have hnone : digitValue? 10 x = none := by rcases hx with rfl | rfl <;> rfl
  rintro rfl
  exact h.notMem (by decide) hnone (.head _)

/-- After `#x` a code is read in base 16. -/
theorem reference?_hexadecimal {x : Char} (hx : x = 'x' ∨ x = 'X') (digits : List Char) :
    reference? ('#' :: x :: digits) = word32? 16 digits >>= scalar? := by
  rcases hx with rfl | rfl <;> rfl

/-- After `#` alone it is read in base 10. -/
theorem reference?_decimal (h : ∀ x rest, x = 'x' ∨ x = 'X' → digits ≠ x :: rest) :
    reference? ('#' :: digits) = word32? 10 digits >>= scalar? := by
  rw [reference?]
  · exact fun rest => h 'x' rest (.inl rfl)
  · exact fun rest => h 'X' rest (.inr rfl)

/-- The text between `&` and `;` is read exactly if it is a reference, or would be one without the
plus sign before its number. -/
theorem reference?_eq_some_iff :
    reference? name = some c ↔ IsReference name c ∨ IsSigned name c := by
  constructor
  · intro h
    unfold reference? at h
    split at h
    · rcases (word32?_bind_scalar? (by decide)).1 h with hdigits | ⟨digits, rfl, hdigits⟩
      · exact .inl (.hexadecimal (.inl rfl) hdigits)
      · exact .inr (.hexadecimal (.inl rfl) hdigits)
    · rcases (word32?_bind_scalar? (by decide)).1 h with hdigits | ⟨digits, rfl, hdigits⟩
      · exact .inl (.hexadecimal (.inr rfl) hdigits)
      · exact .inr (.hexadecimal (.inr rfl) hdigits)
    · rcases (word32?_bind_scalar? (by decide)).1 h with hdigits | ⟨digits, rfl, hdigits⟩
      · exact .inl (.decimal hdigits)
      · exact .inr (.decimal hdigits)
    · obtain ⟨entry, hfound, rfl⟩ := Option.map_eq_some_iff.1 h
      have hname := List.find?_some hfound
      rw [← beq_iff_eq.1 hname]
      exact .inl (.named (List.mem_of_find?_eq_some hfound))
  · rintro (h | h)
    · cases h with
      | named hentry => exact (reference?_of_mem_namedReferences _ hentry).1
      | decimal h =>
        rw [reference?_decimal fun x rest hx => h.ne_x hx rest]
        exact (word32?_bind_scalar? (by decide)).2 (.inl h)
      | hexadecimal hx h =>
        rw [reference?_hexadecimal hx]
        exact (word32?_bind_scalar? (by decide)).2 (.inl h)
    · cases h with
      | decimal h =>
        -- A sign is no `x`, so the number is not taken for a hexadecimal one.
        rw [reference?_decimal]
        · exact (word32?_bind_scalar? (by decide)).2 (.inr ⟨_, rfl, h⟩)
        · rintro x rest (rfl | rfl) <;> exact nofun
      | hexadecimal hx h =>
        rw [reference?_hexadecimal hx]
        exact (word32?_bind_scalar? (by decide)).2 (.inr ⟨_, rfl, h⟩)

/-- A text refers to one character at most. -/
theorem IsReference.unique (name : List Char) (c d : Char) (h : IsReference name c)
    (h' : IsReference name d) : c = d :=
  Option.some.inj ((reference?_eq_some_iff.2 (.inl h)).symm.trans
    (reference?_eq_some_iff.2 (.inl h')))

/-- A reference that begins with a number sign writes a number. -/
theorem IsReference.writes {text : List Char} (h : IsReference ('#' :: text) c) :
    Writes 10 text c.toNat ∨
      ∃ x digits, (x = 'x' ∨ x = 'X') ∧ text = x :: digits ∧ Writes 16 digits c.toNat := by
  generalize hname : '#' :: text = name at h
  cases h with
  | named hentry =>
    have hletter := (reference?_of_mem_namedReferences _ hentry).2.2 '#' (by simp [← hname])
    cases hletter
  | decimal hdigits =>
    cases hname
    exact .inl hdigits
  | hexadecimal hx hdigits =>
    cases hname
    exact .inr ⟨_, _, hx, rfl, hdigits⟩

/-- No reference has a plus sign before its number. -/
theorem IsReference.not_isSigned {c d : Char} (h : IsReference name c) : ¬ IsSigned name d := by
  intro hsigned
  cases hsigned with
  | decimal _ =>
    rcases h.writes with hdigits | ⟨x, digits, hx, heq, -⟩
    · exact hdigits.notMem (by decide) rfl (.head _)
    · cases heq
      rcases hx with hx | hx <;> cases hx
  | hexadecimal hx _ =>
    rcases h.writes with hdigits | ⟨x, digits, -, heq, hdigits⟩
    · exact hdigits.ne_x hx _ rfl
    · cases heq
      exact hdigits.notMem (by decide) rfl (.head _)

/-- No ampersand stands in a reference behind the first. -/
theorem IsReference.ampersand_notMem (h : IsReference name c) : '&' ∉ name := by
  cases h with
  | named hentry =>
    intro hmem
    cases (reference?_of_mem_namedReferences _ hentry).2.2 '&' hmem
  | decimal hdigits => simp [hdigits.mark_notMem (by decide) (.inl rfl)]
  | hexadecimal hx hdigits =>
    rcases hx with rfl | rfl <;> simp [hdigits.mark_notMem (by decide) (.inl rfl)]

/-- No ampersand and no semicolon stand in a number with a plus sign. -/
theorem IsSigned.notMem {c d : Char} (h : IsSigned name c) (hd : d = '&' ∨ d = ';') : d ∉ name := by
  have hsign : d ≠ '#' ∧ d ≠ '+' ∧ d ≠ 'x' ∧ d ≠ 'X' := by rcases hd with rfl | rfl <;> decide
  cases h with
  | decimal hdigits => simp [hsign, hdigits.mark_notMem (by decide) hd]
  | hexadecimal hx hdigits =>
    rcases hx with rfl | rfl <;> simp [hsign, hdigits.mark_notMem (by decide) hd]

/-! ## One pass -/

section

variable {refers refers' : List Char → Char → Prop} {text name rest out out' : List Char}
    {c d : Char}

/-- Where a reference ends is decided by its first semicolon. -/
theorem Opens.unique {name' rest' : List Char} (h : Opens refers text name c rest)
    (h' : Opens refers' text name' d rest') : name = name' ∧ rest = rest' := by
  have hsplit := (List.cons.inj (h.split.symm.trans h'.split)).2
  have hname := upToSemicolon?_append h.next
    (Nat.le_add_right (byteLength name) (byteLength name')) rest
  rw [hsplit, upToSemicolon?_append h'.next (Nat.le_add_left _ _)] at hname
  cases hname
  exact ⟨rfl, (List.cons.inj (List.append_cancel_left hsplit)).2⟩

/-- A reference at the front of a text is replaced. -/
theorem Pass.of_opens (h : Pass refers text out) (hopens : Opens refers text name c rest)
    (hunique : ∀ name c d, refers name c → refers name d → c = d) :
    ∃ out', out = c :: out' ∧ Pass refers rest out' := by
  cases h with
  | done => cases hopens.split
  | reference hopens' hrest =>
    obtain ⟨rfl, rfl⟩ := hopens.unique hopens'
    exact ⟨_, by rw [hunique _ _ _ hopens.refers hopens'.refers], hrest⟩
  | copy hnone _ => exact absurd hopens (hnone _ _ _)

/-- A character at the front of a text that begins no reference is copied. -/
theorem Pass.of_not_opens (h : Pass refers (c :: text) out)
    (hnone : ∀ name d rest, ¬ Opens refers (c :: text) name d rest) :
    ∃ out', out = c :: out' ∧ Pass refers text out' := by
  cases h with
  | reference hopens _ => exact absurd hopens (hnone _ _ _)
  | copy _ hrest => exact ⟨_, rfl, hrest⟩

/-- What has no ampersand is copied. -/
theorem Pass.of_append {front : List Char} (hfront : '&' ∉ front)
    (h : Pass refers (front ++ rest) out) : ∃ out', out = front ++ out' ∧
      Pass refers rest out' := by
  induction front generalizing out with
  | nil => exact ⟨out, rfl, h⟩
  | cons e front ih =>
    rw [List.mem_cons, not_or] at hfront
    obtain ⟨out, rfl, hrest⟩ := h.of_not_opens fun name d tail hopens =>
      hfront.1 (List.cons.inj hopens.split).1.symm
    obtain ⟨out', rfl, hrest'⟩ := ih hfront.2 hrest
    exact ⟨out', rfl, hrest'⟩

/-- A pass has one result at most. -/
theorem Pass.unique (h : Pass refers text out) (h' : Pass refers text out')
    (hunique : ∀ name c d, refers name c → refers name d → c = d) : out' = out := by
  induction h generalizing out' with
  | done =>
    cases h' with
    | done => rfl
    | reference hopens _ => cases hopens.split
  | reference hopens _ ih =>
    obtain ⟨out, rfl, hrest⟩ := h'.of_opens hopens hunique
    rw [ih hrest]
  | copy hnone _ ih =>
    obtain ⟨out, rfl, hrest⟩ := h'.of_not_opens hnone
    rw [ih hrest]

end

/-- What is read as a reference: also a number with a plus sign. -/
abbrev IsRead (name : List Char) (c : Char) : Prop := IsReference name c ∨ IsSigned name c

/-- A reference stands for one character. -/
theorem IsRead.unique (name : List Char) (c d : Char) (h : IsRead name c) (h' : IsRead name d) :
    c = d :=
  Option.some.inj ((reference?_eq_some_iff.2 h).symm.trans (reference?_eq_some_iff.2 h'))

/-- A semicolon is at most ten bytes behind an ampersand if at most nine are between them. -/
theorem byteLength_ampersand_cons_le (name : List Char) :
    byteLength ('&' :: name) ≤ 10 ↔ byteLength name ≤ referenceWidth := by
  have hone : '&'.utf8Size = 1 := by decide
  rw [byteLength, hone, referenceWidth]
  omega

/-- References are read in one pass. -/
theorem pass_decodeFrom (skip : Nat) (text : List Char) :
    Pass IsRead (text.drop skip) (decodeFrom skip text) := by
  induction text generalizing skip with
  | nil =>
    rw [List.drop_nil, decodeFrom]
    exact .done
  | cons c text ih =>
    cases skip with
    | succ skip => exact ih skip
    | zero =>
      by_cases hopens : ∃ name d rest, Opens IsRead (c :: text) name d rest
      · obtain ⟨name, d, rest, hopens⟩ := hopens
        obtain ⟨rfl, rfl⟩ := List.cons.inj hopens.split
        have hrest := ih (name.length + 1)
        rw [decodeFrom_eq_decodeFrom_drop, drop_semicolon] at hrest
        rw [decodeFrom_reference hopens.next ((byteLength_ampersand_cons_le name).1 hopens.near)
          (reference?_eq_some_iff.2 hopens.refers)]
        exact .reference hopens hrest
      · have hnone : ∀ name d rest, ¬ Opens IsRead (c :: text) name d rest :=
          fun name d rest h => hopens ⟨name, d, rest, h⟩
        have hcopy : decodeFrom 0 (c :: text) = c :: decodeFrom 0 text := by
          by_cases hc : c = '&'
          · subst hc
            refine decodeFrom_ampersand fun name rest htext hname hwidth => ?_
            rw [Option.eq_none_iff_forall_ne_some]
            exact fun d hd => hnone name d rest ⟨congrArg _ htext, hname,
              (byteLength_ampersand_cons_le name).2 hwidth, reference?_eq_some_iff.1 hd⟩
          · exact decodeFrom_cons hc text
        rw [hcopy]
        exact .copy hnone (ih 0)

/-! ## Where a plus sign is read -/

section

variable {text out out' : List Char}

/-- Where there is no reference with or without a plus sign, there is none without. -/
theorem not_opens_of_isRead {text : List Char}
    (h : ∀ name d rest, ¬ Opens IsRead text name d rest) (name : List Char) (d : Char)
    (rest : List Char) : ¬ Opens IsReference text name d rest :=
  fun hopens => h name d rest ⟨hopens.split, hopens.next, hopens.near, .inl hopens.refers⟩

variable {c : Char}

/-- A number with a plus sign is copied if it is not read. -/
theorem Pass.of_opens_isSigned {name rest : List Char} (h : Pass IsReference text out)
    (hopens : Opens IsSigned text name c rest) :
    ∃ out', out = '&' :: (name ++ ';' :: out') ∧ Pass IsReference rest out' := by
  have hnone : ∀ name' d rest', ¬ Opens IsReference text name' d rest' := by
    intro name' d rest' hreference
    obtain ⟨rfl, -⟩ := hreference.unique hopens
    exact hreference.refers.not_isSigned hopens.refers
  obtain ⟨rfl, hnext, hnear, hsigned⟩ := hopens
  obtain ⟨out, rfl, hcopied⟩ := h.of_not_opens hnone
  have hfront : '&' ∉ name ++ [';'] := by simp [hsigned.notMem (.inl rfl)]
  rw [List.append_cons] at hcopied
  obtain ⟨out, rfl, hrest⟩ := hcopied.of_append hfront
  exact ⟨out, by rw [List.append_assoc]; rfl, hrest⟩

/-- What is read with plus signs is never longer than what is read without. -/
theorem Pass.length_le (h : Pass IsRead text out) (hstrict : Pass IsReference text out') :
    out.length ≤ out'.length := by
  induction h generalizing out' with
  | done => exact Nat.zero_le _
  | reference hopens _ ih =>
    obtain ⟨hsplit, hnext, hnear, hreference | hsigned⟩ := hopens
    · obtain ⟨out, rfl, hrest⟩ :=
        hstrict.of_opens ⟨hsplit, hnext, hnear, hreference⟩ IsReference.unique
      exact Nat.succ_le_succ (ih hrest)
    · obtain ⟨out, rfl, hrest⟩ := hstrict.of_opens_isSigned ⟨hsplit, hnext, hnear, hsigned⟩
      have hshorter := ih hrest
      simp only [List.length_cons, List.length_append]
      omega
  | copy hnone _ ih =>
    obtain ⟨out, rfl, hrest⟩ := hstrict.of_not_opens (not_opens_of_isRead hnone)
    exact Nat.succ_le_succ (ih hrest)

/-- A number with a plus sign in the place of a reference. -/
structure SignedAt (text before name : List Char) (c : Char) (after : List Char) : Prop where
  split : text = before ++ '&' :: (name ++ ';' :: after)
  near : byteLength ('&' :: name) ≤ 10
  signed : IsSigned name c

/-- A reference is found behind more text. -/
theorem SignedAt.append {before name after : List Char} (h : SignedAt text before name c after)
    (front : List Char) : SignedAt (front ++ text) (front ++ before) name c after :=
  ⟨by rw [h.split, List.append_assoc], h.near, h.signed⟩

/-- A number with a plus sign at the front of a text. -/
theorem SignedAt.opens {name after : List Char} (h : SignedAt text [] name c after) :
    Opens IsSigned text name c after :=
  ⟨h.split, h.signed.notMem (.inr rfl), h.near, h.signed⟩

/-- If a text is read as it is without plus signs, it has none in the place of a reference. -/
theorem Pass.not_signedAt (h : Pass IsRead text out) (hstrict : Pass IsReference text out)
    {before name after : List Char} : ¬ SignedAt text before name c after := by
  induction h generalizing before with
  | done => exact fun hsigned => by simpa using hsigned.split
  | @reference text name' rest out d hopens hpass ih =>
    obtain ⟨rfl, hnext, hnear, hreference | hsigned⟩ := hopens
    · obtain ⟨out, hout, hrest⟩ :=
        hstrict.of_opens ⟨rfl, hnext, hnear, hreference⟩ IsReference.unique
      cases hout
      rintro ⟨hsplit, hnear', hsigned⟩
      cases before with
      | nil =>
        have hopens : Opens IsReference _ name' d rest := ⟨rfl, hnext, hnear, hreference⟩
        obtain ⟨rfl, -⟩ := hopens.unique (SignedAt.opens ⟨hsplit, hnear', hsigned⟩)
        exact hreference.not_isSigned hsigned
      | cons e before =>
        -- The name of the reference has no ampersand in it, so the place is behind it.
        have hfront : '&' ∉ name' ++ [';'] := by simp [hreference.ampersand_notMem]
        have htail := (List.cons.inj hsplit).2
        rw [List.append_cons] at htail
        obtain ⟨middle, -, hmiddle⟩ := exists_of_append_eq_append_cons hfront htail
        exact ih hrest ⟨hmiddle, hnear', hsigned⟩
    · -- The number is longer than its character, and nothing after it makes up for that.
      obtain ⟨out', hout, hrest⟩ := hstrict.of_opens_isSigned ⟨rfl, hnext, hnear, hsigned⟩
      have hshorter := hpass.length_le hrest
      have hlength := congrArg List.length hout
      simp only [List.length_cons, List.length_append] at hlength
      omega
  | copy hnone _ ih =>
    obtain ⟨out, hout, hrest⟩ := hstrict.of_not_opens (not_opens_of_isRead hnone)
    cases hout
    rintro ⟨hsplit, hnear, hsigned⟩
    cases before with
    | nil =>
      obtain ⟨-, hnext, -, -⟩ := SignedAt.opens ⟨hsplit, hnear, hsigned⟩
      exact hnone _ _ _ ⟨hsplit, hnext, hnear, .inr hsigned⟩
    | cons e before => exact ih hrest ⟨(List.cons.inj hsplit).2, hnear, hsigned⟩

/-- A text is read as it is without plus signs if it has none in the place of a reference. -/
theorem Pass.of_not_signedAt (h : Pass IsRead text out)
    (hnone : ∀ before name c after, ¬ SignedAt text before name c after) :
    Pass IsReference text out := by
  induction h with
  | done => exact .done
  | @reference text name rest out c hopens _ ih =>
    obtain ⟨rfl, hnext, hnear, hreference | hsigned⟩ := hopens
    · refine .reference ⟨rfl, hnext, hnear, hreference⟩ (ih fun before name' d after hsigned => ?_)
      refine hnone ('&' :: (name ++ ';' :: before)) name' d after ?_
      simpa using hsigned.append ('&' :: (name ++ [';']))
    · exact absurd ⟨rfl, hnear, hsigned⟩ (hnone [] name c rest)
  | @copy c rest out hnot _ ih =>
    refine .copy (not_opens_of_isRead hnot) (ih fun before name d after hsigned => ?_)
    exact hnone (c :: before) name d after (hsigned.append [c])

end

/-- References are read in one pass from left to right, of which this is the only result: an
ampersand begins one if the next semicolon is at most ten bytes behind it and the text between is a
name, a decimal or a hexadecimal number of a character, or such a number with a plus sign. Without
the last the result is the same exactly if no number with a plus sign stands in the place of a
reference. -/
theorem decode_reads_references (text : String) :
    (∀ out : String, Pass IsRead text.toList out.toList ↔ out = decode text) ∧
    (Pass IsReference text.toList (decode text).toList ↔
      ∀ before name c after, ¬ SignedAt text.toList before name c after) := by
  have hpass : Pass IsRead text.toList (decode text).toList := by
    rw [decode, String.toList_ofList]
    exact pass_decodeFrom 0 text.toList
  refine ⟨fun out => ⟨fun h => ?_, fun h => h ▸ hpass⟩,
    fun hstrict before name c after => hpass.not_signedAt hstrict, hpass.of_not_signedAt⟩
  exact String.toList_inj.1 (hpass.unique h IsRead.unique)

/-- A number with a plus sign is read as a character, though it is no reference. -/
theorem signed_number_is_read :
    decode "&#+65;" = "A" ∧ ¬ Pass IsReference "&#+65;".toList "A".toList := by
  have hdecode : decodeFrom 0 "&#+65;".toList = "A".toList := by decide
  have hpass := pass_decodeFrom 0 "&#+65;".toList
  rw [List.drop_zero, hdecode] at hpass
  have hwrites : Writes 10 "65".toList 'A'.toNat :=
    (digitsValue?_eq_some_iff (by decide)).1 ⟨by decide, by decide⟩
  have hsigned : SignedAt "&#+65;".toList [] "#+65".toList 'A' [] :=
    ⟨by decide, by decide, .decimal hwrites⟩
  refine ⟨?_, fun hstrict => hpass.not_signedAt hstrict hsigned⟩
  rw [decode, hdecode, String.ofList_toList]

end MarkupCompiler.Text
