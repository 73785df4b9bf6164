import Mathlib
import MarkupCompiler.Markup.Constant
import MarkupCompiler.Proofs.ShortestDigits

/-!
# Numbers in templates and numbers at run time

At run time a script turns a number into text by a rule of the language: of the decimal numbers that
round to the value it takes one with the fewest digits. Where there are several of these, the rule
is completed as its note recommends: the nearest is taken, and of two that are equally near the even
one (`IsChosen`). The number is written with an exponent if its point would be more than five zeros
before the digits or more than twenty-one places after their front (`numberText`).

Into a template numbers are written by four rules of their own. The texts are the same but in three
cases (`inlined_number_text`): a fraction that the language writes with a negative exponent is
written out, a whole number below `10 ^ 21` has all its digits and not the fewest, and a number that
is just halfway between two choices is rounded up and not to even.
-/

namespace MarkupCompiler.Binary64

variable {m : ℕ} {e : ℤ} {d d' : Decimal}

/-! ## The rule of the language -/

/-- The place of the point, counted from the front of the digits. -/
def Decimal.point (d : Decimal) : ℤ := d.exponent + d.size

/-- The decimal number that a script writes for a value. The first two fields are required of it,
the last two are recommended. -/
structure IsChosen (m : ℕ) (e : ℤ) (d : Decimal) : Prop where
  rounds : RoundsTo d.value m e
  fewest : ∀ d' : Decimal, RoundsTo d'.value m e → d.size ≤ d'.size
  nearest : ∀ d' : Decimal, RoundsTo d'.value m e → d'.size = d.size →
    |d.value - value m e| ≤ |d'.value - value m e|
  even : ∀ d' : Decimal, RoundsTo d'.value m e → d'.size = d.size → d' ≠ d →
    |d'.value - value m e| = |d.value - value m e| → d.digits % 2 = 0

/-- How a script writes a decimal number. -/
def numberText (d : Decimal) : List Char :=
  let digits := decimalDigits d.digits
  if -5 ≤ d.point ∧ d.point ≤ 21 then
    if d.size ≤ d.point then digits ++ List.replicate (d.point - d.size).toNat '0'
    else if 0 < d.point then digits.take d.point.toNat ++ '.' :: digits.drop d.point.toNat
    else '0' :: '.' :: List.replicate (-d.point).toNat '0' ++ digits
  else
    let sign := if d.point < 0 then '-' else '+'
    let written := decimalDigits (d.point - 1).natAbs
    if d.size = 1 then digits ++ 'e' :: sign :: written
    else digits.take 1 ++ '.' :: digits.drop 1 ++ 'e' :: sign :: written

/-- The text that a script gives a finite value. Zero has no sign. -/
def IsNumberText (negative : Bool) (m : ℕ) (e : ℤ) (text : String) : Prop :=
  m = 0 ∧ text = "0" ∨
    0 < m ∧ ∃ d, IsChosen m e d ∧
      text = String.ofList ((if negative then ['-'] else []) ++ numberText d)

/-- A value halfway between a decimal number and the next with as many digits. -/
def IsHalfway (m : ℕ) (e : ℤ) (d : Decimal) : Prop :=
  2 * value m e = (2 * d.digits + 1) * 10 ^ d.exponent

/-- A whole number that is written out in full. -/
def IsPlainWhole (m : ℕ) (e : ℤ) : Prop := value m e < 10 ^ 21 ∧ ∃ n : ℕ, value m e = n

/-! ## Decimal numbers and what they stand for -/

/-- A decimal fits into as many digits as it has. -/
theorem Decimal.fits_size (d : Decimal) : Fits d.size d.value := by
  rcases Nat.eq_zero_or_pos d.digits with h0 | hpos
  · exact ⟨d, by rw [h0]; exact Nat.pow_pos (by decide), rfl⟩
  · exact ⟨d, ((length_decimalDigits_iff hpos d.size_pos).1 rfl).2, rfl⟩

/-- Zero rounds to no other value. -/
theorem RoundsTo.digits_pos (hm : 0 < m) (h : RoundsTo d.value m e) : 0 < d.digits := by
  refine Nat.pos_of_ne_zero fun h0 => ?_
  have hvalue : d.value = 0 := by rw [Decimal.value, h0, Nat.cast_zero, zero_mul]
  have hzero : value 0 leastExponent = 0 := by rw [value, Nat.cast_zero, zero_mul]
  have hpos := value_pos (e := e) hm
  have h' := h 0 leastExponent ⟨by decide, le_rfl, .inr rfl⟩ (by rw [hzero]; exact hpos.ne)
  rw [hvalue, hzero, sub_zero, abs_zero, zero_sub, abs_neg, abs_of_pos hpos] at h'
  rcases h' with h' | ⟨h', -⟩ <;> linarith

/-- With as many digits, numbers are written in one way. -/
theorem Decimal.eq_of_value (hd : 0 < d.digits) (hd' : 0 < d'.digits) (hsize : d.size = d'.size)
    (hvalue : d.value = d'.value) : d = d' := by
  obtain ⟨hlow, hhigh⟩ := Decimal.value_bounds hd
  obtain ⟨hlow', hhigh'⟩ := Decimal.value_bounds hd'
  rw [hvalue] at hlow hhigh
  have h1 := ten_zpow_lt_iff.1 (lt_of_le_of_lt hlow hhigh')
  have h2 := ten_zpow_lt_iff.1 (lt_of_le_of_lt hlow' hhigh)
  have hexp : d.exponent = d'.exponent := by omega
  have hdigits : d.digits = d'.digits := by
    rw [Decimal.value, Decimal.value, hexp] at hvalue
    exact_mod_cast mul_right_cancel₀ (ten_zpow_pos _).ne' hvalue
  cases d
  cases d'
  simp only [Decimal.mk.injEq]
  exact ⟨hdigits, hexp⟩

/-- A value rounds to itself. -/
theorem roundsTo_self (m : ℕ) (e : ℤ) : RoundsTo (value m e) m e := by
  intro m' e' _ hne
  left
  rw [sub_self, abs_zero]
  exact abs_pos.2 (sub_ne_zero.2 hne.symm)

/-! ## What the search finds, and the rule of the language -/

/-- No number that rounds to a value has fewer digits than those found. -/
theorem IsCanonical.size_shortest_le (h : IsCanonical m e) (hm : 0 < m)
    (hd : RoundsTo d.value m e) : (shortest m e).size ≤ d.size :=
  not_lt.1 fun hlt => (h.shortest_spec hm).1 _ _ d.size_pos hlt d.fits_size hd

/-- The shortest decimal of a positive value is not zero. -/
theorem IsCanonical.shortest_digits_pos (h : IsCanonical m e) (hm : 0 < m) :
    0 < (shortest m e).digits :=
  (h.shortest_spec hm).2.1.rounds.digits_pos hm

/-- No value is halfway between nine and ten units of a decimal place if ten of them round to it:
the values would have to be as far apart as the units are, and are then no multiples of a half. -/
theorem IsCanonical.ne_halfway_ten (h : IsCanonical m e) (hm : 0 < m) {u : ℤ}
    (hround : RoundsTo (10 * 10 ^ u) m e) : 2 * value m e ≠ 19 * 10 ^ u := by
  intro hhalf
  have hstep := two_zpow_pos e
  -- A unit is no more than the step, so the significand has one digit and the step is least.
  have hunit : (10 : ℚ) ^ u ≤ 2 ^ e := by
    rw [h.roundsTo_iff hm] at hround
    rcases hround with ⟨-, hle⟩ | ⟨-, -, hle⟩ <;> linarith
  have hvalue : value m e = m * 2 ^ e := rfl
  have hsmall : m < 10 := by
    have hlt : (m : ℚ) * 2 ^ e < 10 * 2 ^ e := by linarith
    exact_mod_cast lt_of_mul_lt_mul_right hlt hstep.le
  have hleast : e = leastExponent := h.normal.resolve_left fun hnormal =>
    absurd (lt_of_le_of_lt hnormal hsmall) (by decide)
  obtain ⟨a, ha, hapos⟩ : ∃ a : ℕ, e = -(a : ℤ) ∧ 0 < a := ⟨1074, by rw [hleast]; rfl, by decide⟩
  obtain ⟨j, hj⟩ : ∃ j : ℕ, u = -((j + 1 : ℕ) : ℤ) := by
    have hlt : (10 : ℚ) ^ u < 10 ^ (0 : ℤ) := by
      refine lt_of_le_of_lt hunit ?_
      rw [zpow_zero, ha, zpow_neg, zpow_natCast]
      exact inv_lt_one_of_one_lt₀ (one_lt_pow₀ one_lt_two hapos.ne')
    exact ⟨(-u - 1).toNat, by have := ten_zpow_lt_iff.1 hlt; omega⟩
  have hnat : 2 * m * 10 ^ (j + 1) = 19 * 2 ^ a := by
    rw [hvalue, ha, hj, zpow_neg, zpow_neg, zpow_natCast, zpow_natCast] at hhalf
    field_simp at hhalf
    rw [mul_comm 19]
    exact_mod_cast hhalf
  -- Five divides the left side and not the right.
  have hfive : 5 ∣ 19 * 2 ^ a := by
    rw [← hnat, pow_succ]
    exact Dvd.dvd.mul_left (Dvd.dvd.mul_left (by decide) _) _
  rcases (Nat.Prime.dvd_mul (by norm_num)).1 hfive with h5 | h5
  · exact absurd h5 (by decide)
  · exact absurd (Nat.Prime.dvd_of_dvd_pow (by norm_num) h5) (by decide)

/-- A number as near as the one that was found is a neighbour of the value. -/
theorem IsCanonical.eq_neighbour (h : IsCanonical m e) (hm : 0 < m) {x : ℚ}
    (hfits : Fits (shortest m e).size x) (hround : RoundsTo x m e)
    (hdist : |x - value m e| = |(shortest m e).value - value m e|) :
    x = (below m e (shortest m e).size).value ∨ x = (above m e (shortest m e).size).value := by
  obtain ⟨-, hnearest, -⟩ := h.shortest_spec hm
  have hsize := (shortest m e).size_pos
  obtain ⟨hbelow, habove⟩ := value_between m e (shortest m e).size
  rcases h.beyond_neighbour hm hsize hfits hround with ⟨hle, hb⟩ | ⟨hle, ha⟩
  · left
    have hnear := hnearest.nearest _ (fits_below hm hsize) hb
    rw [← hdist, abs_of_nonpos (by linarith), abs_of_nonpos (by linarith)] at hnear
    linarith
  · right
    have hnear := hnearest.nearest _ (fits_above hm hsize) ha
    rw [← hdist, abs_of_pos (by linarith), abs_of_pos (by linarith)] at hnear
    linarith

/-- Where a number that is as near as the one that was found differs from it, it is just before it,
and the value halfway between the two. -/
theorem IsCanonical.eq_of_tie (h : IsCanonical m e) (hm : 0 < m) (hround : RoundsTo d.value m e)
    (hsize : d.size = (shortest m e).size)
    (hdist : |d.value - value m e| = |(shortest m e).value - value m e|)
    (hne : d ≠ shortest m e) :
    shortest m e = ⟨d.digits + 1, d.exponent⟩ ∧ IsHalfway m e d := by
  obtain ⟨hfewest, hnearest, -⟩ := h.shortest_spec hm
  have hcount := (shortest m e).size_pos
  have hpos := h.shortest_digits_pos hm
  have hdpos := hround.digits_pos hm
  obtain ⟨hbelow, habove⟩ := value_between m e (shortest m e).size
  have hfits : Fits (shortest m e).size d.value := hsize ▸ d.fits_size
  have hlt : d.value < (shortest m e).value := lt_of_le_of_ne
    (hnearest.greatest _ hfits hround hdist)
    fun heq => hne (Decimal.eq_of_value hdpos hpos hsize heq)
  -- Of the two neighbours, one is `d` and the other what was found.
  have hd : d.value = (below m e (shortest m e).size).value ∧
      (shortest m e).value = (above m e (shortest m e).size).value := by
    rcases h.eq_neighbour hm hfits hround hdist with h1 | h1 <;>
      rcases h.eq_neighbour hm hnearest.fits hnearest.rounds rfl with h2 | h2
    · linarith
    · exact ⟨h1, h2⟩
    · linarith
    · linarith
  obtain ⟨hlow, hhigh⟩ := below_digits (e := e) hm hcount
  have hbpos : 0 < (below m e (shortest m e).size).digits :=
    lt_of_lt_of_le (Nat.pow_pos (by decide)) hlow
  obtain rfl : d = below m e (shortest m e).size := Decimal.eq_of_value hdpos hbpos
    (hsize.trans ((length_decimalDigits_iff hbpos hcount).2 ⟨hlow, hhigh⟩).symm) hd.1
  have hhalf : IsHalfway m e (below m e (shortest m e).size) := by
    rw [hd.2, abs_of_nonpos (by linarith), abs_of_pos (by linarith), above_value] at hdist
    rw [IsHalfway, add_mul, mul_assoc, ← Decimal.value]
    linarith
  refine ⟨Decimal.eq_of_value hpos (Nat.succ_pos _) ?_ hd.2, hhalf⟩
  refine ((length_decimalDigits_iff (Nat.succ_pos _) hcount).2 ⟨by omega, ?_⟩).symm
  refine lt_of_le_of_ne (Nat.succ_le_of_lt hhigh) fun hpower => ?_
  -- A power of ten has one digit, so that the value would be halfway between nine and ten.
  have hone : (shortest m e).size = 1 := by
    refine le_antisymm (not_lt.1 fun hmore => ?_) hcount
    refine hfewest 1 (shortest m e).value Nat.one_pos hmore ?_ hnearest.rounds
    refine ⟨⟨1, (below m e (shortest m e).size).exponent + (shortest m e).size⟩,
      Nat.lt_of_sub_eq_succ rfl, ?_⟩
    rw [hd.2, Decimal.value, Decimal.value, above, zpow_add₀ (by norm_num), zpow_natCast]
    dsimp only
    rw [← Nat.succ_eq_add_one, hpower]
    push_cast
    ring
  have hnine : (below m e (shortest m e).size).digits = 9 := by
    rw [hone] at hpower ⊢
    omega
  refine h.ne_halfway_ten hm (u := (below m e (shortest m e).size).exponent) ?_ ?_
  · have hten : (shortest m e).value = 10 * 10 ^ (below m e (shortest m e).size).exponent := by
      rw [hd.2, Decimal.value, above]
      dsimp only
      rw [hnine]
      norm_num
    exact hten ▸ hnearest.rounds
  · rw [hhalf, hnine]
    norm_num

/-- Just before the number that was found, halfway to it, there is one that is as near. -/
theorem IsHalfway.ne_shortest (h : IsCanonical m e) (hm : 0 < m) (hround : RoundsTo d.value m e)
    (hsize : d.size = (shortest m e).size) (hhalf : IsHalfway m e d) : d ≠ shortest m e := by
  intro heq
  obtain ⟨-, hnearest, -⟩ := h.shortest_spec hm
  have hgap := gapBelow_le m e
  have hunit := ten_zpow_pos d.exponent
  have hnext : ((d.digits + 1 : ℕ) : ℚ) * 10 ^ d.exponent = d.value + 10 ^ d.exponent := by
    rw [Decimal.value]
    push_cast
    ring
  have hhalf' : 2 * value m e = 2 * d.value + 10 ^ d.exponent := by
    rw [hhalf, Decimal.value]
    ring
  -- The next number rounds to the value too: the values above are not nearer than those below.
  have hround' : RoundsTo (d.value + 10 ^ d.exponent) m e := by
    rw [h.roundsTo_iff hm] at hround ⊢
    rcases hround with ⟨h1, -⟩ | ⟨heven, h1, -⟩
    · exact .inl ⟨by linarith, by linarith⟩
    · exact .inr ⟨heven, by linarith, by linarith⟩
  have hfits : Fits (shortest m e).size (d.value + 10 ^ d.exponent) := by
    rw [← hsize, ← hnext]
    have hlt := ((length_decimalDigits_iff (hround.digits_pos hm) d.size_pos).1 rfl).2
    rcases lt_or_eq_of_le (Nat.succ_le_of_lt hlt) with hlt | hpower
    · exact ⟨⟨d.digits + 1, d.exponent⟩, hlt, rfl⟩
    · refine ⟨⟨1, d.exponent + d.size⟩, Nat.one_lt_pow d.size_pos.ne' (by decide), ?_⟩
      rw [Decimal.value, zpow_add₀ (by norm_num), zpow_natCast, ← Nat.succ_eq_add_one, hpower]
      push_cast
      ring
  have hle := hnearest.greatest _ hfits hround' (by
    rw [← heq, abs_of_pos (by linarith), abs_of_neg (by linarith)]
    linarith)
  rw [← heq] at hle
  linarith

/-- A script writes as many digits as are found. -/
theorem IsChosen.size_eq (h : IsCanonical m e) (hm : 0 < m) (hd : IsChosen m e d) :
    d.size = (shortest m e).size :=
  le_antisymm (hd.fewest _ (h.shortest_spec hm).2.1.rounds) (h.size_shortest_le hm hd.rounds)

/-- The number that a script writes is the one that was found, unless the value is halfway between
the two. -/
theorem IsChosen.eq_shortest_or (h : IsCanonical m e) (hm : 0 < m) (hd : IsChosen m e d) :
    d = shortest m e ∨ shortest m e = ⟨d.digits + 1, d.exponent⟩ ∧ IsHalfway m e d := by
  obtain ⟨-, hnearest, -⟩ := h.shortest_spec hm
  have hsize := hd.size_eq h hm
  have hdist := le_antisymm (hd.nearest _ hnearest.rounds hsize.symm)
    (hnearest.nearest _ (hsize ▸ d.fits_size) hd.rounds)
  by_cases hne : d = shortest m e
  · exact .inl hne
  · exact .inr (h.eq_of_tie hm hd.rounds hsize hdist hne)

/-- The two numbers that a script may write, from the one that was found. -/
theorem IsChosen.eq_or_of_shortest (h : IsCanonical m e) (hm : 0 < m) (hd : IsChosen m e d) {n : ℕ}
    {k : ℤ} (hfound : shortest m e = ⟨n + 1, k⟩) :
    d = ⟨n + 1, k⟩ ∨ d = ⟨n, k⟩ ∧ IsHalfway m e ⟨n, k⟩ := by
  rcases hd.eq_shortest_or h hm with heq | ⟨heq, hhalf⟩
  · exact .inl (heq.trans hfound)
  · obtain ⟨hdigits, hexp⟩ := Decimal.mk.inj (hfound.symm.trans heq)
    obtain rfl : d = ⟨n, k⟩ := by
      cases d
      exact Decimal.mk.injEq .. ▸ ⟨(Nat.succ.inj hdigits).symm, hexp.symm⟩
    exact .inr ⟨rfl, hhalf⟩

/-- The chosen decimal is the shortest one unless it is one of two halfway. -/
theorem IsChosen.eq_shortest_iff (h : IsCanonical m e) (hm : 0 < m) (hd : IsChosen m e d) :
    d = shortest m e ↔ ¬IsHalfway m e d := by
  constructor
  · exact fun heq hhalf => hhalf.ne_shortest h hm hd.rounds (hd.size_eq h hm) heq
  · intro hhalf
    rcases hd.eq_shortest_or h hm with heq | ⟨-, hhalf'⟩
    · exact heq
    · exact absurd hhalf' hhalf

/-- The rule of the language chooses no two decimal numbers for a value. -/
theorem IsChosen.unique (h : IsCanonical m e) (hm : 0 < m) (hd : IsChosen m e d)
    (hd' : IsChosen m e d') : d = d' := by
  by_contra hne
  have hsize := le_antisymm (hd.fewest _ hd'.rounds) (hd'.fewest _ hd.rounds)
  have hdist := le_antisymm (hd.nearest _ hd'.rounds hsize.symm) (hd'.nearest _ hd.rounds hsize)
  -- Both would be even, but they are neighbours.
  have heven := hd.even d' hd'.rounds hsize.symm (Ne.symm hne) hdist.symm
  have heven' := hd'.even d hd.rounds hsize hne hdist
  rcases hd.eq_shortest_or h hm with heq | ⟨heq, -⟩ <;>
    rcases hd'.eq_shortest_or h hm with heq' | ⟨heq', -⟩
  · exact hne (heq.trans heq'.symm)
  · have hdigits := congrArg Decimal.digits (heq.trans heq')
    dsimp only at hdigits
    omega
  · have hdigits := congrArg Decimal.digits (heq'.trans heq)
    dsimp only at hdigits
    omega
  · refine hne ?_
    cases d
    cases d'
    simpa using heq.symm.trans heq'

/-- The rule of the language chooses a decimal number for each value. -/
theorem IsCanonical.exists_isChosen (h : IsCanonical m e) (hm : 0 < m) : ∃ d, IsChosen m e d := by
  obtain ⟨-, hnearest, -⟩ := h.shortest_spec hm
  have hbest : ∀ d : Decimal, RoundsTo d.value m e → d.size = (shortest m e).size →
      |(shortest m e).value - value m e| ≤ |d.value - value m e| := fun d hround hsize =>
    hnearest.nearest _ (hsize ▸ d.fits_size) hround
  by_cases htie : ∃ d : Decimal, RoundsTo d.value m e ∧ d.size = (shortest m e).size ∧
      d ≠ shortest m e ∧ |d.value - value m e| = |(shortest m e).value - value m e|
  · obtain ⟨d, hround, hsize, hne, hdist⟩ := htie
    obtain ⟨heq, -⟩ := h.eq_of_tie hm hround hsize hdist hne
    by_cases heven : d.digits % 2 = 0
    · exact ⟨d, hround, fun d' hround' => hsize ▸ h.size_shortest_le hm hround',
        fun d' hround' hsize' => hdist ▸ hbest d' hround' (hsize'.trans hsize),
        fun _ _ _ _ _ => heven⟩
    · have hodd : (shortest m e).digits % 2 = 0 := by
        rw [heq]
        dsimp only
        omega
      exact ⟨shortest m e, hnearest.rounds, fun d' hround' => h.size_shortest_le hm hround',
        hbest, fun _ _ _ _ _ => hodd⟩
  · refine ⟨shortest m e, hnearest.rounds, fun d' hround' => h.size_shortest_le hm hround', hbest,
      fun d' hround' hsize hne hdist => ?_⟩
    exact absurd ⟨d', hround', hsize, hne, hdist⟩ htie

/-- There are no zeros at the end of the digits that a script writes. -/
theorem IsChosen.digits_mod_ten (hm : 0 < m) (hd : IsChosen m e d) : d.digits % 10 ≠ 0 := by
  intro hzero
  have hpos := hd.rounds.digits_pos hm
  have hvalue : Decimal.value ⟨d.digits / 10, d.exponent + 1⟩ = d.value := by
    have hdigits : (d.digits : ℚ) = 10 * (d.digits / 10 : ℕ) := by
      exact_mod_cast (show d.digits = 10 * (d.digits / 10) by omega)
    rw [Decimal.value, Decimal.value, hdigits, zpow_add_one₀ (by norm_num)]
    ring
  have hle := hd.fewest ⟨d.digits / 10, d.exponent + 1⟩ (hvalue.symm ▸ hd.rounds)
  rw [Decimal.size, Decimal.size, decimalDigits, decimalDigits,
    Nat.toDigits_of_base_le (by decide) (show 10 ≤ d.digits by omega), List.length_append] at hle
  exact absurd hle (by simp)

/-! ## Where exponents begin -/

/-- The point says between which powers of ten a decimal is. -/
theorem Decimal.point_bounds (hpos : 0 < d.digits) :
    10 ^ (d.point - 1) ≤ d.value ∧ d.value < 10 ^ d.point :=
  Decimal.value_bounds hpos

/-- What a script writes for a value is below `10 ^ 21`, which is a value itself, exactly if the
value is. -/
theorem IsChosen.value_lt_iff (hd : IsChosen m e d) : d.value < 10 ^ 21 ↔ value m e < 10 ^ 21 := by
  have hcanonical : IsCanonical 7629394531250000 17 := by decide
  have hbound : value 7629394531250000 17 = 10 ^ 21 := by norm_num [value]
  have hround := hd.rounds 7629394531250000 17 hcanonical
  rw [hbound] at hround
  constructor
  · intro hlt
    by_contra hge
    rcases eq_or_lt_of_le (not_lt.1 hge) with heq | hgt
    · -- The bound has one digit, and nothing is nearer to it than itself.
      have hone : Decimal.value ⟨1, 21⟩ = value m e := by rw [← heq]; norm_num [Decimal.value]
      have hround' : RoundsTo (Decimal.value ⟨1, 21⟩) m e := hone ▸ roundsTo_self m e
      have hsize : d.size = 1 := le_antisymm (hd.fewest _ hround') d.size_pos
      have hnear := hd.nearest _ hround' (hsize.symm ▸ rfl)
      rw [hone, sub_self, abs_zero, abs_nonpos_iff, sub_eq_zero] at hnear
      linarith
    · have hround := hround hgt.ne
      rw [abs_of_neg (by linarith), abs_of_neg (by linarith)] at hround
      rcases hround with h1 | ⟨h1, -⟩ <;> linarith
  · intro hlt
    by_contra hge
    have hround := hround hlt.ne'
    have hge := not_lt.1 hge
    rw [abs_of_pos (by linarith), abs_of_nonneg (by linarith)] at hround
    rcases hround with h1 | ⟨h1, -⟩ <;> linarith

/-- The point is at most at 21 exactly for values below 10²¹. -/
theorem IsChosen.point_le_iff (hm : 0 < m) (hd : IsChosen m e d) :
    d.point ≤ 21 ↔ value m e < 10 ^ 21 := by
  obtain ⟨hlow, hhigh⟩ := Decimal.point_bounds (hd.rounds.digits_pos hm)
  rw [← hd.value_lt_iff]
  constructor
  · intro hle
    refine lt_of_lt_of_le hhigh ?_
    exact_mod_cast ten_zpow_le_iff.2 hle
  · intro hlt
    have h : (10 : ℚ) ^ (d.point - 1) < 10 ^ (21 : ℤ) := lt_of_le_of_lt hlow (by exact_mod_cast hlt)
    have := ten_zpow_lt_iff.1 h
    omega

/-! ## Texts -/

/-- Numbers with the same digits are equal. -/
theorem decimalDigits_injective : Function.Injective decimalDigits := fun a b h => by
  rw [← Nat.ofDigitChars_ten_toDigits (n := a), ← Nat.ofDigitChars_ten_toDigits (n := b)]
  exact congrArg (Nat.ofDigitChars 10 · 0) h

/-- The digits of a number are digits. -/
theorem isDigit_of_mem_decimalDigits {c : Char} {n : ℕ} (h : c ∈ decimalDigits n) :
    c.isDigit = true :=
  Nat.isDigit_of_mem_toDigits (by decide) (by decide) h

/-- No other characters are among them. -/
theorem filter_decimalDigits (n : ℕ) : (decimalDigits n).filter Char.isDigit = decimalDigits n :=
  List.filter_eq_self.2 fun _ => isDigit_of_mem_decimalDigits

/-- Digits with zeros after them. -/
theorem decimalDigits_mul_pow {n : ℕ} (hn : 0 < n) (k : ℕ) :
    decimalDigits (n * 10 ^ k) = decimalDigits n ++ List.replicate k '0' := by
  induction k with
  | zero => simp
  | succ k ih =>
    have hstep := Nat.toDigits_append_toDigits (b := 10) (n := n * 10 ^ k) (d := 0) (by decide)
      (Nat.mul_pos hn (Nat.pow_pos (by decide))) (by decide)
    rw [List.replicate_succ', ← List.append_assoc, ← ih, pow_succ, ← mul_assoc, mul_comm _ 10]
    exact hstep.symm

/-- Beyond the bound, a script writes one digit before the point and an exponent. -/
theorem numberText_of_large (h : 21 < d.point) : numberText d = printScientific d := by
  have hexp : (d.point - 1).natAbs = (d.exponent + (decimalDigits d.digits).length - 1).toNat := by
    rw [Decimal.point, Decimal.size] at *
    omega
  have hsign : (if d.point < 0 then '-' else '+') = '+' := if_neg (by omega)
  rw [numberText, if_neg (by omega), hsign, hexp, printScientific]
  by_cases hsize : d.size = 1
  · rw [if_pos hsize]
    have hdrop : (decimalDigits d.digits).drop 1 = [] := List.drop_eq_nil_of_le hsize.le
    have htake : (decimalDigits d.digits).take 1 = decimalDigits d.digits :=
      List.take_of_length_le hsize.le
    simp [hdrop, htake]
  · rw [if_neg hsize]
    have hdrop : (decimalDigits d.digits).drop 1 ≠ [] := by
      rw [ne_eq, List.drop_eq_nil_iff]
      have := d.size_pos
      rw [Decimal.size] at *
      omega
    simp only [List.isEmpty_iff, hdrop, if_false, List.append_assoc, List.cons_append,
      List.nil_append]

/-- Within the bounds, a script writes the number out. -/
theorem numberText_of_plain (hlow : -5 ≤ d.point) (hhigh : d.point ≤ 21) :
    numberText d = printPositional d := by
  have hpoint : d.point = d.exponent + (decimalDigits d.digits).length := rfl
  rw [numberText, if_pos ⟨hlow, hhigh⟩, printPositional, ← hpoint]
  by_cases hexp : 0 ≤ d.exponent
  · rw [if_pos (by rw [Decimal.point]; omega), if_pos hexp, Decimal.point, add_sub_cancel_right]
  · rw [if_neg (by rw [Decimal.point]; omega), if_neg hexp]

/-- Below the bounds, a script writes an exponent. -/
theorem mem_numberText (h : d.point < -5 ∨ 21 < d.point) : 'e' ∈ numberText d := by
  rw [numberText, if_neg (by omega)]
  dsimp only
  split <;> simp

/-- The digits of a number with an exponent are those of both. -/
theorem filter_printScientific (d : Decimal) :
    (printScientific d).filter Char.isDigit =
      decimalDigits d.digits ++ decimalDigits (d.exponent + d.size - 1).toNat := by
  have htake : ((decimalDigits d.digits).take 1).filter Char.isDigit =
      (decimalDigits d.digits).take 1 :=
    List.filter_eq_self.2 fun _ hc => isDigit_of_mem_decimalDigits (List.mem_of_mem_take hc)
  have hdrop : ((decimalDigits d.digits).drop 1).filter Char.isDigit =
      (decimalDigits d.digits).drop 1 :=
    List.filter_eq_self.2 fun _ hc => isDigit_of_mem_decimalDigits (List.mem_of_mem_drop hc)
  have hparts : ((decimalDigits d.digits).take 1 ++
      if ((decimalDigits d.digits).drop 1).isEmpty then [] else
        '.' :: (decimalDigits d.digits).drop 1).filter Char.isDigit = decimalDigits d.digits := by
    rw [List.filter_append, htake]
    split
    · rename_i hempty
      conv_rhs => rw [← List.take_append_drop 1 (decimalDigits d.digits), List.isEmpty_iff.1 hempty]
      rfl
    · rw [List.filter_cons_of_neg (by decide), hdrop, List.take_append_drop]
  have hmarks : ['e', '+'].filter Char.isDigit = [] := rfl
  unfold printScientific
  dsimp only
  rw [List.filter_append, List.filter_append, hparts, hmarks, filter_decimalDigits, List.append_nil]
  rfl

/-- The digits of a number that is written out. -/
theorem filter_printPositional (d : Decimal) :
    (printPositional d).filter Char.isDigit =
      if 0 ≤ d.exponent then decimalDigits d.digits ++ List.replicate d.exponent.toNat '0'
      else if 0 < d.point then decimalDigits d.digits
      else '0' :: List.replicate (-d.point).toNat '0' ++ decimalDigits d.digits := by
  have hzeros : ∀ n, (List.replicate n '0').filter Char.isDigit = List.replicate n '0' := fun n =>
    List.filter_eq_self.2 fun c hc => by rw [List.eq_of_mem_replicate hc]; rfl
  unfold printPositional
  dsimp only
  split
  · rw [List.filter_append, filter_decimalDigits, hzeros]
  · rw [← Decimal.size, ← Decimal.point]
    split
    · rw [List.filter_append, List.filter_cons_of_neg (by decide), ← List.filter_append,
        List.take_append_drop, filter_decimalDigits]
    · rw [List.filter_append, filter_decimalDigits, List.filter_cons_of_pos (by decide),
        List.filter_cons_of_neg (by decide), hzeros]

/-- Numbers with as many digits at one place are written alike only if they are the same. -/
theorem printScientific_inj (hsize : d.size = d'.size) (hexp : d.exponent = d'.exponent)
    (h : printScientific d = printScientific d') : d = d' := by
  have hfilter := congrArg (List.filter Char.isDigit) h
  rw [filter_printScientific, filter_printScientific, hsize, hexp] at hfilter
  have hdigits := decimalDigits_injective (List.append_cancel_right hfilter)
  cases d
  cases d'
  simp_all

/-- Decimals of one size and exponent are printed in different ways. -/
theorem printPositional_inj (hsize : d.size = d'.size) (hexp : d.exponent = d'.exponent)
    (h : printPositional d = printPositional d') : d = d' := by
  have hfilter := congrArg (List.filter Char.isDigit) h
  rw [filter_printPositional, filter_printPositional, Decimal.point, Decimal.point, hsize, hexp]
    at hfilter
  have hdigits : d.digits = d'.digits := by
    split at hfilter
    · exact decimalDigits_injective (List.append_cancel_right hfilter)
    · split at hfilter
      · exact decimalDigits_injective hfilter
      · exact decimalDigits_injective (List.append_cancel_left hfilter)
  cases d
  cases d'
  simp_all

/-- Without an exponent there is no `e`. -/
theorem not_mem_printPositional (d : Decimal) : 'e' ∉ printPositional d := by
  have hdigits : ∀ n, 'e' ∉ decimalDigits n := fun n hmem =>
    absurd (isDigit_of_mem_decimalDigits hmem) (by decide)
  have htake : ∀ n k, 'e' ∉ (decimalDigits n).take k := fun n k hmem =>
    hdigits n (List.mem_of_mem_take hmem)
  have hdrop : ∀ n k, 'e' ∉ (decimalDigits n).drop k := fun n k hmem =>
    hdigits n (List.mem_of_mem_drop hmem)
  unfold printPositional
  dsimp only
  split
  · simp [hdigits]
  · split
    · simp [htake, hdrop]
    · simp [hdigits]

/-! ## What is printed -/

/-- The quotient of a value is at least the bound exactly if the value is. -/
theorem exponentFrom_le_iff (m : ℕ) (e : ℤ) :
    exponentFrom * (dyadic m e).den ≤ (dyadic m e).num ↔ 10 ^ 21 ≤ value m e := by
  rw [← dyadic_value, Ratio.value, le_div_iff₀ (by exact_mod_cast dyadic_den_pos m e)]
  exact_mod_cast Iff.rfl

/-- The quotient of a whole number has no rest. -/
theorem num_mod_den_iff (m : ℕ) (e : ℤ) :
    (dyadic m e).num % (dyadic m e).den = 0 ↔ ∃ n : ℕ, value m e = n := by
  have hden : ((dyadic m e).den : ℚ) ≠ 0 := by exact_mod_cast (dyadic_den_pos m e).ne'
  rw [← Nat.dvd_iff_mod_eq_zero, ← dyadic_value, Ratio.value]
  constructor
  · rintro ⟨n, hn⟩
    exact ⟨n, by rw [hn]; push_cast; field_simp⟩
  · rintro ⟨n, hn⟩
    rw [div_eq_iff hden] at hn
    exact ⟨n, by rw [mul_comm]; exact_mod_cast hn⟩

/-- From 10²¹ on, numbers are printed with an exponent. -/
theorem printMagnitude_of_large (h : ¬value m e < 10 ^ 21) :
    printMagnitude m e = printScientific (shortest m e) :=
  if_pos ((exponentFrom_le_iff m e).2 (not_lt.1 h))

/-- Whole numbers below that are printed as their digits. -/
theorem printMagnitude_of_whole (h : value m e < 10 ^ 21) {n : ℕ} (hn : value m e = n) :
    printMagnitude m e = decimalDigits n := by
  have hdiv : (dyadic m e).num / (dyadic m e).den = n := by
    have hden := dyadic_den_pos m e
    rw [← dyadic_value, Ratio.value, div_eq_iff (by exact_mod_cast hden.ne')] at hn
    have hnum : (dyadic m e).num = n * (dyadic m e).den := by exact_mod_cast hn
    rw [hnum, Nat.mul_div_cancel _ hden]
  rw [printMagnitude, if_neg (mt (exponentFrom_le_iff m e).1 (not_le.2 h)),
    if_pos ((num_mod_den_iff m e).2 ⟨n, hn⟩), hdiv]

/-- Other numbers below that are printed with a point. -/
theorem printMagnitude_of_fraction (h : value m e < 10 ^ 21) (hn : ¬∃ n : ℕ, value m e = n) :
    printMagnitude m e = printPositional (shortest m e) := by
  rw [printMagnitude, if_neg (mt (exponentFrom_le_iff m e).1 (not_le.2 h)),
    if_neg (mt (num_mod_den_iff m e).1 hn)]

/-- A script writes a whole number with all its digits if these are the digits that it chooses. -/
theorem decimalDigits_eq_numberText_iff {n : ℕ} (hn : n < 10 ^ 21) (hpos : 0 < d.digits)
    (hlast : d.digits % 10 ≠ 0) : decimalDigits n = numberText d ↔ d.value = n := by
  constructor
  · intro h
    have hmark : 'e' ∉ numberText d := fun hmem =>
      absurd (isDigit_of_mem_decimalDigits (h ▸ hmem)) (by decide)
    have hpoint := mt mem_numberText hmark
    rw [numberText_of_plain (by omega) (by omega)] at h
    by_cases hexp : 0 ≤ d.exponent
    · obtain ⟨k, hk⟩ := Int.eq_ofNat_of_zero_le hexp
      rw [printPositional, if_pos hexp, hk, Int.toNat_natCast, ← decimalDigits_mul_pow hpos] at h
      rw [decimalDigits_injective h, Decimal.value, hk, zpow_natCast]
      push_cast
      rfl
    · have hdot : '.' ∈ printPositional d := by
        rw [printPositional, if_neg hexp]
        split <;> simp
      exact absurd (isDigit_of_mem_decimalDigits (h ▸ hdot)) (by decide)
  · intro h
    have hexp : 0 ≤ d.exponent := by
      by_contra hneg
      -- Digits after the point would be zeros.
      obtain ⟨k, hk⟩ : ∃ k : ℕ, d.exponent = -((k + 1 : ℕ) : ℤ) :=
        ⟨(-d.exponent - 1).toNat, by omega⟩
      have hdigits : d.digits = n * 10 ^ (k + 1) := by
        rw [Decimal.value, hk, zpow_neg, zpow_natCast, ← div_eq_mul_inv,
          div_eq_iff (by positivity)] at h
        exact_mod_cast h
      rw [hdigits, pow_succ, ← mul_assoc, Nat.mul_mod_left] at hlast
      exact hlast rfl
    obtain ⟨k, hk⟩ := Int.eq_ofNat_of_zero_le hexp
    have hdigits : n = d.digits * 10 ^ k := by
      rw [Decimal.value, hk, zpow_natCast] at h
      exact_mod_cast h.symm
    have hpoint : d.point ≤ 21 := by
      have hlt : (10 : ℚ) ^ (d.point - 1) < 10 ^ (21 : ℤ) := by
        refine lt_of_le_of_lt (Decimal.point_bounds hpos).1 ?_
        rw [h]
        exact_mod_cast hn
      have := ten_zpow_lt_iff.1 hlt
      omega
    have hlow : -5 ≤ d.point := by
      rw [Decimal.point]
      omega
    rw [numberText_of_plain hlow hpoint, printPositional, if_pos hexp, hk, Int.toNat_natCast,
      ← decimalDigits_mul_pow hpos, ← hdigits]

/-- What is printed is what a script writes, but for the three cases. -/
theorem IsChosen.printMagnitude_eq_iff (h : IsCanonical m e) (hm : 0 < m) (hd : IsChosen m e d) :
    printMagnitude m e = numberText d ↔
      IsPlainWhole m e ∧ d.value = value m e ∨
        ¬IsPlainWhole m e ∧ -5 ≤ d.point ∧ ¬IsHalfway m e d := by
  have hpos := hd.rounds.digits_pos hm
  have hlast := hd.digits_mod_ten hm
  have hpoint := hd.point_le_iff hm
  -- The number that was found has the size and the place of the one that a script writes.
  have hsize := (hd.size_eq h hm).symm
  have hexp : (shortest m e).exponent = d.exponent := by
    rcases hd.eq_shortest_or h hm with rfl | ⟨heq, -⟩
    · rfl
    · rw [heq]
  by_cases hlarge : value m e < 10 ^ 21
  · by_cases hwhole : ∃ n : ℕ, value m e = n
    · obtain ⟨n, hn⟩ := hwhole
      have hplain : IsPlainWhole m e := ⟨hlarge, n, hn⟩
      have hlt : n < 10 ^ 21 := by
        rw [hn] at hlarge
        exact_mod_cast hlarge
      rw [printMagnitude_of_whole hlarge hn, decimalDigits_eq_numberText_iff hlt hpos hlast, hn]
      simp [hplain]
    · have hplain : ¬IsPlainWhole m e := fun h => hwhole h.2
      rw [printMagnitude_of_fraction hlarge hwhole, ← hd.eq_shortest_iff h hm]
      simp only [hplain, false_and, not_false_eq_true, true_and, false_or]
      constructor
      · intro htext
        have hlow : -5 ≤ d.point := by
          by_contra hlt
          have hmem := mem_numberText (.inl (not_le.1 hlt))
          rw [← htext] at hmem
          exact not_mem_printPositional _ hmem
        rw [numberText_of_plain hlow (hpoint.2 hlarge)] at htext
        exact ⟨hlow, (printPositional_inj hsize hexp htext).symm⟩
      · rintro ⟨hlow, heq⟩
        rw [numberText_of_plain hlow (hpoint.2 hlarge), ← heq]
  · have hplain : ¬IsPlainWhole m e := fun h => hlarge h.1
    have hbeyond : 21 < d.point := not_le.1 (mt hpoint.1 hlarge)
    rw [printMagnitude_of_large hlarge, numberText_of_large hbeyond, ← hd.eq_shortest_iff h hm]
    simp only [hplain, false_and, not_false_eq_true, true_and, false_or]
    constructor
    · intro htext
      exact ⟨by omega, (printScientific_inj hsize hexp htext).symm⟩
    · rintro ⟨-, heq⟩
      rw [← heq]

/-- A script gives a value no two texts. -/
theorem IsNumberText.unique {negative : Bool} {text text' : String} (h : IsCanonical m e)
    (ht : IsNumberText negative m e text) (ht' : IsNumberText negative m e text') :
    text = text' := by
  rcases ht with ⟨hzero, rfl⟩ | ⟨hm, d, hd, rfl⟩ <;>
    rcases ht' with ⟨hzero', rfl⟩ | ⟨hm', d', hd', rfl⟩
  · rfl
  · exact absurd hzero hm'.ne'
  · exact absurd hzero' hm.ne'
  · rw [hd.unique h hm hd']

/-- The text of a number in a template, next to the text that a script gives the number. Zero has
the same text in both. For each other value the rule of the language chooses one decimal number, and
the texts are the same exactly if either the value is a whole number below `10 ^ 21` and is that
decimal number, or it is none, that decimal number has at most five zeros before its digits, and the
value is not halfway to the next. -/
theorem inlined_number_text (negative : Bool) (h : IsCanonical m e) :
    (Syntax.Constant.number (finite negative m e)).attributeText =
        .quoted (print (finite negative m e)) ∧
      (m = 0 → IsNumberText negative m e (print (finite negative m e))) ∧
      (0 < m → ∃ d, IsChosen m e d ∧ (∀ d', IsChosen m e d' → d' = d) ∧
        (IsNumberText negative m e (print (finite negative m e)) ↔
          IsPlainWhole m e ∧ d.value = value m e ∨
            ¬IsPlainWhole m e ∧ -5 ≤ d.point ∧ ¬IsHalfway m e d)) := by
  refine ⟨rfl, fun hzero => ?_, fun hm => ?_⟩
  · rw [print, if_pos hzero]
    exact .inl ⟨hzero, rfl⟩
  · obtain ⟨d, hd⟩ := h.exists_isChosen hm
    refine ⟨d, hd, fun d' hd' => hd'.unique h hm hd, ?_⟩
    rw [← hd.printMagnitude_eq_iff h hm, print, if_neg hm.ne', IsNumberText]
    constructor
    · rintro (⟨hzero, -⟩ | ⟨-, d', hd', htext⟩)
      · exact absurd hzero hm.ne'
      · rw [hd'.unique h hm hd, String.ofList_inj, List.append_cancel_left_eq] at htext
        exact htext
    · intro htext
      exact .inr ⟨hm, d, hd, by rw [htext]⟩

/-- The value next to one tenth is written alike in both. -/
theorem inlined_number_text_tenth :
    IsCanonical 7205759403792794 (-56) ∧
      print (finite true 7205759403792794 (-56)) = "-0.1" ∧
      IsNumberText true 7205759403792794 (-56) (print (finite true 7205759403792794 (-56))) := by
  have h : IsCanonical 7205759403792794 (-56) := by decide
  have hm : 0 < 7205759403792794 := by decide
  have hfound : shortest 7205759403792794 (-56) = ⟨1, -1⟩ := by decide +kernel
  obtain ⟨-, -, hsome⟩ := inlined_number_text true h
  obtain ⟨d, hd, -, hiff⟩ := hsome hm
  have heq : d = shortest 7205759403792794 (-56) := by
    refine (hd.eq_shortest_or h hm).resolve_right fun htie => ?_
    have hdigits := congrArg Decimal.digits (hfound.symm.trans htie.1)
    have hpos := hd.rounds.digits_pos hm
    dsimp only at hdigits
    omega
  refine ⟨h, by decide +kernel, hiff.2 (.inr ⟨?_, ?_, (hd.eq_shortest_iff h hm).1 heq⟩)⟩
  · rintro ⟨-, n, hn⟩
    rw [value, zpow_neg, ← div_eq_mul_inv, div_eq_iff (by positivity)] at hn
    have hnat : 7205759403792794 = n * 2 ^ 56 := by exact_mod_cast hn
    omega
  · rw [heq, hfound]
    decide

/-- Three values, one for each case, whose text in a template is not the one that a script gives
them. -/
theorem inlined_number_text_differs :
    (print (finite false 7555786372591432 (-76)) = "0.0000001" ∧
        IsNumberText false 7555786372591432 (-76) "1e-7" ∧
        ¬IsNumberText false 7555786372591432 (-76) "0.0000001") ∧
      (print (finite false 4503599627370496 12) = "18446744073709551616" ∧
        IsNumberText false 4503599627370496 12 "18446744073709552000" ∧
        ¬IsNumberText false 4503599627370496 12 "18446744073709551616") ∧
      (print (finite false 4503599627370497 (-2)) = "1125899906842624.3" ∧
        IsNumberText false 4503599627370497 (-2) "1125899906842624.2" ∧
        ¬IsNumberText false 4503599627370497 (-2) "1125899906842624.3") := by
  -- The first is so small that an exponent is written.
  have hsmall : IsNumberText false 7555786372591432 (-76) "1e-7" := by
    have h : IsCanonical 7555786372591432 (-76) := by decide
    have hfound : shortest 7555786372591432 (-76) = ⟨0 + 1, -7⟩ := by decide +kernel
    obtain ⟨d, hd⟩ := h.exists_isChosen (by decide)
    refine .inr ⟨by decide, d, hd, ?_⟩
    rcases hd.eq_or_of_shortest h (by decide) hfound with rfl | ⟨rfl, -⟩
    · decide +kernel
    · exact absurd (hd.rounds.digits_pos (by decide)) (by decide)
  -- Behind the shortest digits of the second come zeros.
  have hlarge : IsNumberText false 4503599627370496 12 "18446744073709552000" := by
    have h : IsCanonical 4503599627370496 12 := by decide
    have hfound : shortest 4503599627370496 12 = ⟨18446744073709551 + 1, 3⟩ := by decide +kernel
    obtain ⟨d, hd⟩ := h.exists_isChosen (by decide)
    refine .inr ⟨by decide, d, hd, ?_⟩
    rcases hd.eq_or_of_shortest h (by decide) hfound with rfl | ⟨-, hhalf⟩
    · decide +kernel
    · norm_num [IsHalfway, value] at hhalf
  have htie : IsNumberText false 4503599627370497 (-2) "1125899906842624.2" := by
    have h : IsCanonical 4503599627370497 (-2) := by decide
    have hfound : shortest 4503599627370497 (-2) = ⟨11258999068426242 + 1, -1⟩ := by decide +kernel
    obtain ⟨d, hd⟩ := h.exists_isChosen (by decide)
    refine .inr ⟨by decide, d, hd, ?_⟩
    rcases hd.eq_or_of_shortest h (by decide) hfound with rfl | ⟨rfl, -⟩
    · -- The number before it rounds to the value and is as near, so that this one were even.
      have hround : RoundsTo (Decimal.value ⟨11258999068426242, -1⟩) 4503599627370497 (-2) := by
        rw [h.roundsTo_iff (by decide)]
        norm_num [Decimal.value, value, gapBelow, precision]
      have heven := hd.even _ hround (by decide +kernel) (by decide)
        (by norm_num [Decimal.value, value, abs])
      exact absurd heven (by decide)
    · decide +kernel
  refine ⟨⟨by decide +kernel, hsmall, fun h => ?_⟩, ⟨by decide +kernel, hlarge, fun h => ?_⟩,
    ⟨by decide +kernel, htie, fun h => ?_⟩⟩
  · exact absurd (h.unique (by decide) hsmall) (by decide)
  · exact absurd (h.unique (by decide) hlarge) (by decide)
  · exact absurd (h.unique (by decide) htie) (by decide)

end MarkupCompiler.Binary64
