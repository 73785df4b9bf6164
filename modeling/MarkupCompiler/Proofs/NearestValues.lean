import Mathlib
import MarkupCompiler.Number.Shortest

/-!
# Numbers that round to a value

A number rounds to the value that is nearest to it, and where two are equally near, to the one with
the even mantissa (`RoundsTo`). The search for digits asks instead whether a decimal number lies
between two ends (`readsBack`). The two agree: the next value above `mantissa * 2 ^ exponent` is
`2 ^ exponent` away (`IsCanonical.add_le_of_lt`), the next below as far or, below a power of two,
half as far (`IsCanonical.le_sub_of_lt`), and the ends are the points halfway to these two.
-/

namespace MarkupCompiler.Binary64

/-! ## Values -/

/-- The form in which each value has one mantissa and one exponent: the mantissa has as many bits as
fit, or fewer at the least exponent. The exponent is not bounded above, since rounding measures the
distance to the power of two after the last finite value as well. -/
structure IsCanonical (mantissa : ℕ) (exponent : ℤ) : Prop where
  mantissa_lt : mantissa < 2 ^ precision
  least_le : leastExponent ≤ exponent
  normal : 2 ^ (precision - 1) ≤ mantissa ∨ exponent = leastExponent

instance (mantissa : ℕ) (exponent : ℤ) : Decidable (IsCanonical mantissa exponent) :=
  decidable_of_iff (mantissa < 2 ^ precision ∧ leastExponent ≤ exponent ∧
      (2 ^ (precision - 1) ≤ mantissa ∨ exponent = leastExponent))
    ⟨fun h => ⟨h.1, h.2.1, h.2.2⟩, fun h => ⟨h.1, h.2, h.3⟩⟩

/-- The number `mantissa * 2 ^ exponent`. -/
def value (mantissa : ℕ) (exponent : ℤ) : ℚ := mantissa * 2 ^ exponent

/-- A number rounds to a value if no other value is nearer, and none as near unless the mantissa is
even. -/
def RoundsTo (x : ℚ) (mantissa : ℕ) (exponent : ℤ) : Prop :=
  ∀ m e, IsCanonical m e → value m e ≠ value mantissa exponent →
    |x - value mantissa exponent| < |x - value m e| ∨
      |x - value mantissa exponent| = |x - value m e| ∧ mantissa % 2 = 0

/-- The distance of a value to the next one below it. -/
def gapBelow (mantissa : ℕ) (exponent : ℤ) : ℚ :=
  if mantissa = 2 ^ (precision - 1) ∧ leastExponent < exponent then 2 ^ (exponent - 1)
  else 2 ^ exponent

variable {m m' : ℕ} {e e' : ℤ}

/-- Powers of two are positive. -/
theorem two_zpow_pos (e : ℤ) : (0 : ℚ) < 2 ^ e := by positivity

/-- A power of two is twice the one before it. -/
theorem two_zpow_eq (e : ℤ) : (2 : ℚ) ^ e = 2 * 2 ^ (e - 1) := by
  rw [zpow_sub_one₀ two_ne_zero]
  ring

/-- So is the bound of the significands. -/
theorem two_pow_precision : (2 : ℚ) ^ precision = 2 * 2 ^ (precision - 1) := by norm_num [precision]

/-- There is a gap below every value. -/
theorem gapBelow_pos (m : ℕ) (e : ℤ) : 0 < gapBelow m e := by
  unfold gapBelow
  split <;> positivity

/-- The gap below a value is at most the one above it. -/
theorem gapBelow_le (m : ℕ) (e : ℤ) : gapBelow m e ≤ 2 ^ e := by
  unfold gapBelow
  split
  · rw [two_zpow_eq e]
    linarith [two_zpow_pos (e - 1)]
  · exact le_rfl

/-- A value with a greater exponent is one with the smaller exponent and a greater mantissa. -/
theorem value_eq_of_le (m : ℕ) (h : e ≤ e') : value m e' = value (m * 2 ^ (e' - e).toNat) e := by
  obtain ⟨k, rfl⟩ := Int.le.dest h
  rw [value, value, zpow_add₀ two_ne_zero, add_sub_cancel_left, Int.toNat_natCast, zpow_natCast]
  push_cast
  ring

/-- Values with an exponent less are below the values with a full mantissa. -/
theorem IsCanonical.value_le_of_lt (h' : IsCanonical m' e') (hlt : e' < e) :
    value m' e' ≤ (2 ^ precision - 1) * 2 ^ (e - 1) := by
  have hm : (m' : ℚ) ≤ 2 ^ precision - 1 := by
    have := Nat.le_sub_one_of_lt h'.mantissa_lt
    rw [← Nat.cast_ofNat, ← Nat.cast_pow, ← Nat.cast_one, ← Nat.cast_sub Nat.one_le_two_pow]
    exact_mod_cast this
  have he : (2 : ℚ) ^ e' ≤ 2 ^ (e - 1) := zpow_le_zpow_right₀ one_le_two (by omega)
  exact mul_le_mul hm he (two_zpow_pos e').le (le_trans (Nat.cast_nonneg m') hm)

/-- The next value is a step of the exponent away. -/
theorem IsCanonical.add_le_of_lt (h : IsCanonical m e) (h' : IsCanonical m' e')
    (hlt : value m e < value m' e') : value m e + 2 ^ e ≤ value m' e' := by
  rcases le_or_gt e e' with hle | hgt
  · -- Both are multiples of the same step.
    rw [value_eq_of_le m' hle] at hlt ⊢
    have hm : m < m' * 2 ^ (e' - e).toNat := by
      exact_mod_cast lt_of_mul_lt_mul_right hlt (two_zpow_pos e).le
    have hm' : (m : ℚ) + 1 ≤ (m' * 2 ^ (e' - e).toNat : ℕ) := by exact_mod_cast hm
    calc value m e + 2 ^ e = ((m : ℚ) + 1) * 2 ^ e := by rw [value]; ring
      _ ≤ _ := mul_le_mul_of_nonneg_right hm' (two_zpow_pos e).le
  · -- A smaller exponent leaves the value below every normal one.
    have hnormal : 2 ^ (precision - 1) ≤ m := h.normal.resolve_right fun he => by
      have := h'.least_le
      omega
    have hm : (2 : ℚ) ^ (precision - 1) ≤ m := by exact_mod_cast hnormal
    have hv : 2 ^ (precision - 1) * 2 ^ e ≤ value m e :=
      mul_le_mul_of_nonneg_right hm (two_zpow_pos e).le
    have hv' := h'.value_le_of_lt hgt
    rw [two_zpow_eq e] at hv
    rw [two_pow_precision] at hv'
    linarith [two_zpow_pos (e - 1)]

/-- The value before is a gap away. -/
theorem IsCanonical.le_sub_of_lt (h : IsCanonical m e) (h' : IsCanonical m' e')
    (hlt : value m' e' < value m e) : value m' e' ≤ value m e - gapBelow m e := by
  rcases le_or_gt e e' with hle | hgt
  · -- Both are multiples of the same step, which is no less than the gap.
    have hgap := gapBelow_le m e
    rw [value_eq_of_le m' hle] at hlt ⊢
    have hm : m' * 2 ^ (e' - e).toNat < m := by
      exact_mod_cast lt_of_mul_lt_mul_right hlt (two_zpow_pos e).le
    have hm' : ((m' * 2 ^ (e' - e).toNat : ℕ) : ℚ) ≤ m - 1 := by
      rw [le_sub_iff_add_le]
      exact_mod_cast hm
    have hstep : value (m' * 2 ^ (e' - e).toNat) e ≤ (m - 1) * 2 ^ e :=
      mul_le_mul_of_nonneg_right hm' (two_zpow_pos e).le
    have hv : ((m : ℚ) - 1) * 2 ^ e = value m e - 2 ^ e := by rw [value]; ring
    linarith
  · have hleast : leastExponent < e := lt_of_le_of_lt h'.least_le hgt
    have hnormal : 2 ^ (precision - 1) ≤ m := h.normal.resolve_right hleast.ne'
    have hv' := h'.value_le_of_lt hgt
    have hpos := two_zpow_pos (e - 1)
    rw [two_pow_precision] at hv'
    -- Only below a power of two is the gap half a step.
    rcases eq_or_lt_of_le hnormal with heq | hlt
    · have hv : value m e = 2 ^ (precision - 1) * (2 * 2 ^ (e - 1)) := by
        rw [value, ← heq, two_zpow_eq e]
        push_cast
        rfl
      rw [gapBelow, if_pos ⟨heq.symm, hleast⟩]
      linarith
    · have hm : (2 : ℚ) ^ (precision - 1) + 1 ≤ m := by exact_mod_cast hlt
      have hv : (2 ^ (precision - 1) + 1) * 2 ^ e ≤ value m e :=
        mul_le_mul_of_nonneg_right hm (two_zpow_pos e).le
      have hgap := gapBelow_le m e
      rw [two_zpow_eq e] at hv hgap
      linarith

/-- There is a value a step of the exponent above each. -/
theorem IsCanonical.exists_next (h : IsCanonical m e) :
    ∃ m' e', IsCanonical m' e' ∧ value m' e' = value m e + 2 ^ e := by
  have hstep : value (m + 1) e = value m e + 2 ^ e := by
    rw [value, value]
    push_cast
    ring
  rcases lt_or_eq_of_le (Nat.succ_le_of_lt h.mantissa_lt) with hlt | heq
  · exact ⟨m + 1, e, ⟨hlt, h.least_le, h.normal.imp_left fun hm => by omega⟩, hstep⟩
  · -- The mantissa is full, and the next value is a power of two.
    refine ⟨2 ^ (precision - 1), e + 1, ⟨by decide, by have := h.least_le; omega, .inl le_rfl⟩, ?_⟩
    rw [← hstep, ← Nat.succ_eq_add_one, heq, value, value, zpow_add_one₀ two_ne_zero]
    simp only [precision]
    push_cast
    ring

/-- There is a value a gap below each that is not zero. -/
theorem IsCanonical.exists_previous (h : IsCanonical m e) (hm : 0 < m) :
    ∃ m' e', IsCanonical m' e' ∧ value m' e' = value m e - gapBelow m e := by
  unfold gapBelow
  split
  · rename_i hpower
    refine ⟨2 ^ precision - 1, e - 1, ⟨by decide, by have := hpower.2; omega, .inl (by decide)⟩, ?_⟩
    rw [value, value, hpower.1, two_zpow_eq e]
    simp only [precision]
    push_cast
    ring
  · rename_i hpower
    have hlt := h.mantissa_lt
    refine ⟨m - 1, e, ⟨by omega, h.least_le, ?_⟩, ?_⟩
    · rcases h.normal with hnormal | hleast
      · by_cases hle : leastExponent < e
        · have hne : m ≠ 2 ^ (precision - 1) := fun heq => hpower ⟨heq, hle⟩
          exact .inl (by omega)
        · exact .inr (le_antisymm (not_lt.1 hle) h.least_le)
      · exact .inr hleast
    · rw [value, value, Nat.cast_sub hm]
      push_cast
      ring

/-! ## Halfway points -/

/-- Of two points, the greater is the nearer one beyond the middle. -/
theorem abs_sub_lt_iff_of_lt {low high x : ℚ} (h : low < high) :
    |x - high| < |x - low| ↔ low + high < 2 * x := by
  constructor
  · intro hx
    rcases abs_cases (x - high) with ⟨h1, h1'⟩ | ⟨h1, h1'⟩ <;>
      rcases abs_cases (x - low) with ⟨h2, h2'⟩ | ⟨h2, h2'⟩ <;> linarith
  · intro hx
    rw [abs_of_pos (show 0 < x - low by linarith), abs_lt]
    constructor <;> linarith

/-- A number is nearer to the lower of two if it is below their middle. -/
theorem abs_sub_lt_iff_of_gt {low high x : ℚ} (h : low < high) :
    |x - low| < |x - high| ↔ 2 * x < low + high := by
  have hneg := abs_sub_lt_iff_of_lt (neg_lt_neg h) (x := -x)
  rw [← abs_neg (x - low), ← abs_neg (x - high)]
  constructor
  · intro hx
    have := hneg.1 (by convert hx using 2 <;> ring)
    linarith
  · intro hx
    have := hneg.2 (by linarith)
    convert this using 2 <;> ring

/-- A number is as near to one as to the other in the middle. -/
theorem abs_sub_eq_iff_of_lt {low high x : ℚ} (h : low < high) :
    |x - high| = |x - low| ↔ low + high = 2 * x := by
  have hlt := abs_sub_lt_iff_of_lt h (x := x)
  have hgt := abs_sub_lt_iff_of_gt h (x := x)
  constructor
  · intro hx
    have h1 := mt hlt.2 (not_lt.2 hx.ge)
    have h2 := mt hgt.2 (not_lt.2 hx.le)
    linarith
  · intro hx
    have h1 := mt hlt.1 (not_lt.2 hx.ge)
    have h2 := mt hgt.1 (not_lt.2 hx.le)
    linarith

/-- A number rounds to a value if it lies between the points halfway to the two values next to it,
or on one of them if the mantissa is even. -/
theorem IsCanonical.roundsTo_iff (h : IsCanonical m e) (hm : 0 < m) {x : ℚ} :
    RoundsTo x m e ↔
      (value m e - gapBelow m e / 2 < x ∧ x < value m e + 2 ^ e / 2) ∨
        m % 2 = 0 ∧ value m e - gapBelow m e / 2 ≤ x ∧ x ≤ value m e + 2 ^ e / 2 := by
  have hgap := gapBelow_pos m e
  have hstep := two_zpow_pos e
  constructor
  · intro hx
    -- It is enough to compare with the two neighbours: the midpoints to them are the limits.
    obtain ⟨mp, ep, hp, hpv⟩ := h.exists_previous hm
    obtain ⟨mn, en, hn, hnv⟩ := h.exists_next
    have hlow := hx mp ep hp (by rw [hpv]; linarith)
    have hhigh := hx mn en hn (by rw [hnv]; linarith)
    rw [hpv, abs_sub_lt_iff_of_lt (by linarith), abs_sub_eq_iff_of_lt (by linarith)] at hlow
    rw [hnv, abs_sub_lt_iff_of_gt (by linarith), eq_comm,
      abs_sub_eq_iff_of_lt (by linarith)] at hhigh
    rcases hlow with hlow | ⟨hlow, heven⟩ <;> rcases hhigh with hhigh | ⟨hhigh, heven'⟩
    · exact .inl ⟨by linarith, by linarith⟩
    · exact .inr ⟨heven', by linarith, by linarith⟩
    · exact .inr ⟨heven, by linarith, by linarith⟩
    · exact .inr ⟨heven, by linarith, by linarith⟩
  · -- Any other value is at least as far off as the neighbour on its side.
    intro hx m' e' h' hne
    rcases lt_or_gt_of_ne hne with hlt | hgt
    · rw [abs_sub_lt_iff_of_lt hlt, abs_sub_eq_iff_of_lt hlt]
      have hle := h.le_sub_of_lt h' hlt
      rcases hx with ⟨hx, -⟩ | ⟨heven, hx, -⟩
      · exact .inl (by linarith)
      · rcases lt_or_eq_of_le (show value m' e' + value m e ≤ 2 * x by linarith) with hx | hx
        · exact .inl hx
        · exact .inr ⟨hx, heven⟩
    · rw [abs_sub_lt_iff_of_gt hgt, eq_comm, abs_sub_eq_iff_of_lt hgt]
      have hle := h.add_le_of_lt h' hgt
      rcases hx with ⟨-, hx⟩ | ⟨heven, -, hx⟩
      · exact .inl (by linarith)
      · rcases lt_or_eq_of_le (show 2 * x ≤ value m e + value m' e' by linarith) with hx | hx
        · exact .inl hx
        · exact .inr ⟨hx.symm, heven⟩

/-- A number between a value and one that rounds to it rounds to it. -/
theorem IsCanonical.roundsTo_of_between (h : IsCanonical m e) (hm : 0 < m) {x y : ℚ}
    (hy : RoundsTo y m e)
    (hbetween : y ≤ x ∧ x ≤ value m e ∨ value m e ≤ x ∧ x ≤ y) : RoundsTo x m e := by
  have hgap := gapBelow_pos m e
  have hstep := two_zpow_pos e
  rw [h.roundsTo_iff hm] at hy ⊢
  rcases hy with ⟨hlow, hhigh⟩ | ⟨heven, hlow, hhigh⟩ <;> rcases hbetween with ⟨h1, h2⟩ | ⟨h1, h2⟩
  · exact .inl ⟨by linarith, by linarith⟩
  · exact .inl ⟨by linarith, by linarith⟩
  · exact .inr ⟨heven, by linarith, by linarith⟩
  · exact .inr ⟨heven, by linarith, by linarith⟩

/-! ## Quotients -/

/-- The number that a quotient stands for. -/
def Ratio.value (q : Ratio) : ℚ := q.num / q.den

/-- The number `digits * 10 ^ exponent`. -/
def Decimal.value (d : Decimal) : ℚ := d.digits * 10 ^ d.exponent

/-- Ratios are compared by their values. -/
theorem Ratio.blt_iff {a b : Ratio} (ha : 0 < a.den) (hb : 0 < b.den) :
    a.blt b = true ↔ a.value < b.value := by
  have ha' : (0 : ℚ) < a.den := by exact_mod_cast ha
  have hb' : (0 : ℚ) < b.den := by exact_mod_cast hb
  rw [blt, decide_eq_true_eq, value, value, div_lt_div_iff₀ ha' hb']
  exact_mod_cast Iff.rfl

/-- The ratio of a decimal has a denominator. -/
theorem Decimal.toRatio_den_pos (d : Decimal) : 0 < d.toRatio.den := by
  unfold toRatio
  split
  · exact Nat.one_pos
  · exact Nat.pow_pos (by decide)

/-- The ratio of a decimal has its value. -/
theorem Decimal.toRatio_value (d : Decimal) : d.toRatio.value = d.value := by
  unfold toRatio
  split
  · rename_i h
    obtain ⟨k, hk⟩ := Int.eq_ofNat_of_zero_le h
    rw [Ratio.value, Decimal.value, hk]
    simp
  · rename_i h
    obtain ⟨k, hk⟩ := Int.eq_ofNat_of_zero_le (show 0 ≤ -d.exponent by omega)
    have hexp : d.exponent = -(k : ℤ) := by omega
    rw [Ratio.value, Decimal.value, hexp]
    simp [div_eq_mul_inv]

/-- The ratio of a significand and an exponent has a denominator. -/
theorem dyadic_den_pos (m : ℕ) (e : ℤ) : 0 < (dyadic m e).den := by
  unfold dyadic
  split
  · exact Nat.one_pos
  · exact Nat.pow_pos (by decide)

/-- That ratio has their value. -/
theorem dyadic_value (m : ℕ) (e : ℤ) : (dyadic m e).value = value m e := by
  unfold dyadic
  split
  · rename_i h
    obtain ⟨k, rfl⟩ := Int.eq_ofNat_of_zero_le h
    rw [Ratio.value, value]
    simp
  · rename_i h
    obtain ⟨k, hk⟩ := Int.eq_ofNat_of_zero_le (show 0 ≤ -e by omega)
    obtain rfl : e = -(k : ℤ) := by omega
    rw [Ratio.value, value]
    simp [div_eq_mul_inv]

/-- The upper end is half a step above the value. -/
theorem upperEnd_value (m : ℕ) (e : ℤ) : (upperEnd m e).value = value m e + 2 ^ e / 2 := by
  rw [upperEnd, dyadic_value, value, value, two_zpow_eq e]
  push_cast
  ring

/-- The upper end has a denominator. -/
theorem upperEnd_den_pos (m : ℕ) (e : ℤ) : 0 < (upperEnd m e).den := dyadic_den_pos _ _

/-- The lower end is half the gap below the value. -/
theorem lowerEnd_value (hm : 0 < m) (e : ℤ) :
    (lowerEnd m e).value = value m e - gapBelow m e / 2 := by
  unfold lowerEnd gapBelow
  have hpow : Nat.pow 2 (precision - 1) = 2 ^ (precision - 1) := rfl
  rw [hpow]
  split
  · rw [dyadic_value, value, value, Nat.cast_sub (by omega), two_zpow_eq e, two_zpow_eq (e - 1),
      sub_sub, one_add_one_eq_two]
    push_cast
    ring
  · rw [dyadic_value, value, value, Nat.cast_sub (by omega), two_zpow_eq e]
    push_cast
    ring

/-- The lower end has a denominator. -/
theorem lowerEnd_den_pos (m : ℕ) (e : ℤ) : 0 < (lowerEnd m e).den := by
  unfold lowerEnd
  split <;> exact dyadic_den_pos _ _

/-- A decimal number reads back as a value exactly if it rounds to it. -/
theorem IsCanonical.readsBack_iff (h : IsCanonical m e) (hm : 0 < m) {d : Decimal} :
    readsBack m e d = true ↔ RoundsTo d.value m e := by
  have hlow : d.toRatio.blt (lowerEnd m e) = true ↔ d.value < value m e - gapBelow m e / 2 := by
    rw [Ratio.blt_iff d.toRatio_den_pos (lowerEnd_den_pos m e), d.toRatio_value, lowerEnd_value hm]
  have hlow' : (lowerEnd m e).blt d.toRatio = true ↔ value m e - gapBelow m e / 2 < d.value := by
    rw [Ratio.blt_iff (lowerEnd_den_pos m e) d.toRatio_den_pos, d.toRatio_value, lowerEnd_value hm]
  have hhigh : (upperEnd m e).blt d.toRatio = true ↔ value m e + 2 ^ e / 2 < d.value := by
    rw [Ratio.blt_iff (upperEnd_den_pos m e) d.toRatio_den_pos, d.toRatio_value, upperEnd_value]
  have hhigh' : d.toRatio.blt (upperEnd m e) = true ↔ d.value < value m e + 2 ^ e / 2 := by
    rw [Ratio.blt_iff d.toRatio_den_pos (upperEnd_den_pos m e), d.toRatio_value, upperEnd_value]
  rw [h.roundsTo_iff hm, readsBack]
  split
  · rename_i heven
    simp only [Bool.and_eq_true, Bool.not_eq_true', ← Bool.not_eq_true, hlow, hhigh, not_lt]
    constructor
    · rintro ⟨h1, h2⟩
      exact .inr ⟨heven, h1, h2⟩
    · rintro (⟨h1, h2⟩ | ⟨-, h1, h2⟩)
      · exact ⟨h1.le, h2.le⟩
      · exact ⟨h1, h2⟩
  · rename_i hodd
    simp only [Bool.and_eq_true, hlow', hhigh']
    constructor
    · exact .inl
    · rintro (h | ⟨heven, -⟩)
      · exact h
      · exact absurd heven hodd

end MarkupCompiler.Binary64
