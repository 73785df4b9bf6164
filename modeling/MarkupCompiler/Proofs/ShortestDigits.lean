import Mathlib
import MarkupCompiler.Number.Printed
import MarkupCompiler.Proofs.NearestValues

/-!
# The digits that are found are the fewest and the nearest

For each number of digits the search looks at the two neighbours of a value on a decimal grid only.
That is enough: a number with so many digits on either side of the value is no nearer to it than the
neighbour on that side (`Fits.le_below`, `Fits.above_le`), and numbers between the value and one
that rounds to it round to it as well. So if one with so many digits rounds to the value, a
neighbour does (`beyond_neighbour`), and the neighbour that is taken is the nearest
(`withDigits?_eq_some`). With seventeen digits the grid is finer than the values
(`roundsTo_seventeen`), so the search ends (`shortest_spec`).
-/

namespace MarkupCompiler.Binary64

variable {m : ℕ} {e : ℤ}

/-! ## Digits and powers of ten -/

/-- Powers of ten are positive. -/
theorem ten_zpow_pos (n : ℤ) : (0 : ℚ) < 10 ^ n := by positivity

/-- Powers of ten grow with the exponent. -/
theorem ten_zpow_lt_iff {a b : ℤ} : (10 : ℚ) ^ a < 10 ^ b ↔ a < b :=
  zpow_lt_zpow_iff_right₀ (by norm_num)

/-- Powers of ten are ordered by the exponent. -/
theorem ten_zpow_le_iff {a b : ℤ} : (10 : ℚ) ^ a ≤ 10 ^ b ↔ a ≤ b :=
  zpow_le_zpow_iff_right₀ (by norm_num)

/-- The number of digits of a decimal number, without regard to its exponent. -/
def Decimal.size (d : Decimal) : ℕ := (decimalDigits d.digits).length

/-- The number of digits tells between which powers of ten a number is. -/
theorem length_decimalDigits_iff {n k : ℕ} (hn : 0 < n) (hk : 0 < k) :
    (decimalDigits n).length = k ↔ 10 ^ (k - 1) ≤ n ∧ n < 10 ^ k := by
  have hle : (decimalDigits n).length ≤ k ↔ n < 10 ^ k := Nat.length_toDigits_le_iff (by decide) hk
  rcases Nat.eq_or_lt_of_le (Nat.succ_le_of_lt hk) with rfl | hk1
  · have hpos : 0 < (decimalDigits n).length := Nat.length_toDigits_pos
    simp only [Nat.sub_self, pow_zero]
    omega
  · have hle' : (decimalDigits n).length ≤ k - 1 ↔ n < 10 ^ (k - 1) :=
      Nat.length_toDigits_le_iff (by decide) (by omega)
    omega

/-- A decimal has a digit. -/
theorem Decimal.size_pos (d : Decimal) : 0 < d.size := Nat.length_toDigits_pos

variable {d : Decimal} {count : ℕ} {x : ℚ}

/-- A decimal with digits other than zero is positive. -/
theorem Decimal.value_pos (h : 0 < d.digits) : 0 < d.value :=
  mul_pos (by exact_mod_cast h) (ten_zpow_pos _)

/-- A decimal number lies between the powers of ten that its size gives. -/
theorem Decimal.value_bounds (h : 0 < d.digits) :
    10 ^ (d.exponent + d.size - 1) ≤ d.value ∧ d.value < 10 ^ (d.exponent + d.size) := by
  obtain ⟨hlow, hhigh⟩ := (length_decimalDigits_iff h d.size_pos).1 rfl
  have hpow : ∀ k : ℕ, (10 : ℚ) ^ (d.exponent + k) = (10 ^ k : ℕ) * 10 ^ d.exponent := fun k => by
    rw [zpow_add₀ (by norm_num), zpow_natCast, mul_comm]
    push_cast
    rfl
  have hsize : d.exponent + d.size - 1 = d.exponent + (d.size - 1 : ℕ) := by
    have := d.size_pos
    omega
  rw [hsize, hpow, hpow, Decimal.value]
  exact ⟨mul_le_mul_of_nonneg_right (by exact_mod_cast hlow) (ten_zpow_pos _).le,
    mul_lt_mul_of_pos_right (by exact_mod_cast hhigh) (ten_zpow_pos _)⟩

/-! ## The grid -/

/-- The whole part of a quotient is at most the quotient, and less than one below it. -/
theorem natDiv_bounds (a : ℕ) {b : ℕ} (hb : 0 < b) :
    ((a / b : ℕ) : ℚ) ≤ a / b ∧ (a : ℚ) / b < ((a / b : ℕ) : ℚ) + 1 := by
  refine ⟨Nat.cast_div_le, ?_⟩
  rw [div_lt_iff₀ (by exact_mod_cast hb)]
  exact_mod_cast (Nat.div_lt_iff_lt_mul hb).1 (Nat.lt_succ_self (a / b))

/-- A quotient of at least one lies between the powers of ten that the digits of its whole part
give. -/
theorem length_natDiv_bounds {a b : ℕ} (hb : 0 < b) (hle : b ≤ a) :
    (10 : ℚ) ^ (((decimalDigits (a / b)).length : ℤ) - 1) ≤ a / b ∧
      (a : ℚ) / b < 10 ^ ((decimalDigits (a / b)).length : ℤ) := by
  have hlength : 0 < (decimalDigits (a / b)).length := Nat.length_toDigits_pos
  obtain ⟨hlow, hhigh⟩ := (length_decimalDigits_iff (Nat.div_pos hle hb) hlength).1 rfl
  obtain ⟨hfloor, hceil⟩ := natDiv_bounds a hb
  have hsub : ((decimalDigits (a / b)).length : ℤ) - 1 =
      ((decimalDigits (a / b)).length - 1 : ℕ) := by
    omega
  rw [hsub, zpow_natCast, zpow_natCast]
  constructor
  · exact le_trans (by exact_mod_cast hlow) hfloor
  · refine lt_of_lt_of_le hceil ?_
    exact_mod_cast hhigh

/-- A positive quotient lies between two neighbouring powers of ten. -/
theorem decimalSize_spec {q : Ratio} (hnum : 0 < q.num) (hden : 0 < q.den) :
    10 ^ (decimalSize q - 1) ≤ q.value ∧ q.value < 10 ^ decimalSize q := by
  unfold decimalSize
  split
  · rename_i hle
    exact length_natDiv_bounds hden hle
  · rename_i hlt
    -- Below one, the powers of ten are those around the reciprocal.
    obtain ⟨hlow, hhigh⟩ := length_natDiv_bounds hnum (le_of_not_ge hlt)
    have hinv : q.value = ((q.den : ℚ) / q.num)⁻¹ := by rw [Ratio.value, inv_div]
    have hpos : (0 : ℚ) < q.den / q.num := div_pos (by exact_mod_cast hden) (by exact_mod_cast hnum)
    have hbelow : q.value ≤ 10 ^ (1 - ((decimalDigits (q.den / q.num)).length : ℤ)) := by
      rw [hinv, ← neg_sub, zpow_neg]
      exact inv_anti₀ (ten_zpow_pos _) hlow
    have habove : 10 ^ (-((decimalDigits (q.den / q.num)).length : ℤ)) < q.value := by
      rw [hinv, zpow_neg]
      exact (inv_lt_inv₀ (ten_zpow_pos _) hpos).2 hhigh
    have hlength : 0 < (decimalDigits (q.den / q.num)).length := Nat.length_toDigits_pos
    simp only [decimalDigits] at hbelow habove hlength
    generalize (Nat.toDigits 10 (q.den / q.num)).length = n at *
    have hpow : q.den ≤ q.num * Nat.pow 10 (n - 1) ↔ 10 ^ (1 - (n : ℤ)) ≤ q.value := by
      have hsub : 1 - (n : ℤ) = -((n - 1 : ℕ) : ℤ) := by omega
      rw [hsub, zpow_neg, zpow_natCast, Ratio.value, inv_eq_one_div,
        div_le_div_iff₀ (by positivity) (by exact_mod_cast hden), one_mul]
      exact_mod_cast Iff.rfl
    dsimp only
    split
    · rename_i hexact
      have hexp : 1 - ((n : ℤ) - 1) - 1 = 1 - n := by omega
      rw [hexp]
      exact ⟨hpow.1 hexact, lt_of_le_of_lt hbelow (ten_zpow_lt_iff.2 (by omega))⟩
    · rename_i hexact
      have hexp : 1 - (n : ℤ) - 1 = -n := by omega
      rw [hexp]
      exact ⟨habove.le, not_le.1 (mt hpow.2 hexact)⟩

/-- A quotient lies between a point of the grid and the next one. -/
theorem gridBelow_spec {q : Ratio} (hden : 0 < q.den) (unit : ℤ) :
    (gridBelow q unit : ℚ) * 10 ^ unit ≤ q.value ∧
      q.value < ((gridBelow q unit : ℚ) + 1) * 10 ^ unit := by
  have hten : (0 : ℚ) < 10 ^ unit := ten_zpow_pos unit
  rw [← le_div_iff₀ hten, ← div_lt_iff₀ hten]
  unfold gridBelow
  split
  · rename_i h
    obtain ⟨k, rfl⟩ := Int.eq_ofNat_of_zero_le h
    have hq : q.value / 10 ^ (k : ℤ) = q.num / (q.den * Nat.pow 10 k : ℕ) := by
      rw [Ratio.value, zpow_natCast, div_div]
      push_cast [Nat.pow_eq]
      rfl
    rw [hq]
    exact natDiv_bounds q.num (Nat.mul_pos hden (Nat.pow_pos (by decide)))
  · rename_i h
    obtain ⟨k, hk⟩ := Int.eq_ofNat_of_zero_le (show 0 ≤ -unit by omega)
    obtain rfl : unit = -(k : ℤ) := by omega
    have hq : q.value / 10 ^ (-(k : ℤ)) = (q.num * Nat.pow 10 k : ℕ) / q.den := by
      rw [Ratio.value, zpow_neg, zpow_natCast, div_inv_eq_mul, div_mul_eq_mul_div]
      push_cast [Nat.pow_eq]
      rfl
    rw [hq, neg_neg]
    exact natDiv_bounds _ hden

/-! ## Neighbours of a value -/

/-- The point of the grid of so many digits at or just below a value. -/
def below (m : ℕ) (e : ℤ) (count : ℕ) : Decimal :=
  ⟨gridBelow (dyadic m e) (decimalSize (dyadic m e) - count), decimalSize (dyadic m e) - count⟩

/-- The point of the grid of so many digits just above a value. -/
def above (m : ℕ) (e : ℤ) (count : ℕ) : Decimal :=
  ⟨(below m e count).digits + 1, (below m e count).exponent⟩

/-- A number that can be written with so many digits. -/
def Fits (count : ℕ) (x : ℚ) : Prop := ∃ d : Decimal, d.digits < 10 ^ count ∧ d.value = x

/-- A value with a positive significand is positive. -/
theorem value_pos (hm : 0 < m) : 0 < value m e := mul_pos (by exact_mod_cast hm) (two_zpow_pos e)

/-- The powers of ten around a value. -/
theorem decimalSize_dyadic (hm : 0 < m) :
    10 ^ (decimalSize (dyadic m e) - 1) ≤ value m e ∧
      value m e < 10 ^ decimalSize (dyadic m e) := by
  have hnum : 0 < (dyadic m e).num := by
    unfold dyadic
    split
    · exact Nat.mul_pos hm (Nat.pow_pos (by decide))
    · exact hm
  rw [← dyadic_value]
  exact decimalSize_spec hnum (dyadic_den_pos m e)

/-- A value lies between its neighbours. -/
theorem value_between (m : ℕ) (e : ℤ) (count : ℕ) :
    (below m e count).value ≤ value m e ∧ value m e < (above m e count).value := by
  have h := gridBelow_spec (dyadic_den_pos m e) (decimalSize (dyadic m e) - count)
  rw [dyadic_value] at h
  refine ⟨h.1, ?_⟩
  rw [Decimal.value, above]
  push_cast
  exact h.2

/-- The decimal above is one step from the one below. -/
theorem above_value (m : ℕ) (e : ℤ) (count : ℕ) :
    (above m e count).value = (below m e count).value + 10 ^ (below m e count).exponent := by
  rw [Decimal.value, Decimal.value, above]
  push_cast
  ring

/-- The neighbour below has just so many digits. -/
theorem below_digits (hm : 0 < m) (hcount : 0 < count) :
    10 ^ (count - 1) ≤ (below m e count).digits ∧ (below m e count).digits < 10 ^ count := by
  obtain ⟨hlow, hhigh⟩ := decimalSize_dyadic (e := e) hm
  obtain ⟨hbelow, habove⟩ := value_between m e count
  have hten := ten_zpow_pos (decimalSize (dyadic m e) - count)
  have hpow : ∀ k : ℕ, (10 : ℚ) ^ (decimalSize (dyadic m e) - count + k) =
      (10 ^ k : ℕ) * 10 ^ (decimalSize (dyadic m e) - count) := fun k => by
    rw [zpow_add₀ (by norm_num), zpow_natCast, mul_comm]
    push_cast
    rfl
  have hlow' : decimalSize (dyadic m e) - 1 =
      decimalSize (dyadic m e) - count + (count - 1 : ℕ) := by
    omega
  have hhigh' : decimalSize (dyadic m e) = decimalSize (dyadic m e) - count + (count : ℕ) := by
    omega
  rw [hlow', hpow] at hlow
  rw [hhigh', hpow] at hhigh
  constructor
  · have h := lt_of_mul_lt_mul_right (lt_of_le_of_lt hlow habove) hten.le
    exact Nat.le_of_lt_succ (by exact_mod_cast h)
  · have h := lt_of_mul_lt_mul_right (lt_of_le_of_lt hbelow hhigh) hten.le
    exact_mod_cast h

/-- A multiple of a power of ten is a multiple of each smaller one. -/
theorem Decimal.exists_multiple {unit : ℤ} (h : unit ≤ d.exponent) :
    ∃ k : ℕ, d.value = k * 10 ^ unit := by
  obtain ⟨j, hj⟩ := Int.le.dest h
  refine ⟨d.digits * 10 ^ j, ?_⟩
  rw [Decimal.value, ← hj, zpow_add₀ (by norm_num), zpow_natCast]
  push_cast
  ring

/-- A number with so many digits is a multiple of the grid, or below the value and all the grid
around it. -/
theorem Fits.cases (hm : 0 < m) (hcount : 0 < count) (h : Fits count x) :
    (∃ k : ℕ, x = k * 10 ^ (below m e count).exponent) ∨ x < (below m e count).value := by
  obtain ⟨d, hd, rfl⟩ := h
  rcases le_or_gt (below m e count).exponent d.exponent with hle | hlt
  · exact .inl (Decimal.exists_multiple hle)
  · right
    have hbelow : ((10 : ℚ) ^ (count - 1)) * 10 ^ (below m e count).exponent ≤
        (below m e count).value :=
      mul_le_mul_of_nonneg_right (by exact_mod_cast (below_digits hm hcount).1)
        (ten_zpow_pos _).le
    have hstep : (10 : ℚ) ^ count * 10 ^ d.exponent ≤
        10 ^ (count - 1) * 10 ^ (below m e count).exponent := by
      rw [← zpow_natCast, ← zpow_natCast, ← zpow_add₀ (by norm_num), ← zpow_add₀ (by norm_num),
        ten_zpow_le_iff]
      omega
    have hvalue : d.value < (10 : ℚ) ^ count * 10 ^ d.exponent :=
      mul_lt_mul_of_pos_right (by exact_mod_cast hd) (ten_zpow_pos _)
    linarith

/-- No number with so many digits lies between the neighbour below and the value. -/
theorem Fits.le_below (hm : 0 < m) (hcount : 0 < count) (h : Fits count x) (hx : x ≤ value m e) :
    x ≤ (below m e count).value := by
  rcases h.cases (e := e) hm hcount with ⟨k, rfl⟩ | hlt
  · have hk := lt_of_le_of_lt hx (value_between m e count).2
    have hk' : k < (below m e count).digits + 1 := by
      exact_mod_cast lt_of_mul_lt_mul_right hk (ten_zpow_pos _).le
    exact mul_le_mul_of_nonneg_right (by exact_mod_cast Nat.le_of_lt_succ hk') (ten_zpow_pos _).le
  · exact hlt.le

/-- No number with so many digits lies between the value and the neighbour above. -/
theorem Fits.above_le (hm : 0 < m) (hcount : 0 < count) (h : Fits count x) (hx : value m e < x) :
    (above m e count).value ≤ x := by
  have hbelow := (value_between m e count).1
  rcases h.cases (e := e) hm hcount with ⟨k, rfl⟩ | hlt
  · have hk : (below m e count).digits < k := by
      exact_mod_cast lt_of_mul_lt_mul_right (lt_of_le_of_lt hbelow hx) (ten_zpow_pos _).le
    exact mul_le_mul_of_nonneg_right (by exact_mod_cast Nat.succ_le_of_lt hk) (ten_zpow_pos _).le
  · linarith

/-- The neighbours have so many digits, or are a power of ten. -/
theorem fits_below (hm : 0 < m) (hcount : 0 < count) : Fits count (below m e count).value :=
  ⟨_, (below_digits hm hcount).2, rfl⟩

/-- The decimal above fits into the digits, too. -/
theorem fits_above (hm : 0 < m) (hcount : 0 < count) : Fits count (above m e count).value := by
  rcases lt_or_eq_of_le (Nat.succ_le_of_lt (below_digits (e := e) hm hcount).2) with hlt | heq
  · exact ⟨above m e count, hlt, rfl⟩
  · refine ⟨⟨1, (below m e count).exponent + count⟩, Nat.one_lt_pow hcount.ne' (by decide), ?_⟩
    have hdigits : (above m e count).digits = 10 ^ count := heq
    rw [Decimal.value, Decimal.value, hdigits, zpow_add₀ (by norm_num), zpow_natCast]
    simp only [above]
    push_cast
    ring

/-! ## The nearest neighbour -/

/-- The nearest to a value of the numbers with so many digits that round to it. Of two that are
equally near it is the greater. -/
structure IsNearest (m : ℕ) (e : ℤ) (count : ℕ) (x : ℚ) : Prop where
  fits : Fits count x
  rounds : RoundsTo x m e
  nearest : ∀ y, Fits count y → RoundsTo y m e → |x - value m e| ≤ |y - value m e|
  greatest : ∀ y, Fits count y → RoundsTo y m e → |y - value m e| = |x - value m e| → y ≤ x

/-- A number with so many digits that rounds to a value is beyond a neighbour that does. -/
theorem IsCanonical.beyond_neighbour (h : IsCanonical m e) (hm : 0 < m) (hcount : 0 < count)
    (hx : Fits count x) (hround : RoundsTo x m e) :
    (x ≤ (below m e count).value ∧ RoundsTo (below m e count).value m e) ∨
      (above m e count).value ≤ x ∧ RoundsTo (above m e count).value m e := by
  obtain ⟨hbelow, habove⟩ := value_between m e count
  rcases le_or_gt x (value m e) with hle | hgt
  · have hx' := hx.le_below hm hcount hle
    exact .inl ⟨hx', h.roundsTo_of_between hm hround (.inl ⟨hx', hbelow⟩)⟩
  · have hx' := hx.above_le hm hcount hgt
    exact .inr ⟨hx', h.roundsTo_of_between hm hround (.inr ⟨habove.le, hx'⟩)⟩

/-- The decimal above is taken if it is at least as near. -/
theorem roundsUp_iff (m : ℕ) (e : ℤ) (count : ℕ) :
    roundsUp (dyadic m e) (below m e count) = true ↔
      (above m e count).value - value m e ≤ value m e - (below m e count).value := by
  have hmiddle : Decimal.value ⟨10 * (below m e count).digits + 5, (below m e count).exponent - 1⟩ =
      ((below m e count).value + (above m e count).value) / 2 := by
    rw [above_value, Decimal.value, Decimal.value, zpow_sub_one₀ (by norm_num)]
    push_cast
    ring
  rw [roundsUp, Bool.not_eq_true', ← Bool.not_eq_true,
    Ratio.blt_iff (dyadic_den_pos m e) (Decimal.toRatio_den_pos _), Decimal.toRatio_value,
    dyadic_value, hmiddle, not_lt]
  constructor <;> intro h <;> linarith

/-- Of the decimals above and below, one that reads back is taken. -/
theorem withDigits?_eq (m : ℕ) (e : ℤ) (count : ℕ) :
    withDigits? m e count =
      match readsBack m e (below m e count), readsBack m e (above m e count) with
      | true, true => some (if roundsUp (dyadic m e) (below m e count) then above m e count
          else below m e count)
      | true, false => some (below m e count)
      | false, true => some (above m e count)
      | false, false => none := rfl

/-- The neighbour below is the nearest if it rounds to the value and the one above does not, or is
farther. -/
theorem IsCanonical.isNearest_below (h : IsCanonical m e) (hm : 0 < m) (hcount : 0 < count)
    (hround : RoundsTo (below m e count).value m e) (hnear : RoundsTo (above m e count).value m e →
      value m e - (below m e count).value < (above m e count).value - value m e) :
    IsNearest m e count (below m e count).value := by
  obtain ⟨hbelow, habove⟩ := value_between m e count
  have hdist : |(below m e count).value - value m e| = value m e - (below m e count).value := by
    rw [abs_sub_comm, abs_of_nonneg (by linarith)]
  refine ⟨fits_below hm hcount, hround, fun y hy hy' => ?_, fun y hy hy' heq => ?_⟩
  · rw [hdist]
    rcases h.beyond_neighbour hm hcount hy hy' with ⟨hle, -⟩ | ⟨hle, hround'⟩
    · exact le_trans (by linarith) (neg_le_abs (y - value m e))
    · exact le_trans (by linarith [hnear hround']) (le_abs_self (y - value m e))
  · rcases h.beyond_neighbour hm hcount hy hy' with ⟨hle, -⟩ | ⟨hle, hround'⟩
    · exact hle
    · -- Beyond the neighbour above the distance is greater.
      rw [hdist] at heq
      linarith [hnear hround', le_abs_self (y - value m e)]

/-- The neighbour above is the nearest if it rounds to the value and the one below does not, or is
no nearer. -/
theorem IsCanonical.isNearest_above (h : IsCanonical m e) (hm : 0 < m) (hcount : 0 < count)
    (hround : RoundsTo (above m e count).value m e) (hnear : RoundsTo (below m e count).value m e →
      (above m e count).value - value m e ≤ value m e - (below m e count).value) :
    IsNearest m e count (above m e count).value := by
  obtain ⟨hbelow, habove⟩ := value_between m e count
  have hdist : |(above m e count).value - value m e| = (above m e count).value - value m e :=
    abs_of_pos (by linarith)
  refine ⟨fits_above hm hcount, hround, fun y hy hy' => ?_, fun y hy hy' heq => ?_⟩
  · rw [hdist]
    rcases h.beyond_neighbour hm hcount hy hy' with ⟨hle, hround'⟩ | ⟨hle, -⟩
    · exact le_trans (by linarith [hnear hround']) (neg_le_abs (y - value m e))
    · exact le_trans (by linarith) (le_abs_self (y - value m e))
  · rw [hdist] at heq
    linarith [le_abs_self (y - value m e)]

/-- What is found with so many digits is the nearest. -/
theorem IsCanonical.withDigits?_eq_some (h : IsCanonical m e) (hm : 0 < m) (hcount : 0 < count)
    (hd : withDigits? m e count = some d) :
    (d = below m e count ∨ d = above m e count) ∧ IsNearest m e count d.value := by
  rw [withDigits?_eq] at hd
  cases hbelow : readsBack m e (below m e count) <;>
    cases habove : readsBack m e (above m e count) <;> rw [hbelow, habove] at hd
  case false.false => cases hd
  case false.true =>
    have hnot := mt (h.readsBack_iff hm).2 (Bool.eq_false_iff.1 hbelow)
    cases hd
    exact ⟨.inr rfl, h.isNearest_above hm hcount ((h.readsBack_iff hm).1 habove)
      fun hround => absurd hround hnot⟩
  case true.false =>
    have hnot := mt (h.readsBack_iff hm).2 (Bool.eq_false_iff.1 habove)
    cases hd
    exact ⟨.inl rfl, h.isNearest_below hm hcount ((h.readsBack_iff hm).1 hbelow)
      fun hround => absurd hround hnot⟩
  case true.true =>
    -- With both neighbours to choose from, the nearer one is found.
    by_cases hup : roundsUp (dyadic m e) (below m e count) = true
    · obtain rfl : above m e count = d := by simpa [hup] using hd
      exact ⟨.inr rfl, h.isNearest_above hm hcount ((h.readsBack_iff hm).1 habove)
        fun _ => (roundsUp_iff m e count).1 hup⟩
    · obtain rfl : below m e count = d := by simpa [hup] using hd
      exact ⟨.inl rfl, h.isNearest_below hm hcount ((h.readsBack_iff hm).1 hbelow)
        fun _ => not_le.1 (mt (roundsUp_iff m e count).2 hup)⟩

/-- If nothing is found with so many digits, no number with so many digits rounds to the value. -/
theorem IsCanonical.not_roundsTo_of_withDigits? (h : IsCanonical m e) (hm : 0 < m)
    (hcount : 0 < count) (hnone : withDigits? m e count = none) (hx : Fits count x) :
    ¬RoundsTo x m e := by
  intro hround
  rw [withDigits?_eq] at hnone
  rcases h.beyond_neighbour hm hcount hx hround with ⟨-, hb⟩ | ⟨-, ha⟩
  · rw [(h.readsBack_iff hm).2 hb] at hnone
    split at hnone <;> simp_all
  · rw [(h.readsBack_iff hm).2 ha] at hnone
    split at hnone <;> simp_all

/-! ## Seventeen digits are enough -/

/-- On the grid of seventeen digits a neighbour of each value rounds to it. -/
theorem IsCanonical.roundsTo_seventeen (h : IsCanonical m e) (hm : 0 < m) :
    RoundsTo (below m e 17).value m e ∨ RoundsTo (above m e 17).value m e := by
  by_contra hnone
  rw [not_or, h.roundsTo_iff hm, h.roundsTo_iff hm] at hnone
  obtain ⟨hbelow, habove⟩ := value_between m e 17
  have hgap := gapBelow_pos m e
  have hstep := two_zpow_pos e
  have hlow : (below m e 17).value ≤ value m e - gapBelow m e / 2 := by
    by_contra hlt
    exact hnone.1 (.inl ⟨not_le.1 hlt, by linarith⟩)
  have hhigh : value m e + 2 ^ e / 2 ≤ (above m e 17).value := by
    by_contra hlt
    exact hnone.2 (.inl ⟨by linarith, not_le.1 hlt⟩)
  -- The grid is finer than the values are apart.
  have hunit : (10 : ℚ) ^ 16 * 10 ^ (below m e 17).exponent ≤ value m e := by
    have hsize := (decimalSize_dyadic (e := e) hm).1
    have hexp : decimalSize (dyadic m e) - 1 = (16 : ℕ) + (below m e 17).exponent := by
      rw [below]
      push_cast
      ring
    rwa [hexp, zpow_add₀ (by norm_num), zpow_natCast] at hsize
  rw [above_value] at hhigh
  have hm' : (m : ℚ) < 2 ^ 53 := by exact_mod_cast h.mantissa_lt
  have hvalue : value m e = m * 2 ^ e := rfl
  by_cases hpower : m = 2 ^ (precision - 1) ∧ leastExponent < e
  · have hgap' : gapBelow m e = 2 ^ (e - 1) := if_pos hpower
    have hm2 : (m : ℚ) = 2 ^ 52 := by exact_mod_cast hpower.1
    rw [hgap', two_zpow_eq e] at *
    rw [hvalue, hm2] at hunit
    nlinarith [two_zpow_pos (e - 1)]
  · have hgap' : gapBelow m e = 2 ^ e := if_neg hpower
    have hmul : (m : ℚ) * 2 ^ e < 2 ^ 53 * 2 ^ e := mul_lt_mul_of_pos_right hm' hstep
    rw [hgap'] at hlow
    linarith

/-! ## The search -/

/-- The first of the numbers below a bound at which something is found. -/
theorem findSome?_range_eq_some {α : Type} {f : ℕ → Option α} {n : ℕ} {a : α}
    (h : (List.range n).findSome? f = some a) :
    ∃ i < n, f i = some a ∧ ∀ j < i, f j = none := by
  obtain ⟨left, i, right, hsplit, hi, hleft⟩ := List.findSome?_eq_some_iff.1 h
  have hmem : ∀ {j}, j ∈ left ++ i :: right ↔ j < n := by
    intro j
    rw [← hsplit, List.mem_range]
  have hsorted := List.pairwise_lt_range (n := n)
  rw [hsplit, List.pairwise_append, List.pairwise_cons] at hsorted
  have hin : i < n := hmem.1 (List.mem_append_right _ (.head _))
  refine ⟨i, hin, hi, fun j hj => ?_⟩
  rcases List.mem_append.1 (hmem.2 (hj.trans hin)) with hj' | hj'
  · exact hleft j hj'
  · rcases List.mem_cons.1 hj' with rfl | hj'
    · exact absurd hj (lt_irrefl _)
    · exact absurd (hsorted.2.1.1 j hj') (Nat.lt_asymm hj)

/-- Zeros at the end are taken off without a change of the number. -/
theorem trimZeros_spec (steps : ℕ) (d : Decimal) (hpos : 0 < d.digits)
    (hle : d.digits ≤ 10 ^ steps) :
    (trimZeros steps d).value = d.value ∧ (trimZeros steps d).digits % 10 ≠ 0 := by
  induction steps generalizing d with
  | zero =>
    rw [pow_zero] at hle
    exact ⟨rfl, by rw [trimZeros]; omega⟩
  | succ steps ih =>
    rw [trimZeros]
    split
    · rename_i hzero
      rw [pow_succ] at hle
      obtain ⟨hvalue, hlast⟩ := ih ⟨d.digits / 10, d.exponent + 1⟩
        (show 0 < d.digits / 10 by omega) (show d.digits / 10 ≤ _ by omega)
      refine ⟨hvalue.trans ?_, hlast⟩
      have hdigits : (d.digits : ℚ) = 10 * (d.digits / 10 : ℕ) := by
        exact_mod_cast (show d.digits = 10 * (d.digits / 10) by omega)
      rw [Decimal.value, Decimal.value, hdigits, zpow_add_one₀ (by norm_num)]
      ring
    · rename_i hzero
      exact ⟨rfl, fun h => hzero ⟨h, hpos⟩⟩

/-- A decimal number without zeros at its end has no more digits than it needs. -/
theorem Decimal.digits_lt_of_fits (hlast : d.digits % 10 ≠ 0) (h : Fits count d.value) :
    d.digits < 10 ^ count := by
  obtain ⟨d', hd', hvalue⟩ := h
  rcases le_or_gt d'.exponent d.exponent with hle | hlt
  · obtain ⟨k, hk⟩ := Int.le.dest hle
    have hdigits : d'.digits = d.digits * 10 ^ k := by
      rw [Decimal.value, Decimal.value, ← hk, zpow_add₀ (by norm_num), zpow_natCast,
        mul_comm ((10 : ℚ) ^ d'.exponent), ← mul_assoc] at hvalue
      exact_mod_cast mul_right_cancel₀ (ten_zpow_pos _).ne' hvalue
    exact lt_of_le_of_lt (hdigits ▸ Nat.le_mul_of_pos_right _ (Nat.pow_pos (by decide))) hd'
  · obtain ⟨k, hk⟩ := Int.le.dest (Int.add_one_le_of_lt hlt)
    have hdigits : d.digits = d'.digits * 10 ^ (k + 1) := by
      have hexp : d'.exponent = d.exponent + (k + 1 : ℕ) := by
        push_cast
        omega
      rw [Decimal.value, Decimal.value, hexp, zpow_add₀ (by norm_num), zpow_natCast,
        mul_comm ((10 : ℚ) ^ d.exponent), ← mul_assoc] at hvalue
      exact_mod_cast (mul_right_cancel₀ (ten_zpow_pos _).ne' hvalue).symm
    rw [hdigits, pow_succ, ← mul_assoc, Nat.mul_mod_left] at hlast
    exact absurd rfl hlast

/-- The digits that are found are the fewest with which a number rounds to the value, and of the
numbers with so many digits the nearest. There are no zeros at their end. -/
theorem IsCanonical.shortest_spec (h : IsCanonical m e) (hm : 0 < m) :
    (∀ count x, 0 < count → count < (shortest m e).size → Fits count x → ¬RoundsTo x m e) ∧
      IsNearest m e (shortest m e).size (shortest m e).value ∧
      (shortest m e).digits % 10 ≠ 0 := by
  obtain ⟨d, hd⟩ : ∃ d, (List.range 17).findSome? (fun i => withDigits? m e (i + 1)) = some d := by
    rw [← Option.isSome_iff_exists, List.findSome?_isSome_iff]
    refine ⟨16, List.mem_range.2 (by decide), ?_⟩
    rw [Option.isSome_iff_ne_none]
    intro hnone
    rcases h.roundsTo_seventeen hm with hround | hround
    · exact h.not_roundsTo_of_withDigits? hm (by decide) hnone (fits_below hm (by decide)) hround
    · exact h.not_roundsTo_of_withDigits? hm (by decide) hnone (fits_above hm (by decide)) hround
  have hshortest : shortest m e = trimZeros 17 d := by rw [shortest, hd, Option.getD_some]
  obtain ⟨i, hi, hfound, hbefore⟩ := findSome?_range_eq_some hd
  have hcount : 0 < i + 1 := Nat.succ_pos i
  obtain ⟨hneighbour, hnearest⟩ := h.withDigits?_eq_some hm hcount hfound
  obtain ⟨hlow, hhigh⟩ := below_digits (e := e) hm hcount
  have hpow : 10 ^ (i + 1) ≤ 10 ^ 17 := Nat.pow_le_pow_right (by decide) (by omega)
  have hpos : 0 < d.digits ∧ d.digits ≤ 10 ^ 17 := by
    have hpos : 0 < 10 ^ (i + 1 - 1) := Nat.pow_pos (by decide)
    rcases hneighbour with rfl | rfl
    · omega
    · rw [above]
      dsimp only
      omega
  obtain ⟨hvalue, hlast⟩ := trimZeros_spec 17 d hpos.1 hpos.2
  rw [← hshortest] at hvalue hlast
  rw [← hvalue] at hnearest
  have hfewest : ∀ count x, 0 < count → count < i + 1 → Fits count x → ¬RoundsTo x m e := by
    intro count x hcount hlt hx
    have hnone := hbefore (count - 1) (by omega)
    rw [Nat.sub_add_cancel hcount] at hnone
    exact h.not_roundsTo_of_withDigits? hm hcount hnone hx
  -- With fewer digits after the zeros are off, an earlier count would have been found.
  have hsize : (shortest m e).size = i + 1 := by
    have hdigits : 0 < (shortest m e).digits := Nat.pos_of_ne_zero fun h0 => hlast (by rw [h0])
    have hle : (shortest m e).size ≤ i + 1 :=
      (Nat.length_toDigits_le_iff (by decide) hcount).2
        (Decimal.digits_lt_of_fits hlast hnearest.fits)
    refine le_antisymm hle (not_lt.1 fun hlt => ?_)
    have hfits : Fits (shortest m e).size (shortest m e).value :=
      ⟨_, ((length_decimalDigits_iff hdigits (Decimal.size_pos _)).1 rfl).2, rfl⟩
    exact hfewest _ _ (Decimal.size_pos _) hlt hfits hnearest.rounds
  rw [hsize]
  exact ⟨hfewest, hnearest, hlast⟩

end MarkupCompiler.Binary64
