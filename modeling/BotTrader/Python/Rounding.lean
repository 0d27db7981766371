import Mathlib.Algebra.Order.Floor.Ring
import Mathlib.Data.List.TakeWhile
import Mathlib.Tactic.Linarith
import BotTrader.Python.Rational

/-! What the exact runtime prints and rounds to: `'%f'` prints a fraction of the given length,
and rounding goes to the nearest decimal, a tie to the even one. -/

namespace BotTrader.Python.Rational

/-! ### What was printed is read again -/

theorem isDigit_toDigits {n : ℕ} {c : Char} (h : c ∈ Nat.toDigits 10 n) : c.isDigit = true :=
  Nat.isDigit_of_mem_toDigits (by decide) (by decide) h

theorem digits_eq {cs : List Char} (h : ∀ c ∈ cs, c.isDigit = true) (hne : cs ≠ []) :
    digits cs = some (Nat.ofDigitChars 10 cs 0) := by
  have hall : cs.all Char.isDigit = true := List.all_eq_true.mpr h
  simp [digits, hall, hne]

theorem ne_of_isDigit {c d : Char} (h : c.isDigit = true) (hd : d.isDigit = false) : c ≠ d := by
  rintro rfl
  rw [h] at hd
  cases hd

/-- Digits before the point and behind it. -/
theorem unsigned_point {whole fraction : List Char} (hw : ∀ c ∈ whole, c.isDigit = true)
    (hf : ∀ c ∈ fraction, c.isDigit = true) (hne : whole ≠ []) :
    unsigned (whole ++ '.' :: fraction) =
      some ((Nat.ofDigitChars 10 (whole ++ fraction) 0 : ℚ) / 10 ^ fraction.length) := by
  have hpoint : ∀ c ∈ whole, (decide (c ≠ '.')) = true := fun c hc =>
    decide_eq_true (ne_of_isDigit (hw c hc) (by decide))
  have hdrop : (whole ++ '.' :: fraction).dropWhile (· ≠ '.') = '.' :: fraction := by
    rw [List.dropWhile_append_of_pos hpoint]
    simp
  have htake : (whole ++ '.' :: fraction).takeWhile (· ≠ '.') = whole := by
    rw [List.takeWhile_append_of_pos hpoint]
    simp
  have hall : ∀ c ∈ whole ++ fraction, c.isDigit = true := fun c hc =>
    (List.mem_append.mp hc).elim (hw c) (hf c)
  rw [unsigned]
  simp only [hdrop, htake, List.tail_cons]
  rw [digits_eq hall (by simp [hne])]
  rfl

theorem unsigned_digits {cs : List Char} (h : ∀ c ∈ cs, c.isDigit = true) (hne : cs ≠ []) :
    unsigned cs = some (Nat.ofDigitChars 10 cs 0 : ℚ) := by
  have hpoint : ∀ c ∈ cs, (decide (c ≠ '.')) = true := fun c hc =>
    decide_eq_true (ne_of_isDigit (h c hc) (by decide))
  rw [unsigned]
  simp only [List.takeWhile_eq_self_iff.mpr hpoint, List.dropWhile_eq_nil_iff.mpr hpoint,
    List.tail_nil, List.append_nil]
  rw [digits_eq h hne]
  simp

theorem scaled_eq_unsigned {cs : List Char} (h : ∀ c ∈ cs, beforeExponent c = true) :
    scaled cs = unsigned cs := by
  rw [scaled, List.dropWhile_eq_nil_iff.mpr h]

theorem beforeExponent_of_isDigit {c : Char} (h : c.isDigit = true) : beforeExponent c = true := by
  simp [beforeExponent, ne_of_isDigit h (d := 'e') (by decide),
    ne_of_isDigit h (d := 'E') (by decide)]

/-- A numeral that begins with a digit has no sign. -/
theorem signed_of_digit {α : Type} [Neg α] (read : List Char → Option α) {cs : List Char}
    {c : Char} (h : cs.head? = some c) (hc : c.isDigit = true) : signed read cs = read cs := by
  cases cs with
  | nil => cases h
  | cons c' cs =>
    obtain rfl := Option.some.inj h
    rw [signed]
    · rintro cs' he
      exact ne_of_isDigit hc (d := '-') (by decide) (List.cons.inj he).1
    · rintro cs' he
      exact ne_of_isDigit hc (d := '+') (by decide) (List.cons.inj he).1

/-- The sign of what was printed. -/
theorem ofChars_sign (negative : Bool) {cs : List Char} {c : Char} {x : ℚ}
    (h : cs.head? = some c) (hc : c.isDigit = true) (hx : scaled cs = some x) :
    ofChars ((if negative then "-" else "").toList ++ cs) = some (if negative then -x else x) := by
  cases negative with
  | true =>
    show (scaled cs).map (- ·) = _
    rw [hx]
    rfl
  | false =>
    show signed scaled cs = _
    rw [signed_of_digit scaled h hc, hx]
    rfl

theorem head?_toDigits (n : ℕ) : ∃ c, (Nat.toDigits 10 n).head? = some c ∧ c.isDigit = true := by
  cases h : Nat.toDigits 10 n with
  | nil => exact absurd h Nat.toDigits_ne_nil
  | cons c cs => exact ⟨c, rfl, isDigit_toDigits (h ▸ List.mem_cons_self)⟩

theorem ofChars_toString (z : ℤ) : ofChars (toString z).toList = some (z : ℚ) := by
  have hread (n : ℕ) : scaled (Nat.toDigits 10 n) = some (n : ℚ) := by
    rw [scaled_eq_unsigned fun c hc => beforeExponent_of_isDigit (isDigit_toDigits hc),
      unsigned_digits (fun c hc => isDigit_toDigits hc) Nat.toDigits_ne_nil,
      Nat.ofDigitChars_ten_toDigits]
  cases z with
  | ofNat n =>
    obtain ⟨c, hc, hd⟩ := head?_toDigits n
    have htext : (toString (Int.ofNat n)).toList = Nat.toDigits 10 n := Nat.toList_repr
    rw [htext]
    exact ofChars_sign false hc hd (hread n)
  | negSucc n =>
    obtain ⟨c, hc, hd⟩ := head?_toDigits (n + 1)
    have htext : (toString (Int.negSucc n)).toList = "-".toList ++ Nat.toDigits 10 (n + 1) := by
      rw [show toString (Int.negSucc n) = "-" ++ toString (n + 1) from rfl, String.toList_append,
        Nat.toString_eq_repr, Nat.toList_repr]
    rw [htext]
    refine (ofChars_sign true hc hd (hread (n + 1))).trans ?_
    simp [Int.negSucc_eq]

/-- What stands behind the point, for a remainder. -/
theorem fraction_padLeft {n m : ℕ} (hn : 0 < n) (hm : m < 10 ^ n) :
    (padLeft n (toString m)).toList.length = n ∧
      (∀ c ∈ (padLeft n (toString m)).toList, c.isDigit = true) ∧
      Nat.ofDigitChars 10 (padLeft n (toString m)).toList 0 = m := by
  have htext : (padLeft n (toString m)).toList =
      List.replicate (n - (Nat.toDigits 10 m).length) '0' ++ Nat.toDigits 10 m := by
    simp [padLeft, ← String.length_toList]
  have hlen : (Nat.toDigits 10 m).length ≤ n := (Nat.length_toDigits_le_iff (by omega) hn).mpr hm
  rw [htext]
  refine ⟨by rw [List.length_append, List.length_replicate]; omega, fun c hc => ?_, ?_⟩
  · rcases List.mem_append.mp hc with hc | hc
    · rw [List.eq_of_mem_replicate hc]
      decide
    · exact isDigit_toDigits hc
  · rw [Nat.ofDigitChars_append, Nat.ofDigitChars_replicate_zero, Nat.mul_zero,
      Nat.ofDigitChars_ten_toDigits]

/-- Sign, whole part and fraction of what is printed. -/
theorem toList_decimal {n : ℕ} {x : ℚ} {z : ℤ} (h : roundHalfEven (x * 10 ^ n) = z) :
    (decimal n x).toList = (if decide (z < 0) then "-" else "").toList ++
      (Nat.toDigits 10 (z.natAbs / 10 ^ n) ++
        '.' :: (padLeft n (toString (z.natAbs % 10 ^ n))).toList) := by
  simp [decimal, h]

theorem fractionLength_decimal {n : ℕ} (hn : 0 < n) (x : ℚ) :
    fractionLength (decimal n x) = .ok n := by
  generalize hs : roundHalfEven (x * 10 ^ n) = z
  obtain ⟨hlen, hdigits, -⟩ := fraction_padLeft hn (Nat.mod_lt z.natAbs (by positivity))
  have hfraction : ∀ c ∈ (padLeft n (toString (z.natAbs % 10 ^ n))).toList, decide (c ≠ '.') :=
    fun c hc => decide_eq_true (ne_of_isDigit (hdigits c hc) (by decide))
  have hsign : ∀ c ∈ (if decide (z < 0) then "-" else "").toList, decide (c ≠ '.') := by
    split <;> simp
  rw [fractionLength, toList_decimal hs, ← List.append_assoc, List.dropWhile_append_of_pos]
  · rw [List.dropWhile_cons_of_neg (by simp)]
    simp only [Except.ok.injEq]
    rw [List.takeWhile_eq_self_iff.mpr hfraction, hlen]
  · intro c hc
    rcases List.mem_append.mp hc with hc | hc
    · exact hsign c hc
    · exact decide_eq_true (ne_of_isDigit (isDigit_toDigits hc) (by decide))

/-- Printing to `n` fractional digits and reading is rounding to them. -/
theorem ofChars_decimal {n : ℕ} (hn : 0 < n) (x : ℚ) :
    ofChars (decimal n x).toList = some (roundTo x n) := by
  generalize hs : roundHalfEven (x * 10 ^ n) = z
  obtain ⟨hlen, hdigits, hvalue⟩ := fraction_padLeft hn (Nat.mod_lt z.natAbs (by positivity))
  obtain ⟨c, hc, hd⟩ := head?_toDigits (z.natAbs / 10 ^ n)
  have hwhole : ∀ c ∈ Nat.toDigits 10 (z.natAbs / 10 ^ n), c.isDigit = true :=
    fun c hc => isDigit_toDigits hc
  have htext := toList_decimal hs
  generalize (padLeft n (toString (z.natAbs % 10 ^ n))).toList = fraction at *
  have hnumber : Nat.ofDigitChars 10 (Nat.toDigits 10 (z.natAbs / 10 ^ n) ++ fraction) 0 =
      z.natAbs := by
    rw [Nat.ofDigitChars_append, Nat.ofDigitChars_ten_toDigits,
      Nat.ofDigitChars_eq_ofDigitChars_zero, hlen, hvalue, Nat.div_add_mod]
  have hread : scaled (Nat.toDigits 10 (z.natAbs / 10 ^ n) ++ '.' :: fraction) =
      some ((z.natAbs : ℚ) / 10 ^ n) := by
    rw [scaled_eq_unsigned, unsigned_point hwhole hdigits Nat.toDigits_ne_nil, hnumber, hlen]
    intro c hc
    rcases List.mem_append.mp hc with hc | hc
    · exact beforeExponent_of_isDigit (hwhole c hc)
    · rcases List.mem_cons.mp hc with rfl | hc
      · decide
      · exact beforeExponent_of_isDigit (hdigits c hc)
  rw [htext, ofChars_sign _ (by rw [List.head?_append, hc]; rfl) hd hread, roundTo, hs]
  congr 1
  by_cases hz : z < 0
  · have habs : ((z.natAbs : ℕ) : ℚ) = -z := by
      rw [Nat.cast_natAbs, abs_of_neg hz]
      push_cast
      rfl
    simp [hz, habs, neg_div]
  · have habs : ((z.natAbs : ℕ) : ℚ) = z := by
      rw [Nat.cast_natAbs, abs_of_nonneg (not_lt.mp hz)]
    simp [hz, habs]

/-! ### Rounding -/

/-- The nearest integer within one half, the even one at exactly one half. -/
theorem roundHalfEven_eq_iff {x : ℚ} {m : ℤ} :
    roundHalfEven x = m ↔ |x - m| < 1 / 2 ∨ |x - m| = 1 / 2 ∧ Even m := by
  have hle := Int.floor_le x
  have hlt := Int.lt_floor_add_one x
  generalize hf : ⌊x⌋ = f at hle hlt
  -- No other integer than `f` and `f + 1` is as near.
  have hnear (h : |x - m| < 1 / 2 ∨ |x - m| = 1 / 2 ∧ Even m) : m = f ∨ m = f + 1 := by
    obtain ⟨h1, h2⟩ := abs_le.mp (h.elim le_of_lt fun h => le_of_eq h.1)
    have hlo : f - 1 < m := by
      have : (f : ℚ) - 1 < m := by linarith
      exact_mod_cast this
    have hhi : m < f + 2 := by
      have : (m : ℚ) < f + 2 := by linarith
      exact_mod_cast this
    omega
  have hf0 : |x - f| = x - f := abs_of_nonneg (by linarith)
  have hf1 : |x - ((f + 1 : ℤ) : ℚ)| = f + 1 - x := by
    rw [abs_of_nonpos (by push_cast; linarith)]
    push_cast
    ring
  simp only [roundHalfEven, hf]
  split_ifs with h1 h2 h3
  · constructor
    · rintro rfl
      exact .inl (by rwa [hf0])
    · intro h
      rcases hnear h with rfl | rfl
      · rfl
      · rw [hf1] at h
        rcases h with h | ⟨h, -⟩ <;> linarith
  · constructor
    · rintro rfl
      exact .inl (by rw [hf1]; linarith)
    · intro h
      rcases hnear h with rfl | rfl
      · rw [hf0] at h
        rcases h with h | ⟨h, -⟩ <;> linarith
      · rfl
  all_goals have hd : x - f = 1 / 2 := by linarith
  · constructor
    · rintro rfl
      exact .inr ⟨by rw [hf0, hd], Int.even_iff.mpr h3⟩
    · intro h
      rcases hnear h with rfl | rfl
      · rfl
      · rw [hf1] at h
        rcases h with h | ⟨-, h⟩
        · linarith
        · rw [Int.even_iff] at h
          omega
  · constructor
    · rintro rfl
      exact .inr ⟨by rw [hf1]; linarith, by rw [Int.even_iff]; omega⟩
    · intro h
      rcases hnear h with rfl | rfl
      · rw [hf0, Int.even_iff] at h
        rcases h with h | ⟨-, h⟩
        · linarith
        · exact absurd h h3
      · rfl

/-- `w` is the decimal with `n` fractional digits that is nearest to `v`; of two, the one
whose last digit is even. -/
def IsNearest (n : ℕ) (v w : ℚ) : Prop :=
  ∃ m : ℤ, w * 10 ^ n = m ∧ (|v - w| * 10 ^ n < 1 / 2 ∨ |v - w| * 10 ^ n = 1 / 2 ∧ Even m)

theorem roundTo_eq_iff {v w : ℚ} {n : ℕ} : roundTo v n = w ↔ IsNearest n v w := by
  have hpos : (0 : ℚ) < 10 ^ n := by positivity
  have hscale (m : ℤ) (hm : w * 10 ^ n = m) : |v * 10 ^ n - m| = |v - w| * 10 ^ n := by
    rw [← hm, ← sub_mul, abs_mul, abs_of_pos hpos]
  constructor
  · rintro rfl
    have hm : roundTo v n * 10 ^ n = roundHalfEven (v * 10 ^ n) := div_mul_cancel₀ _ hpos.ne'
    refine ⟨_, hm, ?_⟩
    rw [← hscale _ hm]
    exact roundHalfEven_eq_iff.mp rfl
  · rintro ⟨m, hm, hw⟩
    rw [← hscale _ hm] at hw
    rw [roundTo, roundHalfEven_eq_iff.mpr hw, ← hm, mul_div_cancel_right₀ _ hpos.ne']

/-! ### Repeated rounding -/

theorem abs_roundHalfEven_sub_le (x : ℚ) : |x - roundHalfEven x| ≤ 1 / 2 :=
  (roundHalfEven_eq_iff.mp rfl).elim le_of_lt fun h => h.1.le

theorem roundHalfEven_mono {x y : ℚ} (h : x ≤ y) : roundHalfEven x ≤ roundHalfEven y := by
  by_contra hlt
  have hx := (abs_le.mp (abs_roundHalfEven_sub_le x)).1
  have hy := (abs_le.mp (abs_roundHalfEven_sub_le y)).2
  have hstep : (roundHalfEven y : ℚ) + 1 ≤ roundHalfEven x := by
    have : roundHalfEven y + 1 ≤ roundHalfEven x := by omega
    exact_mod_cast this
  -- Both lie at the same half, which is rounded in one way only.
  obtain rfl : x = y := by linarith
  exact hlt le_rfl

theorem abs_roundTo_sub_le (v : ℚ) (n : ℕ) : |roundTo v n - v| ≤ 1 / 2 / 10 ^ n := by
  have hpos : (0 : ℚ) < 10 ^ n := by positivity
  have hr := abs_roundHalfEven_sub_le (v * 10 ^ n)
  have hv : roundTo v n - v = -(v * 10 ^ n - roundHalfEven (v * 10 ^ n)) / 10 ^ n := by
    rw [roundTo]
    field_simp
    ring
  rw [hv, abs_div, abs_neg, abs_of_pos hpos]
  gcongr

theorem roundTo_mono {v w : ℚ} (h : v ≤ w) (n : ℕ) : roundTo v n ≤ roundTo w n := by
  unfold roundTo
  gcongr
  exact roundHalfEven_mono (by gcongr)

theorem roundTo_roundTo (v : ℚ) (n : ℕ) : roundTo (roundTo v n) n = roundTo v n := by
  rw [roundTo_eq_iff]
  refine ⟨roundHalfEven (v * 10 ^ n), div_mul_cancel₀ _ (by positivity), .inl ?_⟩
  norm_num

/-- Errors of subtractions that are each off by `ε` at most add up. -/
theorem abs_foldl_sub_le {f : ℚ → ℚ} {ε : ℚ} (hf : ∀ x, |f x - x| ≤ ε) (cs : List ℚ) (q : ℚ) :
    |cs.foldl (fun q c => f (q - c)) q - (q - cs.sum)| ≤ cs.length * ε := by
  induction cs generalizing q with
  | nil => simp
  | cons c cs ih =>
    have hstep := hf (q - c)
    have hrest := ih (f (q - c))
    have hsplit : cs.foldl (fun q c => f (q - c)) (f (q - c)) - (q - (c + cs.sum)) =
        (cs.foldl (fun q c => f (q - c)) (f (q - c)) - (f (q - c) - cs.sum)) +
          (f (q - c) - (q - c)) := by ring
    rw [List.foldl_cons, List.sum_cons, hsplit, List.length_cons]
    push_cast
    linarith [abs_add_le (cs.foldl (fun q c => f (q - c)) (f (q - c)) - (f (q - c) - cs.sum))
      (f (q - c) - (q - c))]

/-- What is subtracted and rounded again and again stays below the first rounding. -/
theorem foldl_roundTo_le {n : ℕ} (cs : List ℚ) (hcs : ∀ c ∈ cs, 0 ≤ c) (q : ℚ) :
    cs.foldl (fun q c => roundTo (q - c) n) q = q ∨
      cs.foldl (fun q c => roundTo (q - c) n) q ≤ roundTo q n := by
  induction cs generalizing q with
  | nil => exact .inl rfl
  | cons c cs ih =>
    rw [List.forall_mem_cons] at hcs
    have hle : roundTo (q - c) n ≤ roundTo q n := roundTo_mono (by linarith [hcs.1]) n
    rw [List.foldl_cons]
    rcases ih hcs.2 (roundTo (q - c) n) with h | h
    · exact .inr (h.trans_le hle)
    · rw [roundTo_roundTo] at h
      exact .inr (h.trans hle)

end BotTrader.Python.Rational
