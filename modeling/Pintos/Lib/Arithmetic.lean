import Mathlib.Tactic.Linarith
import Mathlib.Tactic.Ring

/-!
# Division of 64-bit integers

The routines of `lib/arithmetic.c` that the compiler calls for `/` and `%` on 64-bit operands.
They rest on the instruction `divl`, which divides 64 bits by 32 bits and traps when the quotient
does not fit. A divisor of more than 32 bits is shifted until its highest bit is set, half of the
dividend is divided by its upper half, and the quotient that is shifted back is right or too large
by one.

The quotients are right. A remainder goes through a return type of 32 bits, and is right exactly
when it fits.
-/

namespace Pintos.Arithmetic

/-- The instruction `divl` on EDX:EAX: the quotient and the remainder, and `none` for a divide
error. -/
def divlInstruction (edx eax d : BitVec 32) : Option (BitVec 32 × BitVec 32) :=
  if d = 0 ∨ 2 ^ 32 ≤ (edx ++ eax).toNat / d.toNat then none
  else some (BitVec.ofNat 32 ((edx ++ eax).toNat / d.toNat),
    BitVec.ofNat 32 ((edx ++ eax).toNat % d.toNat))

def divl (n : BitVec 64) (d : BitVec 32) : Option (BitVec 32) :=
  let n1 := (n >>> 32).setWidth 32
  let n0 := n.setWidth 32
  (divlInstruction n1 n0 d).map Prod.fst

def nlzStep (bound : BitVec 32) (width : ℕ) (state : ℕ × BitVec 32) : ℕ × BitVec 32 :=
  if state.2 ≤ bound then (state.1 + width, state.2 <<< width) else state

def nlzShift (x : BitVec 32) : ℕ × BitVec 32 :=
  nlzStep 0x3FFFFFFF 2 <| nlzStep 0x0FFFFFFF 4 <| nlzStep 0x00FFFFFF 8 <|
    nlzStep 0x0000FFFF 16 (0, x)

def nlz (x : BitVec 32) : ℕ :=
  if (nlzShift x).2 ≤ 0x7FFFFFFF then (nlzShift x).1 + 1 else (nlzShift x).1

def udiv64 (n d : BitVec 64) : Option (BitVec 64) :=
  if d >>> 32 = 0 then
    let b := (1 : BitVec 64) <<< 32
    let n1 : BitVec 32 := (n >>> 32).setWidth 32
    let n0 : BitVec 32 := n.setWidth 32
    let d0 : BitVec 32 := d.setWidth 32
    (divl (b * (n1 % d0).setWidth 64 + n0.setWidth 64) d0).map fun quotient =>
      quotient.setWidth 64 + b * (n1 / d0).setWidth 64
  else if n < d then some 0
  else
    let d1 : BitVec 32 := (d >>> 32).setWidth 32
    let s := nlz d1
    (divl (n >>> 1) (((d <<< s) >>> 32).setWidth 32)).map fun (quotient : BitVec 32) =>
      let q : BitVec 64 := (quotient >>> (31 - s)).setWidth 64
      if n - (q - 1) * d < d then q - 1 else q

/-- The value that `umod64` returns is a `uint32_t`. -/
def umod64 (n d : BitVec 64) : Option (BitVec 32) :=
  (udiv64 n d).map fun quotient => (n - d * quotient).setWidth 32

def sdiv64 (n d : BitVec 64) : Option (BitVec 64) :=
  let nAbs := if 0 ≤ n.toInt then n else -n
  let dAbs := if 0 ≤ d.toInt then d else -d
  (udiv64 nAbs dAbs).map fun qAbs =>
    if decide (n.toInt < 0) = decide (d.toInt < 0) then qAbs else -qAbs

/-- The value that `smod64` returns is an `int32_t`. -/
def smod64 (n d : BitVec 64) : Option (BitVec 32) :=
  (sdiv64 n d).map fun quotient => (n - d * quotient).setWidth 32

def moddi3 (n d : BitVec 64) : Option (BitVec 64) := (smod64 n d).map (·.signExtend 64)

def umoddi3 (n d : BitVec 64) : Option (BitVec 64) := (umod64 n d).map (·.setWidth 64)

section Instruction

lemma divl_eq {n : BitVec 64} {d : BitVec 32} (nonzero : d ≠ 0)
  (fits : n.toNat / d.toNat < 2 ^ 32) :
  divl n d = some (BitVec.ofNat 32 (n.toNat / d.toNat)) := by
  have joined : ((n >>> 32).setWidth 32 ++ n.setWidth 32 : BitVec 64) = n := by
    refine BitVec.eq_of_toNat_eq ?_
    rw [BitVec.toNat_append, ← Nat.shiftLeft_add_eq_or_of_lt (BitVec.isLt _)]
    simp only [BitVec.toNat_setWidth, BitVec.toNat_ushiftRight, Nat.shiftRight_eq_div_pow,
      Nat.shiftLeft_eq]
    omega
  simp only [divl, divlInstruction, joined]
  rw [if_neg (by rw [not_or]; exact ⟨nonzero, by omega⟩)]
  rfl

end Instruction

variable {width : ℕ}

section LeadingZeros

variable {x bound : BitVec 32} {st : ℕ × BitVec 32}

def Shifted (x : BitVec 32) (low : ℕ) (state : ℕ × BitVec 32) : Prop :=
  state.2.toNat = x.toNat * 2 ^ state.1 ∧ 2 ^ low ≤ state.2.toNat

lemma Shifted.step {low high : ℕ} (shifted : Shifted x low st) (isHigh : low + width = high)
  (isWhole : high + width = 32) (isBound : bound.toNat + 1 = 2 ^ high) :
  Shifted x high (nlzStep bound width st) := by
  rcases shifted with ⟨isShifted, atLeast⟩
  rw [nlzStep]
  split
  · next small =>
      have isSmall : st.2.toNat < 2 ^ high := by
        have le : st.2.toNat ≤ bound.toNat := small
        omega
      have val : (st.2 <<< width).toNat = st.2.toNat * 2 ^ width := by
        rw [BitVec.toNat_shiftLeft, Nat.shiftLeft_eq, Nat.mod_eq_of_lt]
        have whole : 2 ^ 32 = 2 ^ high * 2 ^ width := by rw [← pow_add, isWhole]
        rw [whole]
        exact Nat.mul_lt_mul_of_pos_right isSmall (by positivity)
      refine ⟨?_, ?_⟩
      · rw [val, isShifted, pow_add, mul_assoc]
      rw [val, ← isHigh, pow_add]
      exact Nat.mul_le_mul_right _ atLeast
  next large =>
    refine ⟨isShifted, ?_⟩
    have lt : bound.toNat < st.2.toNat := not_le.mp large
    omega

lemma nlz_spec (nonzero : x ≠ 0) :
  nlz x ≤ 31 ∧ 2 ^ 31 ≤ x.toNat * 2 ^ nlz x ∧ x.toNat * 2 ^ nlz x < 2 ^ 32 := by
  have pos : 0 < x.toNat := Nat.pos_of_ne_zero fun isZero =>
    nonzero (BitVec.eq_of_toNat_eq isZero)
  have start : Shifted x 0 (0, x) := ⟨by simp, pos⟩
  have first : Shifted x 16 (nlzStep 0x0000FFFF 16 (0, x)) := start.step rfl rfl rfl
  have second : Shifted x 24 (nlzStep 0x00FFFFFF 8 _) := first.step rfl rfl rfl
  have third : Shifted x 28 (nlzStep 0x0FFFFFFF 4 _) := second.step rfl rfl rfl
  have fourth : Shifted x 30 (nlzShift x) := third.step rfl rfl rfl
  have fifth : Shifted x 31 (nlzStep 0x7FFFFFFF 1 (nlzShift x)) := fourth.step rfl rfl rfl
  have isCnt : nlz x = (nlzStep 0x7FFFFFFF 1 (nlzShift x)).1 := by
    rw [nlz, nlzStep]
    split <;> rfl
  rcases fifth with ⟨isShifted, atLeast⟩
  have bound := BitVec.isLt (nlzStep 0x7FFFFFFF 1 (nlzShift x)).2
  rw [isShifted, ← isCnt] at bound atLeast
  refine ⟨?_, atLeast, bound⟩
  have power : 2 ^ nlz x < 2 ^ 32 := lt_of_le_of_lt (Nat.le_mul_of_pos_left _ pos) bound
  exact Nat.lt_succ_iff.mp ((Nat.pow_lt_pow_iff_right (by decide)).mp power)

end LeadingZeros

section Quotients

lemma halves_div (n : ℕ) {d : ℕ} (pos : 0 < d) :
  (2 ^ 32 * (n / 2 ^ 32 % d) + n % 2 ^ 32) / d + 2 ^ 32 * (n / 2 ^ 32 / d) = n / d := by
  have whole : n = 2 ^ 32 * (n / 2 ^ 32 % d) + n % 2 ^ 32 + d * (2 ^ 32 * (n / 2 ^ 32 / d)) := by
    calc n = 2 ^ 32 * (n / 2 ^ 32) + n % 2 ^ 32 := (Nat.div_add_mod n (2 ^ 32)).symm
      _ = 2 ^ 32 * (d * (n / 2 ^ 32 / d) + n / 2 ^ 32 % d) + n % 2 ^ 32 := by
          rw [Nat.div_add_mod (n / 2 ^ 32) d]
      _ = _ := by ring
  conv_rhs => rw [whole]
  rw [Nat.add_mul_div_left _ _ pos]

lemma halves_div_lt (n : ℕ) {d : ℕ} (pos : 0 < d) :
  (2 ^ 32 * (n / 2 ^ 32 % d) + n % 2 ^ 32) / d < 2 ^ 32 := by
  have high := Nat.mod_lt (n / 2 ^ 32) pos
  have low := Nat.mod_lt n (show 0 < 2 ^ 32 by decide)
  refine Nat.div_lt_of_lt_mul ?_
  nlinarith

lemma estimate_cases {n d v k : ℕ} (fits : n < 2 ^ 64) (pos : 0 < k) (divides : k ∣ 2 ^ 33)
  (below : v * k ≤ d) (above : d < v * k + k) (normal : 2 ^ 31 ≤ v) :
  n / (v * k) = n / d ∨ n / (v * k) = n / d + 1 := by
  have dividesPos : 0 < v * k := Nat.mul_pos (by omega) pos
  have notSmaller : n / d ≤ n / (v * k) := Nat.div_le_div_left below dividesPos
  have next : n < d * (n / d + 1) := Nat.lt_mul_div_succ n (by omega)
  have product : n / d * d ≤ n := Nat.div_mul_le_self n d
  generalize n / d = q at notSmaller next product ⊢
  rcases divides with ⟨m, isPower⟩
  have few : q + 1 ≤ m := by
    by_contra many
    have enough : m * (2 ^ 31 * k) ≤ q * d := by
      refine Nat.mul_le_mul (by omega) (le_trans ?_ below)
      exact Nat.mul_le_mul_right _ normal
    have square : m * (2 ^ 31 * k) = 2 ^ 31 * 2 ^ 33 := by
      rw [isPower]
      ring
    omega
  have small : (q + 1) * (k - 1) ≤ v * k := by
    rcases Nat.exists_eq_add_of_lt pos with ⟨j, rfl⟩
    simp only [Nat.zero_add] at isPower normal ⊢
    have bounded : (q + 1) * (j + 1) ≤ 2 ^ 33 := by
      rw [isPower, Nat.mul_comm]
      exact Nat.mul_le_mul_left _ few
    refine Nat.le_of_mul_le_mul_right (?_ : _ * (j + 1) ≤ _ * (j + 1)) (Nat.succ_pos j)
    calc (q + 1) * j * (j + 1) = j * ((q + 1) * (j + 1)) := by ring
      _ ≤ j * 2 ^ 33 := Nat.mul_le_mul_left _ bounded
      _ ≤ 2 ^ 31 * ((j + 1) * (j + 1)) := by nlinarith [sq_nonneg ((j : ℤ) - 1)]
      _ ≤ v * ((j + 1) * (j + 1)) := Nat.mul_le_mul_right _ normal
      _ = v * (j + 1) * (j + 1) := by ring
  have notLarger : n / (v * k) < q + 2 := by
    rw [Nat.div_lt_iff_lt_mul dividesPos]
    have upper : d ≤ v * k + (k - 1) := by omega
    nlinarith
  omega

end Quotients

section Unsigned

variable {n d : BitVec 64}

lemma toNat_pos {x : BitVec width} (nonzero : x ≠ 0) : 0 < x.toNat :=
  Nat.pos_of_ne_zero fun isZero => nonzero (BitVec.eq_of_toNat_eq isZero)

lemma toNat_widen (x : BitVec 32) : (x.setWidth 64).toNat = x.toNat :=
  BitVec.toNat_setWidth_of_le (by decide)

lemma udiv64_narrow (nonzero : d ≠ 0) (narrow : d >>> 32 = 0) :
  udiv64 n d = some (BitVec.ofNat 64 (n.toNat / d.toNat)) := by
  have pos := toNat_pos nonzero
  have small : d.toNat < 2 ^ 32 := by
    have upper := congrArg BitVec.toNat narrow
    simp only [BitVec.toNat_ushiftRight, Nat.shiftRight_eq_div_pow, BitVec.ofNat_eq_ofNat,
      BitVec.toNat_ofNat] at upper
    omega
  have base : ((1 : BitVec 64) <<< 32).toNat = 2 ^ 32 := by decide
  have high : ((n >>> 32).setWidth 32 : BitVec 32).toNat = n.toNat / 2 ^ 32 := by
    simp only [BitVec.toNat_setWidth, BitVec.toNat_ushiftRight]
    omega
  have divisor : (d.setWidth 32 : BitVec 32).toNat = d.toNat := by
    rw [BitVec.toNat_setWidth, Nat.mod_eq_of_lt small]
  have dividend : ((1 : BitVec 64) <<< 32 *
      (((n >>> 32).setWidth 32 : BitVec 32) % d.setWidth 32).setWidth 64 +
        (n.setWidth 32 : BitVec 32).setWidth 64).toNat =
          2 ^ 32 * (n.toNat / 2 ^ 32 % d.toNat) + n.toNat % 2 ^ 32 := by
    have rest := Nat.mod_lt (n.toNat / 2 ^ 32) pos
    rw [BitVec.toNat_add, BitVec.toNat_mul, toNat_widen, toNat_widen, BitVec.toNat_umod, high,
      divisor, base, BitVec.toNat_setWidth]
    generalize n.toNat / 2 ^ 32 % d.toNat = remainder at rest ⊢
    omega
  have isQuotient := halves_div n.toNat pos
  have fits := halves_div_lt n.toNat pos
  rw [← dividend] at isQuotient fits
  rw [← divisor] at fits
  have nonzeroHalf : (d.setWidth 32 : BitVec 32) ≠ 0 := by
    intro isZero
    rw [isZero] at divisor
    simp at divisor
    omega
  rw [udiv64, if_pos narrow]
  dsimp only
  rw [divl_eq nonzeroHalf fits, Option.map_some]
  congr 1
  refine BitVec.eq_of_toNat_eq ?_
  rw [BitVec.toNat_add, BitVec.toNat_mul, base, toNat_widen, toNat_widen, BitVec.toNat_udiv, high,
    BitVec.toNat_ofNat, BitVec.toNat_ofNat, Nat.mod_eq_of_lt fits, divisor, ← isQuotient]
  omega

lemma corrected_eq {q : BitVec 64} (atLeast : d.toNat ≤ n.toNat) (pos : 0 < d.toNat)
  (estimate : q.toNat = n.toNat / d.toNat ∨ q.toNat = n.toNat / d.toNat + 1) :
  (if n - (q - 1) * d < d then q - 1 else q) = BitVec.ofNat 64 (n.toNat / d.toNat) := by
  have bound := n.isLt
  have isOne : (1 : BitVec 64).toNat = 1 := rfl
  have quotientPos := (Nat.one_le_div_iff pos).mpr atLeast
  have decomposed := Nat.div_add_mod' n.toNat d.toNat
  have restLt := Nat.mod_lt n.toNat pos
  generalize n.toNat / d.toNat = quotient at *
  generalize n.toNat % d.toNat = rest at *
  have pre : (q - 1).toNat = q.toNat - 1 :=
    BitVec.toNat_sub_of_le (by rw [BitVec.le_def]; omega)
  have atMost : (q.toNat - 1) * d.toNat ≤ quotient * d.toNat :=
    Nat.mul_le_mul_right _ (by omega)
  have product : ((q - 1) * d).toNat = (q.toNat - 1) * d.toNat := by
    rw [BitVec.toNat_mul, pre, Nat.mod_eq_of_lt (by omega)]
  have difference : (n - (q - 1) * d).toNat = n.toNat - (q.toNat - 1) * d.toNat := by
    rw [BitVec.toNat_sub_of_le (by rw [BitVec.le_def]; omega), product]
  refine BitVec.eq_of_toNat_eq ?_
  have small : quotient < 2 ^ 64 := by nlinarith
  rw [BitVec.toNat_ofNat, Nat.mod_eq_of_lt small, apply_ite BitVec.toNat, pre]
  simp only [BitVec.lt_def, difference]
  rcases estimate with exact | oneMore
  · have step : (q.toNat - 1) * d.toNat + d.toNat = quotient * d.toNat := by
      rw [exact, ← Nat.succ_mul, Nat.succ_eq_add_one, Nat.sub_add_cancel quotientPos]
    rw [if_neg (by omega), exact]
  · rw [oneMore, Nat.add_sub_cancel, if_pos (by omega)]

lemma normalized {s : ℕ} (atMost : s ≤ 31) (normal : 2 ^ 31 ≤ d.toNat / 2 ^ 32 * 2 ^ s)
  (below : d.toNat / 2 ^ 32 * 2 ^ s < 2 ^ 32) :
  (((d <<< s) >>> 32).setWidth 32 : BitVec 32).toNat = d.toNat / 2 ^ (32 - s) ∧
    2 ^ 31 ≤ d.toNat / 2 ^ (32 - s) := by
  have power : 2 ^ (32 - s) * 2 ^ s = 2 ^ 32 := by
    rw [← pow_add, Nat.sub_add_cancel (by omega)]
  have half : d.toNat / 2 ^ 32 + 1 ≤ 2 ^ (32 - s) := by
    refine Nat.lt_of_mul_lt_mul_right (?_ : _ * 2 ^ s < _ * 2 ^ s)
    rw [power]
    exact below
  have noOverflow : d.toNat * 2 ^ s < 2 ^ 64 := by
    have unscaled : d.toNat * 2 ^ s < (d.toNat / 2 ^ 32 + 1) * 2 ^ 32 * 2 ^ s :=
      Nat.mul_lt_mul_of_pos_right (by omega) (by positivity)
    nlinarith
  constructor
  · rw [BitVec.toNat_setWidth, BitVec.toNat_ushiftRight, BitVec.toNat_shiftLeft,
      Nat.shiftLeft_eq, Nat.shiftRight_eq_div_pow, Nat.mod_eq_of_lt noOverflow,
      Nat.mod_eq_of_lt (by omega), ← power, Nat.mul_div_mul_right _ _ (by positivity)]
  · rw [Nat.le_div_iff_mul_le (by positivity)]
    calc 2 ^ 31 * 2 ^ (32 - s) ≤ d.toNat / 2 ^ 32 * 2 ^ s * 2 ^ (32 - s) :=
          Nat.mul_le_mul_right _ normal
      _ = d.toNat / 2 ^ 32 * 2 ^ 32 := by rw [← power]; ring
      _ ≤ d.toNat := Nat.div_mul_le_self ..

lemma udiv64_wide (wide : d >>> 32 ≠ 0) :
  udiv64 n d = some (BitVec.ofNat 64 (n.toNat / d.toNat)) := by
  have upper := toNat_pos wide
  rw [BitVec.toNat_ushiftRight, Nat.shiftRight_eq_div_pow] at upper
  rw [udiv64, if_neg wide]
  split
  · next less =>
      rw [Nat.div_eq_of_lt less]
      rfl
  next notLess =>
    have atLeast : d.toNat ≤ n.toNat := not_lt.mp notLess
    have bound := n.isLt
    dsimp only
    have isHalf : ((d >>> 32).setWidth 32 : BitVec 32).toNat = d.toNat / 2 ^ 32 := by
      rw [BitVec.toNat_setWidth, BitVec.toNat_ushiftRight]
      omega
    have nonzero : ((d >>> 32).setWidth 32 : BitVec 32) ≠ 0 := by
      intro isZero
      rw [isZero] at isHalf
      exact absurd isHalf upper.ne
    rcases nlz_spec nonzero with ⟨atMost, normal, below⟩
    rw [isHalf] at normal below
    generalize nlz ((d >>> 32).setWidth 32) = s at *
    rcases normalized atMost normal below with ⟨isShifted, large⟩
    have pos : 0 < 2 ^ (32 - s) := by positivity
    have isUpper : d.toNat < d.toNat / 2 ^ (32 - s) * 2 ^ (32 - s) + 2 ^ (32 - s) :=
      Nat.lt_div_mul_add pos
    have isLower := Nat.div_mul_le_self d.toNat (2 ^ (32 - s))
    rw [← isShifted] at large isUpper isLower
    generalize (((d <<< s) >>> 32).setWidth 32 : BitVec 32) = v at *
    have halved : (n >>> 1).toNat = n.toNat / 2 := by
      rw [BitVec.toNat_ushiftRight, Nat.shiftRight_eq_div_pow]
    have fits : (n >>> 1).toNat / v.toNat < 2 ^ 32 := by
      refine Nat.div_lt_of_lt_mul ?_
      omega
    rw [divl_eq (by rintro rfl; simp at large) fits, Option.map_some, corrected_eq atLeast
      (by omega) ?_]
    have isEstimate : ((BitVec.ofNat 32 ((n >>> 1).toNat / v.toNat) >>> (31 - s)).setWidth 64 :
        BitVec 64).toNat = n.toNat / (v.toNat * 2 ^ (32 - s)) := by
      rw [toNat_widen, BitVec.toNat_ushiftRight, Nat.shiftRight_eq_div_pow, BitVec.toNat_ofNat,
        Nat.mod_eq_of_lt fits, halved, Nat.div_div_eq_div_mul, Nat.div_div_eq_div_mul,
        show 32 - s = 31 - s + 1 by omega, pow_succ]
      congr 1
      ring
    rw [isEstimate]
    exact estimate_cases bound pos (pow_dvd_pow 2 (by omega)) isLower isUpper large

lemma udiv64_eq (nonzero : d ≠ 0) : udiv64 n d = some (BitVec.ofNat 64 (n.toNat / d.toNat)) := by
  by_cases narrow : d >>> 32 = 0
  · exact udiv64_narrow nonzero narrow
  · exact udiv64_wide narrow

end Unsigned

section Signed

variable {n d : BitVec 64}

lemma toNat_abs (x : BitVec 64) : (if 0 ≤ x.toInt then x else -x).toNat = x.toInt.natAbs := by
  have isVal := BitVec.toInt_eq_toNat_cond x
  split
  · split at isVal <;> omega
  rw [BitVec.toNat_neg]
  split at isVal <;> omega

lemma natAbs_pos (nonzero : d ≠ 0) : 0 < d.toInt.natAbs := by
  rw [Int.natAbs_pos]
  intro isZero
  exact nonzero (BitVec.eq_of_toInt_eq (isZero.trans (by decide)))

lemma sdiv64_eq (nonzero : d ≠ 0) :
  sdiv64 n d = some (BitVec.ofInt 64 (n.toInt.tdiv d.toInt)) := by
  have isNat := natAbs_pos nonzero
  have absNonzero : (if 0 ≤ d.toInt then d else -d) ≠ 0 := by
    intro isZero
    rw [← toNat_abs, isZero] at isNat
    exact absurd isNat (by decide)
  rw [sdiv64, udiv64_eq absNonzero, toNat_abs, toNat_abs, Option.map_some]
  congr 1
  rcases le_or_gt 0 n.toInt with nPos | nNeg <;> rcases le_or_gt 0 d.toInt with dPos | dNeg
  · rw [if_pos (by simp [not_lt.mpr nPos, not_lt.mpr dPos])]
    conv_rhs => rw [← Int.natAbs_of_nonneg nPos, ← Int.natAbs_of_nonneg dPos]
    rw [← Int.ofNat_tdiv, BitVec.ofInt_natCast]
  · rw [if_neg (by simp [nPos, dNeg])]
    conv_rhs => rw [← Int.natAbs_of_nonneg nPos, ← neg_neg d.toInt,
      ← Int.ofNat_natAbs_of_nonpos dNeg.le]
    rw [Int.tdiv_neg, ← Int.ofNat_tdiv, BitVec.ofInt_neg, BitVec.ofInt_natCast]
  · rw [if_neg (by simp [nNeg, dPos])]
    conv_rhs => rw [← Int.natAbs_of_nonneg dPos, ← neg_neg n.toInt,
      ← Int.ofNat_natAbs_of_nonpos nNeg.le]
    rw [Int.neg_tdiv, ← Int.ofNat_tdiv, BitVec.ofInt_neg, BitVec.ofInt_natCast]
  rw [if_pos (by simp [nNeg, dNeg])]
  conv_rhs => rw [← neg_neg n.toInt, ← neg_neg d.toInt, ← Int.ofNat_natAbs_of_nonpos nNeg.le,
    ← Int.ofNat_natAbs_of_nonpos dNeg.le]
  rw [Int.neg_tdiv_neg, ← Int.ofNat_tdiv, BitVec.ofInt_natCast]

/-- Division never traps, and the quotients are exact. -/
theorem division_exact (n d : BitVec 64) (nonzero : d ≠ 0) :
    udiv64 n d = some (BitVec.ofNat 64 (n.toNat / d.toNat)) ∧
      sdiv64 n d = some (BitVec.ofInt 64 (n.toInt.tdiv d.toInt)) :=
  ⟨udiv64_eq nonzero, sdiv64_eq nonzero⟩

/-- The largest number is divided by one that has more than 32 bits, and the least one by `-1`. -/
theorem division_exact_extremes :
    (udiv64 (-1) 0x100000001 = some 0xFFFFFFFF ∧ (0x100000001 : BitVec 64) ≠ 0) ∧
      sdiv64 (BitVec.intMin 64) (-1) = some (BitVec.intMin 64) := by
  have unsigned := (division_exact (-1) 0x100000001 (by decide)).1
  have signed := (division_exact (BitVec.intMin 64) (-1) (by decide)).2
  exact ⟨⟨unsigned.trans (by decide), by decide⟩, signed.trans (by decide)⟩

def Umoddi3Complete (n d : BitVec 64) : Prop :=
  umoddi3 n d = some (BitVec.ofNat 64 (n.toNat % d.toNat))

def Moddi3Complete (n d : BitVec 64) : Prop :=
  moddi3 n d = some (BitVec.ofInt 64 (n.toInt - d.toInt * n.toInt.tdiv d.toInt))

lemma umoddi3_eq (nonzero : d ≠ 0) :
  umoddi3 n d = some (BitVec.ofNat 64 (n.toNat % d.toNat % 2 ^ 32)) := by
  have decomposed := Nat.div_add_mod n.toNat d.toNat
  have atMost := Nat.div_le_self n.toNat d.toNat
  rw [umoddi3, umod64, udiv64_eq nonzero, Option.map_some, Option.map_some]
  congr 1
  have product : (d * BitVec.ofNat 64 (n.toNat / d.toNat)).toNat =
      d.toNat * (n.toNat / d.toNat) := by
    have fits : n.toNat / d.toNat < 2 ^ 64 := by omega
    rw [BitVec.toNat_mul, BitVec.toNat_ofNat, Nat.mod_eq_of_lt fits, Nat.mod_eq_of_lt (by omega)]
  refine BitVec.eq_of_toNat_eq ?_
  rw [toNat_widen, BitVec.toNat_setWidth, BitVec.toNat_sub_of_le
    (by rw [BitVec.le_def]; omega), product, BitVec.toNat_ofNat]
  omega

lemma umoddi3Complete_iff (nonzero : d ≠ 0) :
  Umoddi3Complete n d ↔ n.toNat % d.toNat < 2 ^ 32 := by
  have restLt := Nat.mod_lt n.toNat (toNat_pos nonzero)
  rw [Umoddi3Complete, umoddi3_eq nonzero, Option.some_inj, ← BitVec.toNat_inj,
    BitVec.toNat_ofNat, BitVec.toNat_ofNat]
  omega

lemma moddi3Complete_iff (nonzero : d ≠ 0) :
  Moddi3Complete n d ↔ -2 ^ 31 ≤ n.toInt.tmod d.toInt ∧ n.toInt.tmod d.toInt < 2 ^ 31 := by
  have isNat := natAbs_pos nonzero
  have small := Nat.mod_lt n.toInt.natAbs isNat
  rw [← Int.natAbs_tmod] at small
  have lower := BitVec.le_toInt d
  have upper := @BitVec.toInt_lt _ d
  have difference : (n - d * BitVec.ofInt 64 (n.toInt.tdiv d.toInt)).toInt =
      n.toInt.tmod d.toInt := by
    rw [BitVec.toInt_sub, BitVec.toInt_mul, BitVec.toInt_ofInt, Int.mul_bmod_bmod,
      Int.sub_bmod_bmod, ← Int.tmod_def]
    exact Int.bmod_eq_of_le (by omega) (by omega)
  rw [Moddi3Complete, moddi3, smod64, sdiv64_eq nonzero, Option.map_some, Option.map_some,
    Option.some_inj, ← BitVec.toInt_inj, BitVec.toInt_signExtend_of_le (by decide),
    BitVec.toInt_setWidth, BitVec.toInt_ofInt, ← Int.tmod_def]
  rw [BitVec.toInt_eq_toNat_bmod] at difference
  rw [← Int.bmod_bmod_of_dvd (show 2 ^ 32 ∣ 2 ^ 64 by decide)]
  generalize n.toInt.tmod d.toInt = rest at *
  rw [@Int.bmod_eq_of_le rest (2 ^ 64) (by omega) (by omega), Int.bmod_eq_iff (by decide)]
  omega

/-- The remainders are right exactly when they fit into 32 bits. -/
theorem remaindersComplete_iff (n d : BitVec 64) (nonzero : d ≠ 0) :
    (Umoddi3Complete n d ↔ n.toNat % d.toNat < 2 ^ 32) ∧
      (Moddi3Complete n d ↔
        -2 ^ 31 ≤ n.toInt.tmod d.toInt ∧ n.toInt.tmod d.toInt < 2 ^ 31) :=
  ⟨umoddi3Complete_iff nonzero, moddi3Complete_iff nonzero⟩

theorem remaindersComplete_ten :
    (10 : BitVec 64) ≠ 0 ∧ Umoddi3Complete (-1) 10 ∧ Moddi3Complete (-7) 10 := by
  refine ⟨by decide, ?_, ?_⟩
  · exact (remaindersComplete_iff (-1) 10 (by decide)).1.mpr (by decide)
  · exact (remaindersComplete_iff (-7) 10 (by decide)).2.mpr (by decide)

/-- Dividends below the divisor are their own remainders, but come back as zero and as the negative
number with the same lower half. -/
theorem not_remaindersComplete_large :
    ¬ Umoddi3Complete 0x100000000 0x200000000 ∧ ¬ Moddi3Complete 0x80000000 0x100000000 := by
  constructor
  · rw [umoddi3Complete_iff (by decide)]
    decide
  rw [moddi3Complete_iff (by decide)]
  decide

end Signed

end Pintos.Arithmetic
