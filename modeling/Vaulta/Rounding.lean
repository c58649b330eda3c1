import Mathlib.Data.Int.Log
import Mathlib.Data.Rat.Floor
import Mathlib.Tactic.FieldSimp
import Mathlib.Tactic.GCongr
import Mathlib.Tactic.Linarith
import Mathlib.Tactic.NormNum
import Mathlib.Tactic.Positivity

/-!
# Rounding to significant bits

A floating-point operation rounds the exact result to the nearest number of the format, and
to the even one of two that are equally near. The exponents are not bounded here.
-/

namespace Vaulta.Rounding

/-! ## Any format -/

/-- Rounding to the numbers of `F`: in order, and not at all where it is not needed. -/
structure Rounds {K : Type} [Preorder K] (F : Set K) (fl : K → K) : Prop where
  mono : Monotone fl
  mem : ∀ x, fl x ∈ F
  fixed : ∀ x ∈ F, fl x = x

namespace Rounds

variable {K : Type} [Preorder K] {F : Set K} {fl : K → K} {x y : K}

theorem ge (h : Rounds F fl) (hy : y ∈ F) (hle : y ≤ x) : y ≤ fl x :=
  h.fixed y hy ▸ h.mono hle

theorem le (h : Rounds F fl) (hy : y ∈ F) (hle : x ≤ y) : fl x ≤ y :=
  h.fixed y hy ▸ h.mono hle

end Rounds

/-! ## Integers -/

def nearest (q : ℚ) : ℤ :=
  if q - ⌊q⌋ < 1 / 2 then ⌊q⌋
  else if 1 / 2 < q - ⌊q⌋ then ⌊q⌋ + 1
  else if ⌊q⌋ % 2 = 0 then ⌊q⌋
  else ⌊q⌋ + 1

theorem floor_le_nearest (q : ℚ) : ⌊q⌋ ≤ nearest q := by
  unfold nearest
  split_ifs <;> omega

theorem nearest_le_floor (q : ℚ) : nearest q ≤ ⌊q⌋ + 1 := by
  unfold nearest
  split_ifs <;> omega

theorem nearest_intCast (n : ℤ) : nearest n = n := by
  have hfloor : ⌊(n : ℚ)⌋ = n := Int.floor_intCast n
  unfold nearest
  rw [hfloor, sub_self, if_pos (by norm_num)]

theorem nearest_error (q : ℚ) : |nearest q - q| ≤ 1 / 2 := by
  have hle := Int.floor_le q
  have hlt := Int.lt_floor_add_one q
  unfold nearest
  split_ifs with hdown hup heven
  · rw [abs_le]; constructor <;> linarith
  · push_cast; rw [abs_le]; constructor <;> linarith
  · rw [abs_le]; constructor <;> linarith
  · push_cast; rw [abs_le]; constructor <;> linarith

theorem nearest_mono {q r : ℚ} (hle : q ≤ r) : nearest q ≤ nearest r := by
  rcases (Int.floor_le_floor hle).lt_or_eq with hlt | heq
  · -- There is an integer between them.
    exact (nearest_le_floor q).trans ((Int.add_one_le_iff.2 hlt).trans (floor_le_nearest r))
  · unfold nearest
    rw [heq]
    split_ifs <;> first | omega | linarith

theorem nearest_neg (q : ℚ) : nearest (-q) = -nearest q := by
  -- Of two neighbours one is even, on both sides of zero.
  have hle := Int.floor_le q
  have hlt := Int.lt_floor_add_one q
  rcases hle.eq_or_lt with heq | hne
  · rw [← heq, nearest_intCast, ← Int.cast_neg, nearest_intCast]
  · have hfloor : ⌊-q⌋ = -⌊q⌋ - 1 := by
      rw [Int.floor_eq_iff]
      push_cast
      constructor <;> linarith
    unfold nearest
    rw [hfloor]
    push_cast
    split_ifs <;> first | omega | linarith

/-! ## Significant bits -/

/-- The numbers with `p` bits after the first one. -/
def Grid (p : ℕ) : Set ℚ := {x | ∃ n k : ℤ, |n| < 2 ^ (p + 1) ∧ x = n * 2 ^ k}

/-- The exponent of the last bit. -/
def last_bit (p : ℕ) (x : ℚ) : ℤ := Int.log 2 |x| - p

def fl (p : ℕ) (x : ℚ) : ℚ := nearest (x / 2 ^ last_bit p x) * 2 ^ last_bit p x

section Fl

variable {p : ℕ} {x y : ℚ} {n k : ℤ}

theorem int_mem_grid (h : |n| < 2 ^ (p + 1)) : (n : ℚ) ∈ Grid p := ⟨n, 0, h, by rw [zpow_zero, mul_one]⟩

theorem zero_mem_grid (p : ℕ) : (0 : ℚ) ∈ Grid p := ⟨0, 0, by simp, by simp⟩

theorem zpow_mem_grid (p : ℕ) (k : ℤ) : (2 : ℚ) ^ k ∈ Grid p :=
  ⟨1, k, by rw [abs_one]; exact one_lt_pow₀ (by norm_num) p.succ_ne_zero, by rw [Int.cast_one, one_mul]⟩

theorem neg_mem_grid (h : x ∈ Grid p) : -x ∈ Grid p := by
  obtain ⟨n, k, hn, rfl⟩ := h
  exact ⟨-n, k, by rwa [abs_neg], by rw [Int.cast_neg, neg_mul]⟩

theorem two_zpow_pos (k : ℤ) : (0 : ℚ) < 2 ^ k := zpow_pos two_pos k

theorem exists_finer (n : ℤ) {j : ℤ} (h : j ≤ k) : ∃ N : ℤ, (n * 2 ^ k : ℚ) = N * 2 ^ j := by
  -- What a coarser grid has, a finer one has too.
  refine ⟨n * 2 ^ (k - j).toNat, ?_⟩
  have hsplit : (2 : ℚ) ^ k = 2 ^ (k - j).toNat * 2 ^ j := by
    rw [← zpow_natCast, ← zpow_add₀ two_ne_zero, Int.toNat_of_nonneg (by omega), sub_add_cancel]
  rw [hsplit]
  push_cast
  ring

theorem fl_le (hk : last_bit p x ≤ k) (h : x ≤ n * 2 ^ k) : fl p x ≤ n * 2 ^ k := by
  obtain ⟨N, hN⟩ := exists_finer n hk
  have hpos := two_zpow_pos (last_bit p x)
  rw [hN] at h ⊢
  have hle : nearest (x / 2 ^ last_bit p x) ≤ N := by
    rw [← nearest_intCast N]
    exact nearest_mono ((div_le_iff₀ hpos).2 h)
  exact mul_le_mul_of_nonneg_right (by exact_mod_cast hle) hpos.le

theorem le_fl (hk : last_bit p x ≤ k) (h : n * 2 ^ k ≤ x) : n * 2 ^ k ≤ fl p x := by
  obtain ⟨N, hN⟩ := exists_finer n hk
  have hpos := two_zpow_pos (last_bit p x)
  rw [hN] at h ⊢
  have hle : N ≤ nearest (x / 2 ^ last_bit p x) := by
    rw [← nearest_intCast N]
    exact nearest_mono ((le_div_iff₀ hpos).2 h)
  exact mul_le_mul_of_nonneg_right (by exact_mod_cast hle) hpos.le

@[simp] theorem fl_zero : fl p 0 = 0 := by
  have hint := nearest_intCast 0
  rw [Int.cast_zero] at hint
  rw [fl, zero_div, hint, Int.cast_zero, zero_mul]

theorem fl_nonpos (h : x ≤ 0) : fl p x ≤ 0 := by
  simpa using fl_le (n := 0) (k := last_bit p x) le_rfl (by simpa using h)

theorem fl_nonneg (h : 0 ≤ x) : 0 ≤ fl p x := by
  simpa using le_fl (n := 0) (k := last_bit p x) le_rfl (by simpa using h)

theorem zpow_log_le (hx : x ≠ 0) : (2 : ℚ) ^ Int.log 2 |x| ≤ |x| := by
  exact_mod_cast Int.zpow_log_le_self (b := 2) one_lt_two (abs_pos.2 hx)

theorem lt_zpow_log (x : ℚ) : |x| < (2 : ℚ) ^ (Int.log 2 |x| + 1) := by
  exact_mod_cast Int.lt_zpow_succ_log_self (b := 2) one_lt_two |x|

theorem fl_mono_pos (hx : 0 < x) (hle : x ≤ y) : fl p x ≤ fl p y := by
  -- With a smaller exponent they are apart, and a power of two is between them.
  have hy := hx.trans_le hle
  rcases (Int.log_mono_right (b := 2) (abs_pos.2 hx.ne') (abs_le_abs_of_nonneg hx.le hle)).lt_or_eq with hlt | heq
  · have hbelow : x ≤ (1 : ℤ) * 2 ^ Int.log 2 |y| := by
      have hnext : (2 : ℚ) ^ (Int.log 2 |x| + 1) ≤ 2 ^ Int.log 2 |y| := zpow_le_zpow_right₀ one_le_two hlt
      have hup := lt_zpow_log x
      rw [abs_of_pos hx] at hup hnext
      rw [Int.cast_one, one_mul]
      exact hup.le.trans hnext
    have habove : (1 : ℤ) * 2 ^ Int.log 2 |y| ≤ y := by
      have hdown := zpow_log_le hy.ne'
      rw [Int.cast_one, one_mul]
      exact hdown.trans_eq (abs_of_pos hy)
    have hx' : last_bit p x ≤ Int.log 2 |y| := by unfold last_bit; omega
    have hy' : last_bit p y ≤ Int.log 2 |y| := by unfold last_bit; omega
    exact (fl_le hx' hbelow).trans (le_fl hy' habove)
  · have hpos := two_zpow_pos (last_bit p y)
    have hbit : last_bit p x = last_bit p y := by rw [last_bit, heq, last_bit]
    have hnear := nearest_mono ((div_le_div_iff_of_pos_right hpos).2 hle)
    rw [fl, fl, hbit]
    exact mul_le_mul_of_nonneg_right (by exact_mod_cast hnear) hpos.le

theorem fl_neg (p : ℕ) (x : ℚ) : fl p (-x) = -fl p x := by
  have hbit : last_bit p (-x) = last_bit p x := by rw [last_bit, abs_neg, last_bit]
  rw [fl, fl, hbit, neg_div, nearest_neg, Int.cast_neg, neg_mul]

theorem fl_mono (p : ℕ) : Monotone (fl p) := by
  intro x y hle
  rcases lt_trichotomy x 0 with hx | rfl | hx
  · rcases lt_or_ge y 0 with hy | hy
    · have h := fl_mono_pos (p := p) (neg_pos.2 hy) (neg_le_neg hle)
      rwa [fl_neg, fl_neg, neg_le_neg_iff] at h
    · exact (fl_nonpos hx.le).trans (fl_nonneg hy)
  · rw [fl_zero]
    exact fl_nonneg hle
  · exact fl_mono_pos hx hle

theorem fl_of_mem (h : x ∈ Grid p) : fl p x = x := by
  -- The exponent of a number of the grid is small enough for its own bits.
  obtain ⟨n, k, hn, rfl⟩ := h
  rcases eq_or_ne n 0 with rfl | hzero
  · rw [Int.cast_zero, zero_mul, fl_zero]
  · have hx : (n * 2 ^ k : ℚ) ≠ 0 := mul_ne_zero (Int.cast_ne_zero.2 hzero) (two_zpow_pos k).ne'
    have habs : |(n * 2 ^ k : ℚ)| < 2 ^ ((p : ℤ) + 1 + k) := by
      rw [abs_mul, abs_of_pos (two_zpow_pos k), zpow_add₀ two_ne_zero]
      refine mul_lt_mul_of_pos_right ?_ (two_zpow_pos k)
      exact_mod_cast hn
    have hlog : Int.log 2 |(n * 2 ^ k : ℚ)| < (p : ℤ) + 1 + k :=
      (zpow_lt_zpow_iff_right₀ one_lt_two).1 ((zpow_log_le hx).trans_lt habs)
    have hk : last_bit p (n * 2 ^ k : ℚ) ≤ k := by unfold last_bit; omega
    exact le_antisymm (fl_le hk le_rfl) (le_fl hk le_rfl)

theorem fl_mem (p : ℕ) (x : ℚ) : fl p x ∈ Grid p := by
  have hscaled : |x / 2 ^ last_bit p x| ≤ (2 ^ (p + 1) : ℤ) := by
    rw [abs_div, abs_of_pos (two_zpow_pos _), div_le_iff₀ (two_zpow_pos _)]
    refine (lt_zpow_log x).le.trans_eq ?_
    have hsum : Int.log 2 |x| + 1 = ((p + 1 : ℕ) : ℤ) + last_bit p x := by unfold last_bit; push_cast; ring
    rw [hsum, zpow_add₀ two_ne_zero, zpow_natCast]
    push_cast
    rfl
  obtain ⟨hlo, hhi⟩ := abs_le.1 hscaled
  have hlo' := nearest_mono hlo
  have hhi' := nearest_mono hhi
  rw [← Int.cast_neg, nearest_intCast] at hlo'
  rw [nearest_intCast] at hhi'
  rcases (abs_le.2 ⟨hlo', hhi'⟩).lt_or_eq with hlt | heq
  · exact ⟨_, _, hlt, rfl⟩
  · -- It has been rounded to the next power of two.
    have hpow : (2 : ℚ) ^ ((p + 1 : ℕ) : ℤ) * 2 ^ last_bit p x ∈ Grid p := by
      rw [← zpow_add₀ two_ne_zero]
      exact zpow_mem_grid p _
    rw [zpow_natCast] at hpow
    unfold fl
    rcases (abs_eq (by positivity)).1 heq with hn | hn
    · rw [hn]
      push_cast
      exact hpow
    · rw [hn]
      push_cast
      rw [neg_mul]
      exact neg_mem_grid hpow

theorem rounds (p : ℕ) : Rounds (Grid p) (fl p) := ⟨fl_mono p, fl_mem p, fun _ => fl_of_mem⟩

theorem fl_error (p : ℕ) (x : ℚ) : |fl p x - x| ≤ |x| / 2 ^ (p + 1) := by
  rcases eq_or_ne x 0 with rfl | hx
  · simp
  · have hpos := two_zpow_pos (last_bit p x)
    have hbit : (2 : ℚ) ^ last_bit p x ≤ |x| / 2 ^ p := by
      rw [le_div_iff₀ (by positivity), ← zpow_natCast, ← zpow_add₀ two_ne_zero, last_bit, sub_add_cancel]
      exact zpow_log_le hx
    have hsplit : fl p x - x = (nearest (x / 2 ^ last_bit p x) - x / 2 ^ last_bit p x) * 2 ^ last_bit p x := by
      rw [sub_mul, div_mul_cancel₀ _ hpos.ne', fl]
    calc |fl p x - x| = |nearest (x / 2 ^ last_bit p x) - x / 2 ^ last_bit p x| * 2 ^ last_bit p x := by
          rw [hsplit, abs_mul, abs_of_pos hpos]
      _ ≤ 1 / 2 * (|x| / 2 ^ p) := mul_le_mul (nearest_error _) hbit hpos.le (by norm_num)
      _ = |x| / 2 ^ (p + 1) := by rw [pow_succ]; ring

theorem fl_le_mul (p : ℕ) (hx : 0 ≤ x) : fl p x ≤ x * (1 + 1 / 2 ^ (p + 1)) := by
  have herror := (abs_le.1 (fl_error p x)).2
  rw [abs_of_nonneg hx] at herror
  calc fl p x ≤ x + x / 2 ^ (p + 1) := by linarith
    _ = x * (1 + 1 / 2 ^ (p + 1)) := by ring

theorem mul_le_fl (p : ℕ) (hx : 0 ≤ x) : x * (1 - 1 / 2 ^ (p + 1)) ≤ fl p x := by
  have herror := (abs_le.1 (fl_error p x)).1
  rw [abs_of_nonneg hx] at herror
  calc x * (1 - 1 / 2 ^ (p + 1)) = x - x / 2 ^ (p + 1) := by ring
    _ ≤ fl p x := by linarith

end Fl

/-! ## Truncation -/

/-- Towards zero. -/
def trunc (x : ℚ) : ℤ := if 0 ≤ x then ⌊x⌋ else ⌈x⌉

theorem trunc_of_nonneg {x : ℚ} (hx : 0 ≤ x) : trunc x = ⌊x⌋ := if_pos hx

theorem trunc_nonneg {x : ℚ} (hx : 0 ≤ x) : 0 ≤ trunc x := by
  rw [trunc_of_nonneg hx]
  exact Int.floor_nonneg.2 hx

theorem trunc_nonpos {x : ℚ} (hx : x ≤ 0) : trunc x ≤ 0 := by
  unfold trunc
  split_ifs with h
  · rw [le_antisymm hx h, Int.floor_zero]
  · exact Int.ceil_le.2 (by exact_mod_cast hx)

theorem trunc_mono {x y : ℚ} (hle : x ≤ y) : trunc x ≤ trunc y := by
  rcases le_or_gt 0 x with hx | hx
  · rw [trunc_of_nonneg hx, trunc_of_nonneg (hx.trans hle)]
    exact Int.floor_le_floor hle
  · rcases le_or_gt 0 y with hy | hy
    · exact (trunc_nonpos hx.le).trans (trunc_nonneg hy)
    · rw [trunc, if_neg (not_le.2 hx), trunc, if_neg (not_le.2 hy)]
      exact Int.ceil_le_ceil hle

end Vaulta.Rounding
