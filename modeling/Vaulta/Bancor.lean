import Vaulta.Rounding

/-!
# The price of RAM

The RAM market holds a reserve of RAM and a reserve of EOS, and computes with doubles what
one side costs in the other. The contract computes the same price before `eosio` does.
-/

namespace Vaulta.Bancor

/-! ## Doubles -/

/-- The nearest double. -/
def double (x : ℚ) : ℚ := Rounding.fl 52 x

def of_int64 (n : Int64) : ℚ := double n.toInt

/-- The conversion fails where there is no such integer. -/
def to_int64 (x : ℚ) : Option Int64 :=
  if -2 ^ 63 ≤ Rounding.trunc x ∧ Rounding.trunc x < 2 ^ 63 then some (Int64.ofInt (Rounding.trunc x)) else none

/-- A quotient that is converted. With a zero there is no number to convert. -/
def quotient (x y : ℚ) : Option Int64 := if y = 0 then none else to_int64 (double (x / y))

def of_uint64 (n : UInt64) : ℚ := double n.toNat

def quotient_unsigned (x y : ℚ) : Option UInt64 :=
  if y = 0 then none
  else
    let n := Rounding.trunc (double (x / y))
    if 0 ≤ n ∧ n < 2 ^ 64 then some (UInt64.ofNat n.toNat) else none

/-! ## The market -/

def get_bancor_input (out_reserve inp_reserve out : Int64) : Option Int64 := do
  let ob := of_int64 out_reserve
  let ib := of_int64 inp_reserve
  let inp ← quotient (double (ib * of_int64 out)) (double (ob - of_int64 out))
  return if inp < 0 then 0 else inp

def get_bancor_output (inp_reserve out_reserve inp : Int64) : Option Int64 := do
  let ib := of_int64 inp_reserve
  let ob := of_int64 out_reserve
  let out ← quotient (double (of_int64 inp * ob)) (double (ib + of_int64 inp))
  return if out < 0 then 0 else out

/-- What `buyrambytes` charges on top of the cost. -/
def cost_plus_fee (cost : Int64) : Option Int64 := quotient (of_int64 cost) (double 0.995)

/-- What is charged for `bytes` where the reserves are these. -/
def quote (ram_reserve eos_reserve : Int64) (bytes : UInt32) : Option Int64 := do
  let cost ← get_bancor_input ram_reserve eos_reserve (Int64.ofInt bytes.toNat)
  cost_plus_fee cost

example : quote 85450299267 223190417222 1000 = some 2624 := by decide +kernel

section Doubles

variable {x x' y y' : ℚ} {n m : Int64}

theorem double_rounds : Rounding.Rounds (Rounding.Grid 52) double := Rounding.rounds 52

theorem double_mono : Monotone double := double_rounds.mono

theorem double_nonneg (hx : 0 ≤ x) : 0 ≤ double x := double_rounds.ge (Rounding.zero_mem_grid 52) hx

theorem double_nonpos (hx : x ≤ 0) : double x ≤ 0 := double_rounds.le (Rounding.zero_mem_grid 52) hx

theorem of_int64_mono (h : n.toInt ≤ m.toInt) : of_int64 n ≤ of_int64 m := double_mono (by exact_mod_cast h)

theorem of_int64_nonneg (h : 0 ≤ n.toInt) : 0 ≤ of_int64 n := double_nonneg (by exact_mod_cast h)

theorem of_int64_exact (h : |n.toInt| < 2 ^ 53) : of_int64 n = n.toInt :=
  double_rounds.fixed _ (Rounding.int_mem_grid h)

theorem to_int64_eq_some : to_int64 x = some n ↔ Rounding.trunc x = n.toInt := by
  unfold to_int64
  constructor
  · intro h
    split_ifs at h with hrange
    obtain rfl := Option.some.inj h
    exact (Int64.toInt_ofInt_of_le hrange.1 hrange.2).symm
  · intro h
    rw [h, if_pos ⟨n.le_toInt, n.toInt_lt⟩, Int64.ofInt_toInt]

theorem quotient_eq_some : quotient x y = some n ↔ y ≠ 0 ∧ Rounding.trunc (double (x / y)) = n.toInt := by
  unfold quotient
  split_ifs with hy
  · simp [hy]
  · rw [to_int64_eq_some]
    exact ⟨fun h => ⟨hy, h⟩, fun h => h.2⟩

theorem quotient_mono (hx : 0 ≤ x) (hxx : x ≤ x') (hy : 0 ≤ y') (hyy : y' ≤ y) (h : quotient x' y' = some m) :
    ∃ n, quotient x y = some n ∧ 0 ≤ n.toInt ∧ n.toInt ≤ m.toInt := by
  obtain ⟨hne, htrunc⟩ := quotient_eq_some.1 h
  have hy' := lt_of_le_of_ne hy (Ne.symm hne)
  have hnonneg := Rounding.trunc_nonneg (double_nonneg (div_nonneg hx (hy.trans hyy)))
  have hle := Rounding.trunc_mono (double_mono (div_le_div₀ (hx.trans hxx) hxx hy' hyy))
  rw [htrunc] at hle
  have hlt := m.toInt_lt
  have hint := Int64.toInt_ofInt_of_le (le_trans (by norm_num) hnonneg) (hle.trans_lt hlt)
  exact ⟨_, quotient_eq_some.2 ⟨(hy'.trans_le hyy).ne', hint.symm⟩, hnonneg.trans_eq hint.symm, hint.le.trans hle⟩

end Doubles

section Market

variable {R R' E E' b b' n n' : Int64}

theorem neg_iff : n < 0 ↔ n.toInt < 0 := by rw [Int64.lt_iff_toInt_lt, Int64.toInt_zero]

theorem get_bancor_input_nonneg (h : get_bancor_input R E b = some n) : 0 ≤ n.toInt := by
  simp only [get_bancor_input, Option.bind_eq_bind, Option.bind_eq_some_iff, Option.pure_def, Option.some.injEq] at h
  obtain ⟨inp, -, rfl⟩ := h
  split_ifs with hneg
  · exact le_rfl
  · rwa [neg_iff, not_lt] at hneg

theorem get_bancor_input_eq (hE : 0 ≤ E.toInt) (hb : 0 ≤ b.toInt) (hle : b.toInt ≤ R.toInt) :
    get_bancor_input R E b =
      quotient (double (of_int64 E * of_int64 b)) (double (of_int64 R - of_int64 b)) := by
  have hx := double_nonneg (mul_nonneg (of_int64_nonneg hE) (of_int64_nonneg hb))
  have hy := double_nonneg (sub_nonneg.2 (of_int64_mono hle))
  simp only [get_bancor_input, Option.bind_eq_bind, Option.pure_def]
  cases hq : quotient (double (of_int64 E * of_int64 b)) (double (of_int64 R - of_int64 b)) with
  | none => rfl
  | some n =>
    have hn := (quotient_eq_some.1 hq).2 ▸ Rounding.trunc_nonneg (double_nonneg (div_nonneg hx hy))
    rw [Option.bind_some, if_neg (not_lt.2 hn ∘ neg_iff.1)]

theorem get_bancor_input_above (hE : 0 ≤ E.toInt) (hb : 0 ≤ b.toInt) (hlt : R.toInt < b.toInt)
    (h : get_bancor_input R E b = some n) : n.toInt = 0 := by
  simp only [get_bancor_input, Option.bind_eq_bind, Option.bind_eq_some_iff, Option.pure_def, Option.some.injEq] at h
  obtain ⟨inp, hinp, rfl⟩ := h
  have hx := double_nonneg (mul_nonneg (of_int64_nonneg hE) (of_int64_nonneg hb))
  have hy := double_nonpos (sub_nonpos.2 (of_int64_mono hlt.le))
  have htrunc := Rounding.trunc_nonpos (double_nonpos (div_nonpos_of_nonneg_of_nonpos hx hy))
  rw [(quotient_eq_some.1 hinp).2] at htrunc
  split_ifs with hneg
  · rfl
  · rw [neg_iff, not_lt] at hneg
    exact le_antisymm htrunc hneg

theorem get_bancor_output_eq (hE : 0 ≤ E.toInt) (hb : 0 ≤ b.toInt) (hR : 0 ≤ R.toInt) :
    get_bancor_output R E b =
      quotient (double (of_int64 E * of_int64 b)) (double (of_int64 R + of_int64 b)) := by
  have hx := double_nonneg (mul_nonneg (of_int64_nonneg hb) (of_int64_nonneg hE))
  have hy := double_nonneg (add_nonneg (of_int64_nonneg hR) (of_int64_nonneg hb))
  simp only [get_bancor_output, Option.bind_eq_bind, Option.pure_def]
  rw [mul_comm (of_int64 E)]
  cases hq : quotient (double (of_int64 b * of_int64 E)) (double (of_int64 R + of_int64 b)) with
  | none => rfl
  | some n =>
    have hn := (quotient_eq_some.1 hq).2 ▸ Rounding.trunc_nonneg (double_nonneg (div_nonneg hx hy))
    rw [Option.bind_some, if_neg (not_lt.2 hn ∘ neg_iff.1)]

/-! ### Order -/

theorem get_bancor_input_mono (hE : 0 ≤ E.toInt) (hb : 0 ≤ b.toInt) (hRR : R'.toInt ≤ R.toInt)
    (hEE : E.toInt ≤ E'.toInt) (hbb : b.toInt ≤ b'.toInt) (hlt : b'.toInt ≤ R'.toInt)
    (h : get_bancor_input R' E' b' = some n') :
    ∃ n, get_bancor_input R E b = some n ∧ 0 ≤ n.toInt ∧ n.toInt ≤ n'.toInt := by
  rw [get_bancor_input_eq (hE.trans hEE) (hb.trans hbb) hlt] at h
  rw [get_bancor_input_eq hE hb (hbb.trans (hlt.trans hRR))]
  refine quotient_mono ?_ (double_mono ?_) ?_ (double_mono ?_) h
  · exact double_nonneg (mul_nonneg (of_int64_nonneg hE) (of_int64_nonneg hb))
  · exact mul_le_mul (of_int64_mono hEE) (of_int64_mono hbb) (of_int64_nonneg hb) (of_int64_nonneg (hE.trans hEE))
  · exact double_nonneg (sub_nonneg.2 (of_int64_mono hlt))
  · exact sub_le_sub (of_int64_mono hRR) (of_int64_mono hbb)

theorem get_bancor_output_le_input (hE : 0 ≤ E.toInt) (hb : 0 ≤ b.toInt) (hle : b.toInt ≤ R.toInt)
    (h : get_bancor_input R E b = some n) :
    ∃ n', get_bancor_output R E b = some n' ∧ 0 ≤ n'.toInt ∧ n'.toInt ≤ n.toInt := by
  -- Both have the same numerator.
  rw [get_bancor_input_eq hE hb hle] at h
  rw [get_bancor_output_eq hE hb (hb.trans hle)]
  have hb' := of_int64_nonneg hb
  refine quotient_mono ?_ le_rfl ?_ (double_mono ?_) h
  · exact double_nonneg (mul_nonneg (of_int64_nonneg hE) hb')
  · exact double_nonneg (sub_nonneg.2 (of_int64_mono hle))
  · linarith

theorem fee_pos : 0 < double 0.995 := by decide +kernel

theorem cost_plus_fee_mono (hn : 0 ≤ n.toInt) (hnn : n.toInt ≤ n'.toInt) {q' : Int64}
    (h : cost_plus_fee n' = some q') : ∃ q, cost_plus_fee n = some q ∧ 0 ≤ q.toInt ∧ q.toInt ≤ q'.toInt :=
  quotient_mono (of_int64_nonneg hn) (of_int64_mono hnn) fee_pos.le le_rfl h

theorem toInt_ofInt_toNat (bytes : UInt32) : (Int64.ofInt bytes.toNat).toInt = bytes.toNat := by
  have hlt := bytes.toNat_lt
  exact Int64.toInt_ofInt_of_le (by omega) (by omega)

theorem quote_eq_some {bytes : UInt32} {q : Int64} : quote R E bytes = some q ↔
    ∃ cost, get_bancor_input R E (Int64.ofInt bytes.toNat) = some cost ∧ cost_plus_fee cost = some q := by
  simp only [quote, Option.bind_eq_bind, Option.bind_eq_some_iff]

/-- The contract would sell the reserve, and more, for nothing. -/
theorem quote_above {bytes : UInt32} {q : Int64} (hE : 0 ≤ E.toInt) (hlt : R.toInt < bytes.toNat)
    (h : quote R E bytes = some q) : q.toInt = 0 := by
  obtain ⟨cost, hcost, hfee⟩ := quote_eq_some.1 h
  have hzero := get_bancor_input_above hE (by rw [toInt_ofInt_toNat]; omega) (by rw [toInt_ofInt_toNat]; omega) hcost
  obtain rfl : cost = 0 := Int64.toInt_inj.1 (hzero.trans Int64.toInt_zero.symm)
  obtain rfl : q = 0 := Option.some.inj (hfee.symm.trans (by decide +kernel))
  rfl

/-- **More never costs less.** As long as the reserve of EOS is not negative and that of RAM
not used up: where a quote can be computed, one for fewer bytes, in a market with more RAM or
with less EOS, can be computed too, and it is not higher. No such quote is negative. -/
theorem quote_monotone {bytes bytes' : UInt32} {q' : Int64} (hE : 0 ≤ E.toInt) (hEE : E.toInt ≤ E'.toInt)
    (hRR : R'.toInt ≤ R.toInt) (hbb : bytes ≤ bytes') (hlt : bytes'.toNat ≤ R'.toInt)
    (h : quote R' E' bytes' = some q') :
    ∃ q, quote R E bytes = some q ∧ 0 ≤ q.toInt ∧ q.toInt ≤ q'.toInt := by
  obtain ⟨cost', hcost', hq'⟩ := quote_eq_some.1 h
  have hle := UInt32.le_iff_toNat_le.1 hbb
  obtain ⟨cost, hcost, hnonneg, hcosts⟩ := get_bancor_input_mono (b := Int64.ofInt bytes.toNat) hE
    (by rw [toInt_ofInt_toNat]; omega) hRR hEE (by rw [toInt_ofInt_toNat, toInt_ofInt_toNat]; omega)
    (by rw [toInt_ofInt_toNat]; omega) hcost'
  obtain ⟨q, hq, hbounds⟩ := cost_plus_fee_mono hnonneg hcosts hq'
  exact ⟨q, quote_eq_some.2 ⟨cost, hcost, hq⟩, hbounds⟩

theorem quote_monotone_twice : ∃ q, quote 85450299267 223190417222 500 = some q ∧ q.toInt ≤ 2624 := by
  have hquote : quote 85450299267 223190417222 1000 = some 2624 := by decide +kernel
  have hle : (500 : UInt32) ≤ 1000 := by decide
  obtain ⟨q, hq, -, hle⟩ := quote_monotone (R := 85450299267) (by decide) le_rfl le_rfl hle (by decide) hquote
  exact ⟨q, hq, hle⟩

/-! ### Accuracy -/

/-- Within a part `ε` of it. -/
def Near (ε v x : ℚ) : Prop := x * (1 - ε) ≤ v ∧ v ≤ x * (1 + ε)

theorem Near.refl (x : ℚ) : Near 0 x x := by constructor <;> linarith

theorem Near.div {ε v x y : ℚ} (h : Near ε v x) (hy : 0 < y) : Near ε (v / y) (x / y) := by
  constructor
  · rw [div_mul_eq_mul_div]
    exact div_le_div_of_nonneg_right h.1 hy.le
  · rw [div_mul_eq_mul_div]
    exact div_le_div_of_nonneg_right h.2 hy.le

theorem Near.double {ε v x : ℚ} (h : Near ε v x) (hx : 0 ≤ x) (hε : 0 ≤ ε) (hε' : ε ≤ 1) :
    Near (ε + 1 / 2 ^ 52) (Bancor.double v) x := by
  have hv : 0 ≤ v := (mul_nonneg hx (by linarith)).trans h.1
  have hup := Rounding.fl_le_mul 52 hv
  have hdown := Rounding.mul_le_fl 52 hv
  have hxε := mul_le_of_le_one_right hx hε'
  have hxε' := mul_nonneg hx hε
  obtain ⟨hlo, hhi⟩ := h
  constructor
  · refine le_trans ?_ hdown
    norm_num at *
    nlinarith
  · refine hup.trans ?_
    norm_num at *
    nlinarith

theorem to_int64_floor {x : ℚ} (hx : 0 ≤ x) (hlt : x < 2 ^ 63) : ∃ n, to_int64 x = some n ∧ n.toInt = ⌊x⌋ := by
  have hfloor : ⌊x⌋ < 2 ^ 63 := Int.floor_lt.2 (by exact_mod_cast hlt)
  have hint := Int64.toInt_ofInt_of_le (le_trans (by norm_num) (Int.floor_nonneg.2 hx)) hfloor
  exact ⟨_, to_int64_eq_some.2 (by rw [Rounding.trunc_of_nonneg hx, hint]), hint⟩

/-- The price by the rule of the market, without rounding and without the fee. -/
def price (R E : Int64) (bytes : UInt32) : ℚ := E.toInt * bytes.toNat / (R.toInt - bytes.toNat)

variable {bytes : UInt32}

theorem price_nonneg (hE : 0 ≤ E.toInt) (hlt : bytes.toNat < R.toInt) : 0 ≤ price R E bytes := by
  have hE' : (0 : ℚ) ≤ E.toInt := by exact_mod_cast hE
  have hlt' : (bytes.toNat : ℚ) < R.toInt := by exact_mod_cast hlt
  exact div_nonneg (mul_nonneg hE' (Nat.cast_nonneg _)) (sub_nonneg.2 hlt'.le)

theorem get_bancor_input_near (hE : 0 ≤ E.toInt) (hE' : E.toInt < 2 ^ 53) (hR : R.toInt < 2 ^ 53)
    (hlt : bytes.toNat < R.toInt) : ∃ v, get_bancor_input R E (Int64.ofInt bytes.toNat) = to_int64 v ∧
      Near (2 / 2 ^ 52) v (price R E bytes) := by
  have hb := toInt_ofInt_toNat bytes
  have hsmall := bytes.toNat_lt
  have hlt' : (bytes.toNat : ℚ) < R.toInt := by exact_mod_cast hlt
  have hpos := sub_pos.2 hlt'
  have hprice := price_nonneg hE hlt
  have hprod : (0 : ℚ) ≤ E.toInt * bytes.toNat := mul_nonneg (by exact_mod_cast hE) (Nat.cast_nonneg _)
  -- The reserves and their difference are doubles.
  have hEd : of_int64 E = E.toInt := of_int64_exact (by rw [abs_lt]; omega)
  have hRd : of_int64 R = R.toInt := of_int64_exact (by rw [abs_lt]; omega)
  have hbd : of_int64 (Int64.ofInt bytes.toNat) = bytes.toNat := by
    rw [of_int64_exact (by rw [hb, abs_lt]; omega), hb, Int.cast_natCast]
  have hdiff : double (R.toInt - bytes.toNat) = R.toInt - bytes.toNat := by
    have hmem : ((R.toInt - bytes.toNat : ℤ) : ℚ) ∈ Rounding.Grid 52 := Rounding.int_mem_grid (by rw [abs_lt]; omega)
    push_cast at hmem
    exact double_rounds.fixed _ hmem
  refine ⟨double (double (E.toInt * bytes.toNat) / (R.toInt - bytes.toNat)), ?_, ?_⟩
  · rw [get_bancor_input_eq hE (by omega) (by omega), hEd, hRd, hbd, hdiff, quotient, if_neg hpos.ne']
  · have hnear := (((Near.refl _).double hprod le_rfl zero_le_one).div hpos).double hprice (by norm_num) (by norm_num)
    norm_num at hnear ⊢
    exact hnear

theorem fee_le : double 0.995 ≤ 0.995 := by decide +kernel

theorem le_fee : 0.995 * (1 - 1 / 2 ^ 53) ≤ double 0.995 := by decide +kernel

theorem cost_plus_fee_near (hn : 0 ≤ n.toInt) : ∃ v, cost_plus_fee n = to_int64 v ∧ 0 ≤ v ∧
    n.toInt * (1 - 2 / 2 ^ 52) ≤ 0.995 * v ∧ 0.995 * v ≤ n.toInt * (1 + 3 / 2 ^ 52) := by
  have hn' : (0 : ℚ) ≤ n.toInt := by exact_mod_cast hn
  have hfee := fee_pos
  have hle := fee_le
  have hge := le_fee
  have hv := double_nonneg (div_nonneg (of_int64_nonneg hn) hfee.le)
  have hnear := (((Near.refl _).double hn' le_rfl zero_le_one).div hfee).double (div_nonneg hn' hfee.le)
    (by norm_num) (by norm_num)
  refine ⟨double (of_int64 n / double 0.995), by rw [cost_plus_fee, quotient, if_neg hfee.ne'], hv, ?_⟩
  obtain ⟨hlo, hhi⟩ := hnear
  change _ ≤ double (of_int64 n / double 0.995) at hlo
  change double (of_int64 n / double 0.995) ≤ _ at hhi
  rw [div_mul_eq_mul_div, div_le_iff₀ hfee] at hlo
  rw [div_mul_eq_mul_div, le_div_iff₀ hfee] at hhi
  have hupper := mul_le_mul_of_nonneg_left hle hv
  have hlower := mul_le_mul_of_nonneg_left hge hv
  generalize double (of_int64 n / double 0.995) = v at *
  norm_num at *
  constructor <;> linarith

theorem to_int64_near {v : ℚ} (hv : 0 ≤ v) (h : to_int64 v = some n) : v - 1 < n.toInt ∧ n.toInt ≤ v := by
  have htrunc := to_int64_eq_some.1 h
  rw [Rounding.trunc_of_nonneg hv] at htrunc
  rw [← htrunc]
  exact ⟨by linarith [Int.lt_floor_add_one v], Int.floor_le v⟩

theorem Near.nonneg {ε v x : ℚ} (h : Near ε v x) (hx : 0 ≤ x) (hε : ε ≤ 1) : 0 ≤ v :=
  (mul_nonneg hx (by linarith)).trans h.1

theorem cost_le_cost_plus_fee {q : Int64} (hn : 0 ≤ n.toInt) (h : cost_plus_fee n = some q) : n.toInt ≤ q.toInt := by
  have hn' : (0 : ℚ) ≤ n.toInt := by exact_mod_cast hn
  obtain ⟨v, hfee, hv, hlo, -⟩ := cost_plus_fee_near hn
  have htrunc := to_int64_eq_some.1 (hfee ▸ h)
  rw [Rounding.trunc_of_nonneg hv] at htrunc
  rw [← htrunc]
  refine Int.le_floor.2 ?_
  norm_num at hlo
  linarith

/-- **The quote is the market's price.** With reserves below 2^53, that of EOS not negative and
that of RAM larger than what is bought, what is quoted differs from the exact price, and a fee
of 0.5% of it all, by no more than 2 units and a 2^-49th part of the price. Where nothing can
be quoted, the price is above 2^62. -/
theorem quote_accurate (hE : 0 ≤ E.toInt) (hE' : E.toInt < 2 ^ 53) (hR : R.toInt < 2 ^ 53)
    (hlt : bytes.toNat < R.toInt) :
    (∀ q, quote R E bytes = some q → price R E bytes * (1 - 1 / 2 ^ 49) - 2 < 0.995 * q.toInt ∧
      0.995 * q.toInt ≤ price R E bytes * (1 + 1 / 2 ^ 49)) ∧
    (quote R E bytes = none → 2 ^ 62 < price R E bytes) := by
  obtain ⟨v, hinput, hnear⟩ := get_bancor_input_near hE hE' hR hlt
  have hprice := price_nonneg hE hlt
  have hv := hnear.nonneg hprice (by norm_num)
  obtain ⟨hlo, hhi⟩ := hnear
  refine ⟨fun q hq => ?_, fun hnone => ?_⟩
  · obtain ⟨cost, hcost, hfee⟩ := quote_eq_some.1 hq
    obtain ⟨w, hw, hw', hwlo, hwhi⟩ := cost_plus_fee_near (get_bancor_input_nonneg hcost)
    obtain ⟨hclo, hchi⟩ := to_int64_near hv (hinput ▸ hcost)
    obtain ⟨hqlo, hqhi⟩ := to_int64_near hw' (hw ▸ hfee)
    norm_num at *
    constructor <;> linarith
  · by_contra hle
    rw [not_lt] at hle
    have hlt' : v < 2 ^ 63 := by
      norm_num at *
      linarith
    obtain ⟨cost, hcost, -⟩ := to_int64_floor hv hlt'
    rw [← hinput] at hcost
    obtain ⟨w, hw, hw', -, hwhi⟩ := cost_plus_fee_near (get_bancor_input_nonneg hcost)
    have hchi := (to_int64_near hv (hinput ▸ hcost)).2
    have hwlt : w < 2 ^ 63 := by
      norm_num at *
      linarith
    obtain ⟨q, hq, -⟩ := to_int64_floor hw' hwlt
    have hsome := quote_eq_some.2 ⟨cost, hcost, hw.trans hq⟩
    rw [hnone] at hsome
    cases hsome

theorem quote_accurate_thousand : ∃ q, quote 85450299267 223190417222 1000 = some q ∧
    0.995 * q.toInt ≤ price 85450299267 223190417222 1000 * (1 + 1 / 2 ^ 49) :=
  ⟨2624, by decide +kernel, ((quote_accurate (by decide) (by decide) (by decide) (by decide)).1 2624
    (by decide +kernel)).2⟩

/-- **Nothing is gained by buying and selling.** Where the reserve of EOS is not negative and
that of RAM not used up, what a market pays for some RAM is never more than the cost of the
same RAM on that market, nor is the cost more than the quote. -/
theorem sell_le_buy {q : Int64} (hE : 0 ≤ E.toInt) (hle : bytes.toNat ≤ R.toInt) (h : quote R E bytes = some q) :
    ∃ cost out, get_bancor_input R E (Int64.ofInt bytes.toNat) = some cost ∧
      get_bancor_output R E (Int64.ofInt bytes.toNat) = some out ∧
      0 ≤ out.toInt ∧ out.toInt ≤ cost.toInt ∧ cost.toInt ≤ q.toInt := by
  obtain ⟨cost, hcost, hfee⟩ := quote_eq_some.1 h
  obtain ⟨out, hout, hnonneg, hcosts⟩ := get_bancor_output_le_input hE (by rw [toInt_ofInt_toNat]; omega)
    (by rw [toInt_ofInt_toNat]; omega) hcost
  exact ⟨cost, out, hcost, hout, hnonneg, hcosts, cost_le_cost_plus_fee (get_bancor_input_nonneg hcost) hfee⟩

theorem sell_le_buy_thousand : ∃ out, get_bancor_output 85450299267 223190417222 1000 = some out ∧
    out.toInt ≤ 2624 := by
  have hquote : quote 85450299267 223190417222 1000 = some 2624 := by decide +kernel
  obtain ⟨cost, out, -, hout, -, hcosts, hfee⟩ := sell_le_buy (by decide) (by decide) hquote
  exact ⟨out, hout, hcosts.trans hfee⟩

end Market

end Vaulta.Bancor
