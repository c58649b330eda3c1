import Mathlib.Algebra.BigOperators.Group.Finset.Piecewise
import Mathlib.Algebra.Order.BigOperators.Group.Finset
import Vaulta.Chain

/-!
# Ledgers

What is left of a token when nobody asks who pays for its rows: the balances of its
owners, with a debit and a credit. Both token contracts compute these.
-/

namespace Vaulta

/-! ## Integer balances -/

section Amounts

variable {ι : Type}

theorem single_le_total [Fintype ι] {f : ι → Int} (h : ∀ w, 0 ≤ f w) (u : ι) : f u ≤ ∑ w, f w :=
  Finset.single_le_sum (fun w _ => h w) (Finset.mem_univ u)

variable [DecidableEq ι]

def gained (f : ι → Int) (u : ι) (q : Int) : ι → Int := fun w => f w + if w = u then q else 0

@[simp] theorem gained_self (f : ι → Int) (u : ι) (q : Int) : gained f u q u = f u + q := by
  simp [gained]

theorem gained_ne (f : ι → Int) {u w : ι} (q : Int) (h : w ≠ u) : gained f u q w = f w := by
  simp [gained, h]

theorem gained_zero (f : ι → Int) (u : ι) : gained f u 0 = f := by
  funext w
  simp [gained]

theorem sum_gained [Fintype ι] (f : ι → Int) (u : ι) (q : Int) :
    ∑ w, gained f u q w = ∑ w, f w + q := by
  simp [gained, Finset.sum_add_distrib]

theorem pair_le_total [Fintype ι] {f : ι → Int} (h : ∀ w, 0 ≤ f w) {u v : ι} (hne : u ≠ v) :
    f u + f v ≤ ∑ w, f w := by
  rw [← Finset.sum_pair hne]
  exact Finset.sum_le_sum_of_subset_of_nonneg (Finset.subset_univ _) fun w _ _ => h w

def moved (f : ι → Int) (u w : ι) (q : Int) : ι → Int := gained (gained f u (-q)) w q

theorem moved_apply (f : ι → Int) (u w : ι) (q : Int) (v : ι) :
    moved f u w q v = f v - (if v = u then q else 0) + if v = w then q else 0 := by
  simp only [moved, gained]
  split <;> simp [sub_eq_add_neg]

theorem moved_sender (f : ι → Int) {u w : ι} (hne : u ≠ w) (q : Int) : moved f u w q u = f u - q := by
  rw [moved_apply, if_pos rfl, if_neg hne, add_zero]

theorem moved_recipient (f : ι → Int) {u w : ι} (hne : u ≠ w) (q : Int) : moved f u w q w = f w + q := by
  rw [moved_apply, if_neg (Ne.symm hne), if_pos rfl, sub_zero]

theorem moved_zero (f : ι → Int) (u w : ι) : moved f u w 0 = f := by
  rw [moved, neg_zero, gained_zero, gained_zero]

theorem moved_neg (f : ι → Int) (u w : ι) (q : Int) : moved f u w (-q) = moved f w u q := by
  funext v
  simp only [moved_apply]
  split <;> split <;> omega

theorem moved_moved (f : ι → Int) (u v w : ι) (q : Int) : moved (moved f u v q) v w q = moved f u w q := by
  funext x
  simp only [moved_apply]
  omega

theorem le_moved {f : ι → Int} {u v w : ι} {q : Int} (hne : v ≠ u) (hq : 0 ≤ q) : f v ≤ moved f u w q v := by
  rw [moved_apply, if_neg hne]
  split <;> omega

theorem moved_le {f : ι → Int} {u v w : ι} {q : Int} (hne : v ≠ w) (hq : 0 ≤ q) : moved f u w q v ≤ f v := by
  rw [moved_apply, if_neg hne]
  split <;> omega

end Amounts

/-- What there is of ticker `k` in an asset. -/
def Asset.of (a : Asset) (k : SymbolCode) : Int := if k = a.symbol.code then a.val else 0

@[simp] theorem Asset.of_self (a : Asset) : a.of a.symbol.code = a.val := if_pos rfl

theorem Asset.of_nonneg {a : Asset} (h : 0 ≤ a.val) (k : SymbolCode) : 0 ≤ a.of k := by
  unfold Asset.of
  split <;> omega

/-! ## Books -/

/-- The balance that each owner has of each token, if there is a row for it. -/
abbrev Book (ι : Type) := ι → SymbolCode → Option Asset

namespace Book

variable {ι : Type}

/-- What `u` has of `k`. No row is no balance. -/
def amount (b : Book ι) (k : SymbolCode) (u : ι) : Int := (b u k).elim 0 Asset.val

theorem amount_eq {b : Book ι} {k : SymbolCode} {u : ι} {a : Asset} (h : b u k = some a) :
    b.amount k u = a.val := by
  simp [amount, h]

theorem amount_none {b : Book ι} {k : SymbolCode} {u : ι} (h : b u k = none) : b.amount k u = 0 := by
  simp [amount, h]

variable [DecidableEq ι]

def set (b : Book ι) (u : ι) (k : SymbolCode) (v : Option Asset) : Book ι :=
  fun w k' => if w = u ∧ k' = k then v else b w k'

def debit (b : Book ι) (owner : ι) (value : Asset) : Except String (Book ι) :=
  match b owner value.symbol.code with
  | none => .error "no balance object found"
  | some a => do
    check (value.amount ≤ a.amount) "overdrawn balance"
    let a ← a.sub value
    return b.set owner value.symbol.code (some a)

def credit (b : Book ι) (owner : ι) (value : Asset) : Except String (Book ι) :=
  match b owner value.symbol.code with
  | none => .ok (b.set owner value.symbol.code (some value))
  | some a => do
    let a ← a.add value
    return b.set owner value.symbol.code (some a)

def move (b : Book ι) (u v : ι) (value : Asset) : Except String (Book ι) := do
  let b ← b.debit u value
  b.credit v value

theorem set_apply (b : Book ι) (u w : ι) (k k' : SymbolCode) (v : Option Asset) :
    b.set u k v w k' = if w = u ∧ k' = k then v else b w k' := rfl

@[simp] theorem set_self (b : Book ι) (u : ι) (k : SymbolCode) (v : Option Asset) :
    b.set u k v u k = v := if_pos ⟨rfl, rfl⟩

theorem set_set (b : Book ι) (u : ι) (k : SymbolCode) (v v' : Option Asset) :
    (b.set u k v).set u k v' = b.set u k v' := by
  funext w k'
  simp only [set_apply]
  split <;> rfl

theorem amount_set_self (b : Book ι) (u : ι) (k : SymbolCode) (v : Option Asset) :
    (b.set u k v).amount k = gained (b.amount k) u (v.elim 0 Asset.val - b.amount k u) := by
  funext w
  by_cases h : w = u
  · subst h; simp [amount, gained]
  · simp [amount, gained, set_apply, h]

theorem amount_set_ne (b : Book ι) (u : ι) {k k' : SymbolCode} (v : Option Asset) (h : k' ≠ k) :
    (b.set u k v).amount k' = b.amount k' := by
  funext w
  simp [amount, set_apply, h]

theorem amount_set_zero {b : Book ι} {u : ι} {k : SymbolCode} {v : Option Asset}
    (h : v.elim 0 Asset.val = b.amount k u) (k' : SymbolCode) : (b.set u k v).amount k' = b.amount k' := by
  by_cases hk : k' = k
  · subst hk
    rw [amount_set_self, h, sub_self]
    funext w
    simp [gained]
  · exact amount_set_ne b u v hk

/-! ### What a debit and a credit do -/

theorem debit_eq_ok {b b' : Book ι} {u : ι} {value : Asset} (hv : 0 ≤ value.val) :
    b.debit u value = .ok b' ↔ ∃ a a', b u value.symbol.code = some a ∧ value.val ≤ a.val ∧
      a.symbol = value.symbol ∧ a'.symbol = value.symbol ∧ a'.val = a.val - value.val ∧
      a'.val ≤ 2 ^ 62 - 1 ∧ b' = b.set u value.symbol.code (some a') := by
  unfold debit
  split <;> rename_i h
  · simp [h]
  · rename_i a
    simp only [bind_eq_ok, check_eq_ok, pure_eq_ok, Except.ok.injEq, exists_and_left, exists_const, h,
      Option.some.injEq, exists_eq_left', Asset.amount_le_iff]
    constructor
    · rintro ⟨hle, a', ha', rfl⟩
      obtain ⟨h1, h2, h3, h4⟩ := (Asset.sub_eq_ok hv hle).1 ha'
      exact ⟨hle, h1.symm, a', h2.trans h1.symm, h3, h4, rfl⟩
    · rintro ⟨hle, h1, a', h2, h3, h4, rfl⟩
      exact ⟨hle, a', (Asset.sub_eq_ok hv hle).2 ⟨h1.symm, h2.trans h1.symm, h3, h4⟩, rfl⟩

theorem credit_eq_ok {b b' : Book ι} {u : ι} {value : Asset}
    (hv : -(2 ^ 62 - 1) ≤ value.val ∧ value.val ≤ 2 ^ 62 - 1) :
    b.credit u value = .ok b' ↔ ∃ a', (∀ a ∈ b u value.symbol.code, a.symbol = value.symbol) ∧
      a'.symbol = value.symbol ∧ a'.val = b.amount value.symbol.code u + value.val ∧
      -(2 ^ 62 - 1) ≤ a'.val ∧ a'.val ≤ 2 ^ 62 - 1 ∧ b' = b.set u value.symbol.code (some a') := by
  unfold credit
  split <;> rename_i h
  · simp only [Except.ok.injEq, h, Option.mem_def, reduceCtorEq, false_implies, implies_true, true_and,
      amount_none h, zero_add]
    constructor
    · rintro rfl; exact ⟨value, rfl, rfl, hv.1, hv.2, rfl⟩
    · rintro ⟨a', h1, h2, -, -, rfl⟩
      rw [Asset.ext_val h2 h1]
  · rename_i a
    simp only [bind_eq_ok, pure_eq_ok, Except.ok.injEq, h, Option.mem_def, Option.some.injEq,
      forall_eq', amount_eq h]
    constructor
    · rintro ⟨a', ha', rfl⟩
      obtain ⟨h1, h2, h3, h4, h5⟩ := (Asset.add_eq_ok hv).1 ha'
      exact ⟨a', h1.symm, h2.trans h1.symm, h3, h4, h5, rfl⟩
    · rintro ⟨a', h1, h2, h3, h4, h5, rfl⟩
      exact ⟨a', (Asset.add_eq_ok hv).2 ⟨h1.symm, h2.trans h1.symm, h3, h4, h5⟩, rfl⟩

theorem amount_debit {b b' : Book ι} {u : ι} {value : Asset} (hv : 0 ≤ value.val)
    (h : b.debit u value = .ok b') (k : SymbolCode) :
    b'.amount k = gained (b.amount k) u (-value.of k) := by
  obtain ⟨a, a', ha, -, -, -, hval, -, rfl⟩ := (debit_eq_ok hv).1 h
  by_cases hk : k = value.symbol.code
  · subst hk
    rw [amount_set_self, amount_eq ha, Option.elim_some, hval, Asset.of_self]
    congr 1
    omega
  · rw [amount_set_ne _ _ _ hk, Asset.of, if_neg hk]
    funext w
    simp [gained]

theorem amount_credit {b b' : Book ι} {u : ι} {value : Asset}
    (hv : -(2 ^ 62 - 1) ≤ value.val ∧ value.val ≤ 2 ^ 62 - 1) (h : b.credit u value = .ok b')
    (k : SymbolCode) : b'.amount k = gained (b.amount k) u (value.of k) := by
  obtain ⟨a', -, -, hval, -, -, rfl⟩ := (credit_eq_ok hv).1 h
  by_cases hk : k = value.symbol.code
  · subst hk
    rw [amount_set_self, Option.elim_some, hval, Asset.of_self]
    congr 1
    omega
  · rw [amount_set_ne _ _ _ hk, Asset.of, if_neg hk]
    funext w
    simp [gained]

theorem amount_move {b b' : Book ι} {u w : ι} {value : Asset} (hpos : 0 < value.val)
    (hle : value.val ≤ 2 ^ 62 - 1) (h : b.move u w value = .ok b') (k : SymbolCode) :
    b'.amount k = moved (b.amount k) u w (value.of k) := by
  simp only [move, bind_eq_ok] at h
  obtain ⟨m, hm, h⟩ := h
  rw [amount_credit ⟨by omega, hle⟩ h, amount_debit (by omega) hm, moved]

theorem debit_le {b b' : Book ι} {u : ι} {value : Asset} (hpos : 0 < value.val)
    (h : b.debit u value = .ok b') : value.val ≤ b.amount value.symbol.code u := by
  obtain ⟨a, -, ha, hle, -⟩ := (debit_eq_ok (by omega)).1 h
  rwa [amount_eq ha]

theorem move_le {b b' : Book ι} {u w : ι} {value : Asset} (hpos : 0 < value.val)
    (h : b.move u w value = .ok b') : value.val ≤ b.amount value.symbol.code u := by
  simp only [move, bind_eq_ok] at h
  obtain ⟨m, hm, -⟩ := h
  exact debit_le hpos hm

theorem debit_ne {b b' : Book ι} {u : ι} {value : Asset} (h : b.debit u value = .ok b') {k : SymbolCode}
    (hk : k ≠ value.symbol.code) (w : ι) : b' w k = b w k := by
  unfold debit at h
  split at h
  · cases h
  · simp only [bind_eq_ok, pure_eq_ok, Except.ok.injEq] at h
    obtain ⟨_, -, _, -, rfl⟩ := h
    exact if_neg fun hw => hk hw.2

theorem credit_ne {b b' : Book ι} {u : ι} {value : Asset} (h : b.credit u value = .ok b') {k : SymbolCode}
    (hk : k ≠ value.symbol.code) (w : ι) : b' w k = b w k := by
  unfold credit at h
  split at h
  · cases h
    exact if_neg fun hw => hk hw.2
  · simp only [bind_eq_ok, pure_eq_ok, Except.ok.injEq] at h
    obtain ⟨_, -, rfl⟩ := h
    exact if_neg fun hw => hk hw.2

theorem move_ne {b b' : Book ι} {u v : ι} {value : Asset} (h : b.move u v value = .ok b') {k : SymbolCode}
    (hk : k ≠ value.symbol.code) (w : ι) : b' w k = b w k := by
  simp only [move, bind_eq_ok] at h
  obtain ⟨m, hd, hc⟩ := h
  rw [credit_ne hc hk, debit_ne hd hk]

/-! ## Books of one token -/

def Only (b : Book ι) (sym : Symbol) : Prop := ∀ u k a, b u k = some a → a.symbol = sym

namespace Only

variable {b b' : Book ι} {sym : Symbol} {u w : ι} {value : Asset}

theorem set (h : b.Only sym) (u : ι) (k : SymbolCode) {v : Option Asset} (hv : ∀ a ∈ v, a.symbol = sym) :
    (b.set u k v).Only sym := by
  intro w k' a ha
  rw [set_apply] at ha
  split at ha
  · exact hv a ha
  · exact h w k' a ha

theorem move (h : b.Only sym) (hpos : 0 < value.val) (hle : value.val ≤ 2 ^ 62 - 1)
    (hm : b.move u w value = .ok b') : b'.Only sym := by
  simp only [Book.move, bind_eq_ok] at hm
  obtain ⟨m, hd, hc⟩ := hm
  obtain ⟨a, a', ha, -, hs, hs', -, -, rfl⟩ := (debit_eq_ok (by omega)).1 hd
  obtain ⟨a'', -, hs'', -, -, -, rfl⟩ := (credit_eq_ok ⟨by omega, hle⟩).1 hc
  have hsym : value.symbol = sym := hs ▸ h u _ a ha
  exact (h.set u _ (by simp [hs', hsym])).set w _ (by simp [hs'', hsym])

end Only

/-! ## Sound books

All of one token: its balances have its symbol, none is negative, and together they
are the supply. -/

structure Sound [Fintype ι] (b : Book ι) (sym : Symbol) (supply : Int) : Prop where
  symbol : ∀ u a, b u sym.code = some a → a.symbol = sym
  nonneg : ∀ u, 0 ≤ b.amount sym.code u
  total : ∑ u, b.amount sym.code u = supply

namespace Sound

variable [Fintype ι] {b b' : Book ι} {sym : Symbol} {supply : Int} {u w : ι} {value : Asset}

omit [DecidableEq ι] in
theorem amount_le (h : b.Sound sym supply) (u : ι) : b.amount sym.code u ≤ supply :=
  h.total ▸ single_le_total h.nonneg u

omit [DecidableEq ι] in
theorem congr (h : b.Sound sym supply) (hb : ∀ u, b' u sym.code = b u sym.code) : b'.Sound sym supply := by
  have hamount : b'.amount sym.code = b.amount sym.code := by
    funext u
    simp only [Book.amount, hb u]
  exact ⟨fun u a ha => h.symbol u a (hb u ▸ ha), hamount ▸ h.nonneg, hamount ▸ h.total⟩

omit [DecidableEq ι] in
theorem of_none (h : ∀ u, b u sym.code = none) : b.Sound sym 0 where
  symbol u a ha := by rw [h u] at ha; cases ha
  nonneg u := by rw [amount_none (h u)]
  total := Finset.sum_eq_zero fun u _ => amount_none (h u)

theorem set (h : b.Sound sym supply) (u : ι) {v : Option Asset} (hsym : ∀ a ∈ v, a.symbol = sym)
    (hv : 0 ≤ v.elim 0 Asset.val) :
    (b.set u sym.code v).Sound sym (supply + (v.elim 0 Asset.val - b.amount sym.code u)) where
  symbol w a ha := by
    rw [set_apply] at ha
    split at ha
    · exact hsym a ha
    · exact h.symbol w a ha
  nonneg w := by
    rw [amount_set_self]
    by_cases hw : w = u
    · subst hw; rw [gained_self]; omega
    · rw [gained_ne _ _ hw]; exact h.nonneg w
  total := by rw [amount_set_self, sum_gained, h.total]

theorem set_ne (h : b.Sound sym supply) (u : ι) {k : SymbolCode} (v : Option Asset) (hk : sym.code ≠ k) :
    (b.set u k v).Sound sym supply where
  symbol w a ha := by
    rw [set_apply, if_neg fun h => hk h.2] at ha
    exact h.symbol w a ha
  nonneg := by rw [amount_set_ne b u v hk]; exact h.nonneg
  total := by rw [amount_set_ne b u v hk]; exact h.total

theorem set_zero (h : b.Sound sym supply) (u : ι) {k : SymbolCode} {v : Option Asset}
    (hsym : k = sym.code → ∀ a ∈ v, a.symbol = sym) (hv : v.elim 0 Asset.val = 0)
    (hu : b.amount k u = 0) : (b.set u k v).Sound sym supply := by
  by_cases hk : sym.code = k
  · subst hk
    have := h.set u (hsym rfl) (by omega)
    rwa [hv, hu, sub_zero, add_zero] at this
  · exact h.set_ne u v hk

theorem debit (h : b.Sound sym supply) (hv : 0 ≤ value.val) (hd : b.debit u value = .ok b') :
    b'.Sound sym (supply - value.of sym.code) := by
  obtain ⟨a, a', ha, hle, hs, hs', hval, -, rfl⟩ := (debit_eq_ok hv).1 hd
  by_cases hk : sym.code = value.symbol.code
  · have hsym := h.symbol u a (hk ▸ ha)
    have := h.set u (v := some a') (by simp [hs', ← hs, hsym]) (by rw [Option.elim_some]; omega)
    have hof : value.of sym.code = value.val := by rw [hk, Asset.of_self]
    have he : supply + (a.val - value.val - a.val) = supply - value.val := by omega
    rw [hof]
    rwa [hk, Option.elim_some, amount_eq ha, hval, he] at this
  · rw [Asset.of, if_neg hk, sub_zero]
    exact h.set_ne u _ hk

theorem credit (h : b.Sound sym supply) (hv : 0 ≤ value.val) (hle : value.val ≤ 2 ^ 62 - 1)
    (hsym : value.symbol.code = sym.code → value.symbol = sym) (hc : b.credit u value = .ok b') :
    b'.Sound sym (supply + value.of sym.code) := by
  obtain ⟨a', -, hs', hval, -, -, rfl⟩ := (credit_eq_ok ⟨by omega, hle⟩).1 hc
  by_cases hk : sym.code = value.symbol.code
  · have hu := h.nonneg u
    have := h.set u (v := some a') (by simp [hs', hsym hk.symm])
      (by rw [Option.elim_some, hval, ← hk]; omega)
    have hof : value.of sym.code = value.val := by rw [hk, Asset.of_self]
    rw [hof]
    rwa [Option.elim_some, hval, hk, add_sub_cancel_left] at this
  · rw [Asset.of, if_neg hk, add_zero]
    exact h.set_ne u _ hk

theorem move (h : b.Sound sym supply) (hpos : 0 < value.val) (hle : value.val ≤ 2 ^ 62 - 1)
    (hm : b.move u w value = .ok b') : b'.Sound sym supply := by
  simp only [Book.move, bind_eq_ok] at hm
  obtain ⟨m, hd, hc⟩ := hm
  have hsym : value.symbol.code = sym.code → value.symbol = sym := fun hk => by
    obtain ⟨a, -, ha, -, hs, -⟩ := (debit_eq_ok (by omega)).1 hd
    rw [← hs]
    exact h.symbol u a (hk ▸ ha)
  have := (h.debit (by omega) hd).credit (by omega) hle hsym hc
  rwa [sub_add_cancel] at this

/-! ### What cannot fail

A sum or a difference of amounts that are part of the supply is in range. -/

theorem debit_ok (h : b.Sound sym supply) (hsmall : supply ≤ 2 ^ 62 - 1) (hpos : 0 < value.val)
    (hsym : value.symbol = sym) (hle : value.val ≤ b.amount sym.code u) :
    ∃ b', b.debit u value = .ok b' := by
  subst hsym
  cases hb : b u value.symbol.code with
  | none => rw [amount_none hb] at hle; omega
  | some a =>
    have hmax := h.amount_le u
    rw [amount_eq hb] at hle hmax
    have hs := h.symbol u a hb
    obtain ⟨a', ha'⟩ := Asset.sub_ok hs.symm (by omega) (by omega)
    obtain ⟨-, hs', hval, hsmall'⟩ := (Asset.sub_eq_ok (by omega) hle).1 ha'
    exact ⟨_, (debit_eq_ok (by omega)).2 ⟨a, a', hb, hle, hs, hs'.trans hs, hval, hsmall', rfl⟩⟩

theorem debit_error (h : b.Sound sym supply) (hsmall : supply ≤ 2 ^ 62 - 1) (hpos : 0 < value.val)
    (hsym : value.symbol = sym) {msg : String} (he : b.debit u value = .error msg) :
    msg = "no balance object found" ∨ msg = "overdrawn balance" := by
  by_cases hle : value.val ≤ b.amount sym.code u
  · obtain ⟨b', hb'⟩ := h.debit_ok hsmall hpos hsym hle
    rw [hb'] at he
    cases he
  · subst hsym
    unfold Book.debit at he
    split at he
    · cases he; exact .inl rfl
    · rename_i a hb
      rw [amount_eq hb, ← Asset.amount_le_iff] at hle
      rw [check, if_neg hle] at he
      cases he; exact .inr rfl

theorem credit_ok (h : b.Sound sym supply) (hsmall : supply + value.val ≤ 2 ^ 62 - 1) (hpos : 0 ≤ value.val)
    (hsym : value.symbol = sym) (u : ι) : ∃ b', b.credit u value = .ok b' := by
  subst hsym
  have hu := h.nonneg u
  have hmax := h.amount_le u
  cases hb : b u value.symbol.code with
  | none => exact ⟨_, by rw [Book.credit, hb]⟩
  | some a =>
    rw [amount_eq hb] at hu hmax
    have hs := h.symbol u a hb
    obtain ⟨a', ha'⟩ := Asset.add_ok hs.symm (by omega) (by omega)
    obtain ⟨-, hs', hval, hlo, hhi⟩ := (Asset.add_eq_ok ⟨by omega, by omega⟩).1 ha'
    exact ⟨_, (credit_eq_ok ⟨by omega, by omega⟩).2 ⟨a', h.symbol u, hs'.trans hs, by rw [hval, amount_eq hb],
      hlo, hhi, rfl⟩⟩

theorem move_ok (h : b.Sound sym supply) (hsmall : supply ≤ 2 ^ 62 - 1) (hpos : 0 < value.val)
    (hsym : value.symbol = sym) (hle : value.val ≤ b.amount sym.code u) (w : ι) :
    ∃ b', b.move u w value = .ok b' := by
  obtain ⟨m, hm⟩ := h.debit_ok hsmall hpos hsym hle
  have hs := h.debit (by omega) hm
  have hv : value.of sym.code = value.val := by rw [← hsym, Asset.of_self]
  rw [hv] at hs
  obtain ⟨b', hb'⟩ := hs.credit_ok (by omega) (by omega) hsym w
  exact ⟨b', by rw [Book.move, hm, ok_bind, hb']⟩

end Sound

end Book

end Vaulta
