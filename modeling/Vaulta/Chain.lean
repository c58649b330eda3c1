import Mathlib.Algebra.Ring.Int.Defs
import Mathlib.Algebra.Ring.Nat
import Mathlib.Data.Fintype.EquivFin
import Mathlib.Data.Fintype.OfMap
import Mathlib.Tactic.Common

/-!
# Names, assets and checks

What the contracts take from the chain's own library: account names, permission
levels, symbols, assets with their checked arithmetic, and `check` itself.
-/

namespace Vaulta

/-! ## Checks -/

/-- An action that fails a check fails as a whole, with this message. -/
def check (p : Prop) [Decidable p] (msg : String) : Except String Unit :=
  if p then .ok () else .error msg

@[simp] theorem check_eq_ok {p : Prop} [Decidable p] {msg : String} {u : Unit} :
    check p msg = .ok u ↔ p := by
  unfold check; split <;> simp [*]

theorem check_true {p : Prop} [Decidable p] {msg : String} (h : p) : check p msg = .ok () :=
  if_pos h

@[simp] theorem bind_eq_ok {ε α β : Type} {x : Except ε α} {f : α → Except ε β} {b : β} :
    (x >>= f) = .ok b ↔ ∃ a, x = .ok a ∧ f a = .ok b := by
  cases x <;> simp [bind, Except.bind]

@[simp] theorem ok_bind {ε α β : Type} (a : α) (f : α → Except ε β) :
    ((.ok a : Except ε α) >>= f) = f a := rfl

theorem check_eq_error {p : Prop} [Decidable p] {msg msg' : String} :
    check p msg = .error msg' ↔ ¬ p ∧ msg' = msg := by
  unfold check; split <;> simp [*, eq_comm]

theorem bind_eq_error {ε α β : Type} {x : Except ε α} {f : α → Except ε β} {err : ε} :
    (x >>= f) = .error err ↔ x = .error err ∨ ∃ a, x = .ok a ∧ f a = .error err := by
  cases x <;> simp [bind, Except.bind]

@[simp] theorem pure_eq_ok {ε α : Type} (a : α) : (pure a : Except ε α) = .ok a := rfl

/-! ## Names -/

/-- An account, action or permission name: 64 bits, printed in base 32. -/
structure Name where
  value : UInt64
deriving DecidableEq, Repr

namespace Name

theorem value_inj {a b : Name} : a.value = b.value ↔ a = b := by
  cases a; cases b; simp

noncomputable instance : Fintype Name :=
  Fintype.ofInjective (fun n => n.value.toFin) fun _ _ h => value_inj.1 (UInt64.toFin_inj.1 h)

/-- Five bits a character, from the top. The thirteenth character has only four bits. -/
def chars : Nat → UInt64 → List Char
  | 0, _ => []
  | n + 1, v =>
    if v = 0 then []
    else
      let i := if n = 0 then v >>> 60 else v >>> 59
      (".12345abcdefghijklmnopqrstuvwxyz".toList.getD i.toNat '.') :: chars n (v <<< 5)

def to_string (n : Name) : String := String.ofList (chars 13 n.value)

def eosio : Name := ⟨6138663577826885632⟩
def eosio_token : Name := ⟨6138663591592764928⟩
def eosio_ram : Name := ⟨6138663590285017088⟩
def eosio_stake : Name := ⟨6138663591134630912⟩
def active : Name := ⟨3617214756542218240⟩

example : [eosio, eosio_token, eosio_ram, eosio_stake, active].map to_string =
    ["eosio", "eosio.token", "eosio.ram", "eosio.stake", "active"] := by decide

end Name

/-- One permission of one account. An action carries a list of them. -/
structure PermissionLevel where
  actor : Name
  permission : Name
deriving DecidableEq, Repr

/-! ## Symbols -/

/-- A symbol's ticker: up to seven characters, the first one in the lowest byte. -/
abbrev SymbolCode := BitVec 56

namespace SymbolCode

/-- A capital letter, then more of them, then only zero bytes. -/
def lettersFrom : Nat → Nat → Bool
  | 0, _ => true
  | n + 1, v =>
    65 ≤ v % 256 && v % 256 ≤ 90 &&
      (if v / 256 % 256 = 0 then v / 256 = 0 else lettersFrom n (v / 256))

def is_valid (c : SymbolCode) : Bool := lettersFrom 7 c.toNat

def chars : Nat → Nat → List Char
  | 0, _ => []
  | n + 1, v => if v = 0 then [] else Char.ofNat (v % 256) :: chars n (v / 256)

def to_string (c : SymbolCode) : String := String.ofList (chars 7 c.toNat)

end SymbolCode

structure Symbol where
  code : SymbolCode
  precision : UInt8
deriving DecidableEq, Repr

namespace Symbol

/-- Only the ticker is checked: any precision is valid. -/
def is_valid (s : Symbol) : Bool := s.code.is_valid

def EOS : Symbol := ⟨0x534F45, 4⟩

example : EOS.is_valid = true ∧ EOS.code.to_string = "EOS" := by decide

end Symbol

/-! ## Assets -/

/-- An amount of a token. Nothing is checked when an action's arguments are read, so
the amount can be any 64-bit integer and the symbol anything. -/
structure Asset where
  amount : Int64
  symbol : Symbol
deriving DecidableEq, Repr

namespace Asset

def max_amount : Int64 := 4611686018427387903

def is_amount_within_range (a : Asset) : Bool := -max_amount ≤ a.amount && a.amount ≤ max_amount

def is_valid (a : Asset) : Bool := a.is_amount_within_range && a.symbol.is_valid

def make (amount : Int64) (symbol : Symbol) : Except String Asset := do
  check ((⟨amount, symbol⟩ : Asset).is_amount_within_range) "magnitude of asset amount must be less than 2^62"
  check symbol.is_valid "invalid symbol name"
  return ⟨amount, symbol⟩

/-- `+` and `+=`. The sum wraps first and is checked afterwards. -/
def add (a b : Asset) : Except String Asset := do
  check (b.symbol = a.symbol) "attempt to add asset with different symbol"
  check (-max_amount ≤ a.amount + b.amount) "addition underflow"
  check (a.amount + b.amount ≤ max_amount) "addition overflow"
  return ⟨a.amount + b.amount, a.symbol⟩

/-- `-` and `-=`. The difference wraps first and is checked afterwards. -/
def sub (a b : Asset) : Except String Asset := do
  check (b.symbol = a.symbol) "attempt to subtract asset with different symbol"
  check (-max_amount ≤ a.amount - b.amount) "subtraction underflow"
  check (a.amount - b.amount ≤ max_amount) "subtraction overflow"
  return ⟨a.amount - b.amount, a.symbol⟩

def gt (a b : Asset) : Except String Bool := do
  check (b.symbol = a.symbol) "comparison of assets with different symbols is not allowed"
  return b.amount < a.amount

def val (a : Asset) : Int := a.amount.toInt

/-- The digits after the point, as many as the symbol's precision. -/
def fraction : Nat → Nat → List Char
  | 0, _ => []
  | p + 1, v => fraction p (v / 10) ++ [Nat.digitChar (v % 10)]

def to_string (a : Asset) : String :=
  let p := a.symbol.precision.toNat
  let n := a.amount.toInt.natAbs
  String.ofList ((if a.amount < 0 then ['-'] else []) ++ (n / 10 ^ p).repr.toList ++
    (if p = 0 then [] else '.' :: fraction p (n % 10 ^ p)) ++ [' ']) ++ a.symbol.code.to_string

example : (⟨-15000, Symbol.EOS⟩ : Asset).to_string = "-1.5000 EOS" := by decide

/-! ### The arithmetic, on integers -/

theorem max_amount_val : max_amount.toInt = 2 ^ 62 - 1 := by decide

theorem neg_max_amount_val : (-max_amount).toInt = -(2 ^ 62 - 1) := by decide

theorem is_amount_within_range_iff (a : Asset) :
    a.is_amount_within_range = true ↔ -(2 ^ 62 - 1) ≤ a.val ∧ a.val ≤ 2 ^ 62 - 1 := by
  simp only [is_amount_within_range, Bool.and_eq_true, decide_eq_true_eq, Int64.le_iff_toInt_le,
    max_amount_val, neg_max_amount_val, val]

theorem is_valid_iff (a : Asset) :
    a.is_valid = true ↔ (-(2 ^ 62 - 1) ≤ a.val ∧ a.val ≤ 2 ^ 62 - 1) ∧ a.symbol.is_valid = true := by
  rw [is_valid, Bool.and_eq_true, is_amount_within_range_iff]

theorem val_lt (a : Asset) : a.val < 2 ^ 63 := Int64.toInt_lt _

theorem le_val (a : Asset) : -2 ^ 63 ≤ a.val := Int64.le_toInt _

theorem amount_le_iff (a b : Asset) : a.amount ≤ b.amount ↔ a.val ≤ b.val := Int64.le_iff_toInt_le

theorem amount_pos_iff (a : Asset) : 0 < a.amount ↔ 0 < a.val := by
  rw [Int64.lt_iff_toInt_lt]; rfl

theorem amount_eq_zero_iff (a : Asset) : a.amount = 0 ↔ a.val = 0 := by
  rw [← Int64.toInt_inj]; rfl

@[ext] theorem ext_val {a b : Asset} (hv : a.val = b.val) (hs : a.symbol = b.symbol) : a = b := by
  cases a; cases b
  simp only [val] at hv
  simp only [mk.injEq]
  exact ⟨Int64.toInt_inj.1 hv, hs⟩

theorem make_eq_ok {n : Int64} {s : Symbol} {a : Asset} :
    make n s = .ok a ↔
      a = ⟨n, s⟩ ∧ (-(2 ^ 62 - 1) ≤ n.toInt ∧ n.toInt ≤ 2 ^ 62 - 1) ∧ s.is_valid = true := by
  simp only [make, bind_eq_ok, check_eq_ok, is_amount_within_range_iff, val, pure_eq_ok,
    Except.ok.injEq, exists_and_left, exists_const]
  constructor
  · rintro ⟨hr, hs, rfl⟩; exact ⟨rfl, hr, hs⟩
  · rintro ⟨rfl, hr, hs⟩; exact ⟨hr, hs, rfl⟩

theorem add_symbol {a b c : Asset} (h : a.add b = .ok c) : c.symbol = a.symbol := by
  simp only [add, bind_eq_ok, check_eq_ok, pure_eq_ok, Except.ok.injEq, exists_and_left,
    exists_const] at h
  obtain ⟨-, -, -, rfl⟩ := h
  rfl

theorem sub_symbol {a b c : Asset} (h : a.sub b = .ok c) : c.symbol = a.symbol := by
  simp only [sub, bind_eq_ok, check_eq_ok, pure_eq_ok, Except.ok.injEq, exists_and_left,
    exists_const] at h
  obtain ⟨-, -, -, rfl⟩ := h
  rfl

theorem bmod_of_range {x : Int} (h1 : -2 ^ 63 ≤ x) (h2 : x < 2 ^ 63) : x.bmod (2 ^ 64) = x :=
  Int.bmod_eq_of_le_mul_two (by omega) (by omega)

/-- A sum that wrapped is far outside the range of an amount. -/
theorem bmod_in_range {x : Int} (h1 : -2 ^ 63 - 2 ^ 62 < x) (h2 : x < 2 ^ 63 + 2 ^ 62)
    (h3 : -(2 ^ 62 - 1) ≤ x.bmod (2 ^ 64)) (h4 : x.bmod (2 ^ 64) ≤ 2 ^ 62 - 1) :
    x.bmod (2 ^ 64) = x := by
  rw [Int.bmod_def] at h3 h4 ⊢
  split <;> omega

theorem add_eq_ok {a b c : Asset} (hb : -(2 ^ 62 - 1) ≤ b.val ∧ b.val ≤ 2 ^ 62 - 1) :
    a.add b = .ok c ↔ b.symbol = a.symbol ∧ c.symbol = a.symbol ∧ c.val = a.val + b.val ∧
      -(2 ^ 62 - 1) ≤ c.val ∧ c.val ≤ 2 ^ 62 - 1 := by
  have ha1 := le_val a
  have ha2 := val_lt a
  simp only [add, bind_eq_ok, check_eq_ok, Int64.le_iff_toInt_le, Int64.toInt_add, max_amount_val,
    neg_max_amount_val, pure_eq_ok, Except.ok.injEq, exists_and_left, exists_const]
  change _ ∧ _ ≤ (a.val + b.val).bmod (2 ^ 64) ∧ (a.val + b.val).bmod (2 ^ 64) ≤ _ ∧ _ ↔ _
  constructor
  · rintro ⟨hs, h1, h2, rfl⟩
    have he := bmod_in_range (by omega) (by omega) h1 h2
    have hv : (⟨a.amount + b.amount, a.symbol⟩ : Asset).val = a.val + b.val :=
      (Int64.toInt_add _ _).trans he
    exact ⟨hs, rfl, hv, by omega, by omega⟩
  · rintro ⟨hs, hc, hv, h1, h2⟩
    have he := bmod_of_range (x := a.val + b.val) (by omega) (by omega)
    refine ⟨hs, by omega, by omega, ext_val ?_ hc.symm⟩
    exact ((Int64.toInt_add _ _).trans he).trans hv.symm

theorem sub_eq_ok {a b c : Asset} (hb : 0 ≤ b.val) (hle : b.val ≤ a.val) :
    a.sub b = .ok c ↔ b.symbol = a.symbol ∧ c.symbol = a.symbol ∧ c.val = a.val - b.val ∧
      c.val ≤ 2 ^ 62 - 1 := by
  have ha := val_lt a
  have he := bmod_of_range (x := a.val - b.val) (by omega) (by omega)
  have hv : (⟨a.amount - b.amount, a.symbol⟩ : Asset).val = a.val - b.val :=
    (Int64.toInt_sub _ _).trans he
  simp only [sub, bind_eq_ok, check_eq_ok, Int64.le_iff_toInt_le, Int64.toInt_sub, max_amount_val,
    neg_max_amount_val, pure_eq_ok, Except.ok.injEq, exists_and_left, exists_const]
  change _ ∧ _ ≤ (a.val - b.val).bmod (2 ^ 64) ∧ (a.val - b.val).bmod (2 ^ 64) ≤ _ ∧ _ ↔ _
  rw [he]
  constructor
  · rintro ⟨hs, -, h2, rfl⟩
    exact ⟨hs, rfl, hv, by omega⟩
  · rintro ⟨hs, hc, hcv, h2⟩
    exact ⟨hs, by omega, by omega, ext_val (hv.trans hcv.symm) hc.symm⟩

theorem sub_val {a b c : Asset} (hb : -(2 ^ 62 - 1) ≤ b.val ∧ b.val ≤ 2 ^ 62 - 1) (h : a.sub b = .ok c) :
    c.val = a.val - b.val := by
  have ha1 := le_val a
  have ha2 := val_lt a
  simp only [sub, bind_eq_ok, check_eq_ok, Int64.le_iff_toInt_le, Int64.toInt_sub, max_amount_val,
    neg_max_amount_val, pure_eq_ok, Except.ok.injEq, exists_and_left, exists_const] at h
  obtain ⟨-, h1, h2, rfl⟩ := h
  exact (Int64.toInt_sub _ _).trans (@bmod_in_range (a.val - b.val) (by omega) (by omega) h1 h2)

theorem add_ok {a b : Asset} (hs : b.symbol = a.symbol) (h1 : -(2 ^ 62 - 1) ≤ a.val + b.val)
    (h2 : a.val + b.val ≤ 2 ^ 62 - 1) : ∃ c, a.add b = .ok c := by
  have he := bmod_of_range (x := a.val + b.val) (by omega) (by omega)
  have hv : (a.amount + b.amount).toInt = a.val + b.val := (Int64.toInt_add _ _).trans he
  refine ⟨⟨a.amount + b.amount, a.symbol⟩, ?_⟩
  simp only [add, bind_eq_ok, check_eq_ok, Int64.le_iff_toInt_le, max_amount_val, neg_max_amount_val, hv,
    pure_eq_ok, exists_and_left, exists_const]
  exact ⟨hs, h1, h2, trivial⟩

theorem sub_ok {a b : Asset} (hs : b.symbol = a.symbol) (h1 : -(2 ^ 62 - 1) ≤ a.val - b.val)
    (h2 : a.val - b.val ≤ 2 ^ 62 - 1) : ∃ c, a.sub b = .ok c := by
  have he := bmod_of_range (x := a.val - b.val) (by omega) (by omega)
  have hv : (a.amount - b.amount).toInt = a.val - b.val := (Int64.toInt_sub _ _).trans he
  refine ⟨⟨a.amount - b.amount, a.symbol⟩, ?_⟩
  simp only [sub, bind_eq_ok, check_eq_ok, Int64.le_iff_toInt_le, max_amount_val, neg_max_amount_val, hv,
    pure_eq_ok, exists_and_left, exists_const]
  exact ⟨hs, h1, h2, trivial⟩

end Asset

end Vaulta
