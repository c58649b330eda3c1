import Vaulta.Agents
import Vaulta.Ledger

/-!
# An exchange of two tokens

What the contract is for, with nothing of how it does it. There is a coin and a token that
stand for the same value, and a vault that gives one for the other. Here a swap is one
step, and nobody sees the vault between its two halves.
-/

namespace Vaulta.Exchange

open Agents

/-! ## Operations -/

@[ext]
structure Balances (U : Type) where
  coin : U → Int
  token : U → Int

instance {U : Type} : Add (Balances U) :=
  ⟨fun b d => ⟨fun u => b.coin u + d.coin u, fun u => b.token u + d.token u⟩⟩

/-- Without the vault there are payments in both tokens, and coins are issued and retired by
whoever may do that. A donation is a deposit for which nobody gets anything. `elsewhere` is
what some other party, that deals in coins, does for its customers. -/
inductive Op (U : Type)
  | pay (u w : U) (n : Int)
  | issue (u : U) (n : Int)
  | retire (u : U) (n : Int)
  | send (u w : U) (n : Int)
  | deposit (u : U) (n : Int)
  | redeem (u : U) (n : Int)
  | donate (u : U) (n : Int)
  | elsewhere (change : U → Int)

section Semantics

variable {U : Type} [DecidableEq U] (vault : U) (Exempt : U → Prop)

/-- Nobody spends what he does not have. The vault does nothing of its own accord. -/
inductive Step : Op U → Balances U → Balances U → Prop
  | pay {b : Balances U} {u w : U} {n : Int} (hu : u ≠ vault) (hw : w ≠ vault) (hpos : 0 < n) (hle : n ≤ b.coin u) :
      Step (.pay u w n) b ⟨moved b.coin u w n, b.token⟩
  | issue {b : Balances U} {u : U} {n : Int} (hu : u ≠ vault) (hpos : 0 < n) :
      Step (.issue u n) b ⟨gained b.coin u n, b.token⟩
  | retire {b : Balances U} {u : U} {n : Int} (hu : u ≠ vault) (hpos : 0 < n) (hle : n ≤ b.coin u) :
      Step (.retire u n) b ⟨gained b.coin u (-n), b.token⟩
  | send {b : Balances U} {u w : U} {n : Int} (hu : u ≠ vault) (hw : w ≠ vault) (hpos : 0 < n) (hle : n ≤ b.token u) :
      Step (.send u w n) b ⟨b.coin, moved b.token u w n⟩
  | deposit {b : Balances U} {u : U} {n : Int} (hu : u ≠ vault) (hpos : 0 < n) (hle : n ≤ b.coin u) :
      Step (.deposit u n) b ⟨moved b.coin u vault n, moved b.token vault u n⟩
  | redeem {b : Balances U} {u : U} {n : Int} (hu : u ≠ vault) (hpos : 0 < n) (hle : n ≤ b.token u) :
      Step (.redeem u n) b ⟨moved b.coin vault u n, moved b.token u vault n⟩
  | donate {b : Balances U} {u : U} {n : Int} (hu : u ≠ vault) (hexempt : Exempt u) (hpos : 0 < n)
      (hle : n ≤ b.coin u) : Step (.donate u n) b ⟨moved b.coin u vault n, b.token⟩
  | elsewhere {b : Balances U} {change : U → Int} (hvault : change vault = 0)
      (hle : ∀ u, u ≠ vault → 0 ≤ b.coin u + change u) :
      Step (.elsewhere change) b ⟨fun u => b.coin u + change u, b.token⟩

end Semantics

/-! ## Rules -/

section Rules

variable {U : Type} [DecidableEq U] {vault : U} {Exempt : U → Prop} {op : Op U} {ops : List (Op U)}
  {b b' d : Balances U}

theorem add_moved (f g : U → Int) (u w : U) (n : Int) :
    (fun v => moved f u w n v + g v) = moved (fun v => f v + g v) u w n := by
  funext v
  simp only [moved_apply]
  omega

theorem add_gained (f g : U → Int) (u : U) (n : Int) :
    (fun v => gained f u n v + g v) = gained (fun v => f v + g v) u n := by
  funext v
  simp only [gained]
  omega

theorem mk_add (f g : U → Int) (d : Balances U) :
    (⟨f, g⟩ : Balances U) + d = ⟨fun u => f u + d.coin u, fun u => g u + d.token u⟩ := rfl

theorem Step.add (h : Step vault Exempt op b b') (hcoin : ∀ u, u ≠ vault → 0 ≤ d.coin u)
    (htoken : ∀ u, u ≠ vault → 0 ≤ d.token u) : Step vault Exempt op (b + d) (b' + d) := by
  -- Whoever has more can do the same.
  have hmore : ∀ {x y n : Int}, n ≤ x → 0 ≤ y → n ≤ x + y := by omega
  cases h with
  | pay hu hw hpos hle =>
    simp only [mk_add, add_moved]
    exact .pay hu hw hpos (hmore hle (hcoin _ hu))
  | issue hu hpos =>
    simp only [mk_add, add_gained]
    exact .issue hu hpos
  | retire hu hpos hle =>
    simp only [mk_add, add_gained]
    exact .retire hu hpos (hmore hle (hcoin _ hu))
  | send hu hw hpos hle =>
    simp only [mk_add, add_moved]
    exact .send hu hw hpos (hmore hle (htoken _ hu))
  | deposit hu hpos hle =>
    simp only [mk_add, add_moved]
    exact .deposit hu hpos (hmore hle (hcoin _ hu))
  | redeem hu hpos hle =>
    simp only [mk_add, add_moved]
    exact .redeem hu hpos (hmore hle (htoken _ hu))
  | donate hu hexempt hpos hle =>
    simp only [mk_add, add_moved]
    exact .donate hu hexempt hpos (hmore hle (hcoin _ hu))
  | @elsewhere _ change hvault hle =>
    have hadd : (⟨fun u => b.coin u + change u, b.token⟩ : Balances U) + d =
        ⟨fun u => (b + d).coin u + change u, (b + d).token⟩ :=
      Balances.ext (funext fun u => add_right_comm _ _ _) rfl
    rw [hadd]
    refine .elsewhere hvault fun u hu => ?_
    have hbefore := hle u hu
    have hextra := hcoin u hu
    change 0 ≤ b.coin u + d.coin u + change u
    omega

/-! ### Value -/

/-- Coins and tokens together. -/
def Balances.value (b : Balances U) (u : U) : Int := b.coin u + b.token u

/-- What an operation brings to an account. A swap brings nothing. -/
def Op.net (vault : U) (op : Op U) (u : U) : Int :=
  match op with
  | .pay v w n | .send v w n => moved (fun _ => 0) v w n u
  | .issue v n => gained (fun _ => 0) v n u
  | .retire v n => gained (fun _ => 0) v (-n) u
  | .deposit _ _ | .redeem _ _ => 0
  | .donate v n => moved (fun _ => 0) v vault n u
  | .elsewhere change => change u

theorem moved_from_zero (f : U → Int) (u w : U) (n : Int) (v : U) :
    moved f u w n v = f v + moved (fun _ => 0) u w n v := by
  simp only [moved_apply]
  omega

theorem Step.value (h : Step vault Exempt op b b') (u : U) : b'.value u = b.value u + op.net vault u := by
  unfold Balances.value Op.net
  cases h with
  | pay | send | donate =>
    simp only
    rw [moved_from_zero]
    omega
  | issue | retire =>
    simp only [gained]
    omega
  | deposit | redeem =>
    simp only [moved_apply]
    omega
  | elsewhere =>
    simp only
    omega

theorem runs_value (h : Runs (Step vault Exempt) ops b b') (u : U) :
    b'.value u = b.value u + (ops.map fun op => op.net vault u).sum := by
  induction h with
  | nil => simp
  | cons hstep _ ih =>
    rw [ih, hstep.value u, List.map_cons, List.sum_cons]
    omega

theorem Step.net_vault_nonneg (h : Step vault Exempt op b b') : 0 ≤ op.net vault vault := by
  unfold Op.net
  cases h with
  | pay hu hw | send hu hw =>
    simp only [moved_apply, if_neg (Ne.symm hu), if_neg (Ne.symm hw)]
    omega
  | issue hu | retire hu => simp only [gained_ne _ _ (Ne.symm hu), le_refl]
  | deposit | redeem => exact le_refl 0
  | donate hu _ hpos =>
    simp only [moved_apply, if_neg (Ne.symm hu), if_true]
    omega
  | elsewhere hvault => exact hvault.ge

/-! ### Tokens -/

theorem Step.token_nonneg (h : Step vault Exempt op b b') (hb : ∀ u, u ≠ vault → 0 ≤ b.token u) :
    ∀ u, u ≠ vault → 0 ≤ b'.token u := by
  intro v hv
  have hv' := hb v hv
  cases h with
  | pay | issue | retire | donate | elsewhere => exact hv'
  | @send _ u w n _ _ hpos hle =>
    simp only [moved_apply]
    by_cases hu : v = u
    · subst hu
      rw [if_pos rfl]
      split <;> omega
    · rw [if_neg hu]
      split <;> omega
  | deposit _ hpos => exact le_trans hv' (le_moved hv hpos.le)
  | @redeem _ u n _ hpos hle =>
    simp only [moved_apply, if_neg hv]
    by_cases hu : v = u
    · subst hu
      rw [if_pos rfl]
      omega
    · rw [if_neg hu]
      omega

variable [Fintype U]

theorem sum_moved (f : U → Int) (u w : U) (n : Int) : ∑ v, moved f u w n v = ∑ v, f v := by
  unfold moved
  rw [sum_gained, sum_gained]
  omega

theorem Step.token_total (h : Step vault Exempt op b b') : ∑ u, b'.token u = ∑ u, b.token u := by
  cases h with
  | pay | issue | retire | donate | elsewhere => rfl
  | send | deposit | redeem => exact sum_moved _ _ _ _

/-! ### Backing -/

/-- For every token outside there is a coin in the vault. -/
def Backed (vault : U) (b : Balances U) : Prop :=
  (∀ u, u ≠ vault → 0 ≤ b.token u) ∧ ∑ u ∈ Finset.univ.erase vault, b.token u ≤ b.coin vault

theorem backed_iff : Backed vault b ↔
    (∀ u, u ≠ vault → 0 ≤ b.token u) ∧ ∑ u, b.token u ≤ b.value vault := by
  unfold Backed Balances.value
  rw [← Finset.add_sum_erase _ _ (Finset.mem_univ vault)]
  exact and_congr_right fun _ => ⟨fun h => by omega, fun h => by omega⟩

theorem Step.backed (h : Step vault Exempt op b b') (hb : Backed vault b) : Backed vault b' := by
  obtain ⟨hnonneg, htotal⟩ := backed_iff.1 hb
  have hvalue := h.value vault
  have hnet := h.net_vault_nonneg
  refine backed_iff.2 ⟨h.token_nonneg hnonneg, ?_⟩
  rw [h.token_total]
  omega

theorem runs_backed (h : Runs (Step vault Exempt) ops b b') (hb : Backed vault b) : Backed vault b' :=
  h.invariant (fun _ _ _ hb hstep => hstep.backed hb) hb

end Rules

end Vaulta.Exchange
