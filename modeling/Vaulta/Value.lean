import Mathlib.Algebra.Field.Rat
import Mathlib.Algebra.Order.Ring.Rat
import Mathlib.Algebra.Order.GroupWithZero.Basic
import Mathlib.Data.Int.Cast.Lemmas
import Vaulta.Depth
import Vaulta.Forwarding

/-!
# What an amount is worth

A swap copies an integer from one symbol to the other one. What it is worth depends on
the precision of the symbol, and that of the token is whatever `init` was called with.
-/

namespace Vaulta

namespace Asset

/-- The decimal number that an amount is written as. -/
def value (a : Asset) : ℚ := a.val / 10 ^ a.symbol.precision.toNat

theorem value_eq_iff {a b : Asset} (h : b.val = a.val) :
    a.value = b.value ↔ a.symbol.precision = b.symbol.precision ∨ a.val = 0 := by
  unfold value
  rw [h]
  by_cases hzero : a.val = 0
  · simp [hzero]
  · have hne : (a.val : ℚ) ≠ 0 := Int.cast_ne_zero.2 hzero
    rw [div_eq_mul_inv, div_eq_mul_inv, mul_right_inj' hne, inv_inj, pow_right_inj₀ (by decide) (by decide),
      UInt8.toNat_inj]
    simp [hzero]

end Asset

theorem SysCall.forwarded_relabelled (w : SysCall) : w.forwarded.relabelled = w.relabelled.map Asset.in_eos := by
  cases w <;> rfl

namespace Tiny

def coarse : Asset := ⟨1000000, ⟨0x5A5958, 2⟩⟩

/-- The token has two decimals here. -/
def coarse_start : State Unit := run funded [⟨env.self, System.active env.self, .init coarse⟩]

theorem coarse_initialised : env.Initialised coarse coarse_start := by
  have hgenesis : Env.Genesis genesis := ⟨rfl, rfl⟩
  exact hgenesis.initialised (l := System.active env.self) commits_fund rfl

end Tiny

namespace Env

variable {σ : Type} (e : Env σ)

/-- An executed action, what it has queued, and an amount of one token that it has taken
or been given, with the amount of the other one that it pays or asks for in its place. -/
inductive Converts : Action → List Action → Asset → Asset → Prop
  | eos_in {l l' : List PermissionLevel} {u v w : Name} {taken paid : Asset} {memo memo' : Memo} :
      Converts ⟨Name.eosio_token, l, .transfer u e.self taken memo⟩ [⟨e.self, l', .transfer v w paid memo'⟩]
        taken paid
  | xyz_in {l l' : List PermissionLevel} {u v w : Name} {taken paid : Asset} {memo memo' : Memo} :
      Converts ⟨e.self, l, .transfer u e.self taken memo⟩ [⟨Name.eosio_token, l', .transfer v w paid memo'⟩]
        taken paid
  | swapto {l l' : List PermissionLevel} {first : Action} {code u v w x : Name} {taken paid : Asset}
      {memo memo' : Memo} :
      Converts ⟨e.self, l, .swapto u w taken memo⟩ [first, ⟨code, l', .transfer v x paid memo'⟩] taken paid
  | swapped {l l' l'' : List PermissionLevel} {call : SysCall} {rest : List Action} {u v w : Name}
      {taken paid : Asset} {memo : Memo} :
      Converts ⟨e.self, l, .sys call⟩ (⟨e.self, l', .swaptrace u taken⟩ ::
        ⟨Name.eosio_token, l'', .transfer v w paid memo⟩ :: rest) taken paid
  | relabelled {l l' : List PermissionLevel} {call call' : SysCall} {queued : List Action} {taken paid : Asset}
      (hcall : ⟨Name.eosio, l', .sys call'⟩ ∈ queued)
      (hpair : (taken, paid) ∈ call.relabelled.zip call'.relabelled) :
      Converts ⟨e.self, l, .sys call⟩ queued taken paid
  | withdrawn {l l' : List PermissionLevel} {first : Action} {u v w : Name} {taken paid : Asset} {memo : Memo} :
      Converts ⟨e.self, l, .sys (.withdraw u taken)⟩
        [first, ⟨Name.eosio_token, l', .transfer v w paid memo⟩] taken paid

/-- The same number, in the other one of two symbols. -/
structure Renamed (symbol : Symbol) (taken paid : Asset) : Prop where
  val : paid.val = taken.val
  symbols : (taken.symbol = Symbol.EOS ∧ paid.symbol = symbol) ∨ (taken.symbol = symbol ∧ paid.symbol = Symbol.EOS)

theorem Renamed.value_eq_iff {symbol : Symbol} {taken paid : Asset} (h : Renamed symbol taken paid) :
    taken.value = paid.value ↔ symbol.precision = Symbol.EOS.precision ∨ taken.val = 0 := by
  rw [Asset.value_eq_iff h.val]
  rcases h.symbols with ⟨ht, hp⟩ | ⟨ht, hp⟩
  · rw [ht, hp, eq_comm]
  · rw [ht, hp]

variable {e} {s s' : State σ} {m : Asset} {queued : List Action}

theorem renamed_in_eos {q : Asset} (h : q.symbol = m.symbol) : Renamed m.symbol q q.in_eos :=
  ⟨rfl, .inr ⟨h, rfl⟩⟩

theorem Converts.renamed (hm : System.Minted e.self m s.system) {a : Action} {taken paid : Asset}
    (h : e.Converts a queued taken paid) (hexec : e.exec s a = .ok (s', queued)) :
    Renamed m.symbol taken paid := by
  cases h with
  | @eos_in l l' u v w q p memo memo' =>
    obtain ⟨o, -, hn, -⟩ := exec_token_transfer.1 hexec
    by_cases hends : u = e.self ∨ e.self ≠ e.self
    · have hnil := hn.symm.trans (System.on_transfer_ignored _ _ _ hends)
      cases hnil
    · obtain ⟨-, ⟨-, hnil⟩ | ⟨-, hq, symbol, hcfg, -, -, hqueued⟩⟩ := (System.on_transfer_eq_ok hends).1 hn
      · cases hnil
      · cases hqueued
        exact ⟨rfl, .inl ⟨hq, hm.config_eq hcfg⟩⟩
  | xyz_in =>
    obtain ⟨o, ho, -, hqueued⟩ := exec_xyz_transfer.1 hexec
    obtain ⟨_, _, -, -, -, -, -, -, -, -, -, hcfg, rfl⟩ := System.transfer_eq_ok.1 ho
    rw [if_pos (by rfl)] at hqueued
    cases hqueued
    exact renamed_in_eos (hm.config_eq (hcfg rfl))
  | swapto =>
    obtain ⟨o, heffect, -, hqueued⟩ := exec_system rfl hexec
    simp only at heffect
    cases heffect with
    | swapto_eos _ _ hq hcfg =>
      cases hqueued
      exact ⟨rfl, .inl ⟨hq, hm.config_eq hcfg⟩⟩
    | swapto_xyz _ _ hcfg =>
      cases hqueued
      exact renamed_in_eos (hm.config_eq hcfg)
    | idle hidle => cases hidle
  | swapped =>
    obtain ⟨o, heffect, -, hqueued⟩ := exec_system rfl hexec
    simp only at heffect
    cases heffect with
    | swapped _ hswap =>
      cases hqueued
      exact renamed_in_eos (hm.config_eq hswap.symbol)
    | @passed call account rest _ hrest =>
      -- Only a swap leaves a note.
      dsimp only at hqueued
      subst hqueued
      exact absurd ⟨_, _, rfl⟩ (hrest _ (List.mem_cons_self ..)).not_traces
    | idle hidle => cases hidle
  | @relabelled l l' call call' _ _ _ hcall hpair =>
    obtain ⟨o, ho, -, rfl⟩ := exec_sys.1 hexec
    have hf := System.apply_sys_forwards e.self_ne_eosio ho
    have hmem : (⟨Name.eosio, l', .sys call'⟩ : Action) ∈ o.inline.filter (fun a => a.account = Name.eosio) :=
      List.mem_filter.2 ⟨hcall, by simp⟩
    rw [hf.once, List.mem_singleton] at hmem
    cases hmem
    rw [SysCall.forwarded_relabelled, List.zip_map_right, List.mem_map] at hpair
    obtain ⟨⟨q, q'⟩, hq, hpair⟩ := hpair
    cases hpair
    obtain ⟨hq, rfl⟩ : q ∈ call.relabelled ∧ q' = q := by
      obtain ⟨i, hi, h⟩ := List.mem_iff_getElem.1 hq
      simp only [List.getElem_zip, Prod.mk.injEq] at h
      obtain ⟨rfl, rfl⟩ := h
      exact ⟨List.getElem_mem _, rfl⟩
    exact renamed_in_eos (hm.config_eq (hf.symbol _ hq))
  | withdrawn =>
    obtain ⟨o, ho, -, hqueued⟩ := exec_sys.1 hexec
    obtain ⟨-, hcfg, -, -, rfl⟩ := System.withdraw_eq_ok.1 ho
    cases hqueued
    exact renamed_in_eos (hm.config_eq hcfg)

theorem excess_unchanged {l l' : List PermissionLevel} {account code u w : Name} {eos_before excess paid : Asset}
    {memo : Memo} (hexec : e.exec s ⟨e.self, l, .swapexcess account eos_before⟩ = .ok (s', queued))
    (hexcess : (System.get_eos_balance s.token account).sub eos_before = .ok excess)
    (hsym : excess.symbol = Symbol.EOS) (hpaid : ⟨code, l', .transfer u w paid memo⟩ ∈ queued) : paid = excess := by
  obtain ⟨o, ho, -, rfl⟩ := exec_own.1 hexec
  obtain ⟨-, -, ⟨-, rfl⟩ | ⟨-, x, hx, -, -, rfl⟩⟩ := System.swapexcess_eq_ok.1 ho
  · cases hpaid
  · obtain rfl : x = excess := Except.ok.inj (hx.symm.trans hexcess)
    rw [List.mem_singleton] at hpaid
    cases hpaid
    exact Asset.ext_val rfl hsym.symm

/-- **What a swap keeps.** At any time after `init`, and at every place where an amount of
one token is turned into one of the other, the two are worth the same exactly when the
symbol that `init` was given has the precision of EOS, or when the amount is zero. What is
swapped back after a call stays the same amount of EOS until it is there. -/
theorem swaps_keep_value {s₀ : State σ} {c : Config σ} (hinit : e.Initialised m s₀) (h : e.Later s₀ c)
    {a : Action} (hexec : e.exec c.state a = .ok (s', queued)) :
    (∀ taken paid, e.Converts a queued taken paid →
      (taken.value = paid.value ↔ m.symbol.precision = Symbol.EOS.precision ∨ taken.val = 0)) ∧
    ∀ account eos_before excess, a.account = e.self → a.call = .swapexcess account eos_before →
      (System.get_eos_balance c.state.token account).sub eos_before = .ok excess → excess.symbol = Symbol.EOS →
      ∀ code l u w paid memo, ⟨code, l, .transfer u w paid memo⟩ ∈ queued → paid.value = excess.value := by
  constructor
  · intro taken paid hconv
    exact (hconv.renamed (later_minted hinit h) hexec).value_eq_iff
  · intro account eos_before excess hacc hcall hexcess hsym code l u w paid memo hpaid
    obtain ⟨_, authorization, _⟩ := a
    simp only at hacc hcall
    subst hacc hcall
    rw [excess_unchanged hexec hexcess hsym hpaid]

theorem swaps_keep_value_alice : ∃ s queued, Tiny.env.exec Tiny.start Tiny.swap = .ok (s, queued) ∧
    Tiny.env.Converts Tiny.swap queued ⟨100, Symbol.EOS⟩ ⟨100, Tiny.XYZ⟩ ∧
    Asset.value ⟨100, Symbol.EOS⟩ = Asset.value ⟨100, Tiny.XYZ⟩ := by
  obtain ⟨s, hexec⟩ : ∃ s, Tiny.env.exec Tiny.start Tiny.swap = .ok (s, [System.transfer_action Tiny.env.self
      Tiny.env.self Tiny.env.self Tiny.alice ⟨100, Tiny.XYZ⟩ []]) := ⟨_, rfl⟩
  have hstart : Tiny.env.Later Tiny.start ⟨Tiny.start, [], []⟩ := .start rfl
  exact ⟨s, _, hexec, .eos_in, ((swaps_keep_value Tiny.initialised hstart hexec).1 _ _ .eos_in).2 (.inl rfl)⟩

/-- Where the token has two decimals, she is paid 1.00 XYZ for them. -/
theorem value_lost : ∃ s queued, Tiny.env.Initialised Tiny.coarse Tiny.coarse_start ∧
    Tiny.env.exec Tiny.coarse_start Tiny.swap = .ok (s, queued) ∧
    Tiny.env.Converts Tiny.swap queued ⟨100, Symbol.EOS⟩ ⟨100, Tiny.coarse.symbol⟩ ∧
    Asset.value ⟨100, Symbol.EOS⟩ = 1 / 100 ∧ Asset.value ⟨100, Tiny.coarse.symbol⟩ = 1 := by
  obtain ⟨s, hexec⟩ : ∃ s, Tiny.env.exec Tiny.coarse_start Tiny.swap = .ok (s, [System.transfer_action Tiny.env.self
      Tiny.env.self Tiny.env.self Tiny.alice ⟨100, Tiny.coarse.symbol⟩ []]) := ⟨_, rfl⟩
  exact ⟨s, _, Tiny.coarse_initialised, hexec, .eos_in, by decide +kernel, by decide +kernel⟩

end Env

end Vaulta
