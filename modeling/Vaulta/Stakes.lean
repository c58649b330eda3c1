import Vaulta.MockEffects
import Vaulta.Movements

/-!
# What is staked

An account's deposits, its stakes and the refunds it waits for are in tables of `eosio`,
and so is the EOS for them. What it has there changes with its own calls only.
-/

namespace Vaulta

theorem Asset.add_val_of_nonneg {a b c : Asset} (ha : 0 ≤ a.val) (hb : 0 ≤ b.val) (hpos : 0 < a.amount + b.amount)
    (h : a.add b = .ok c) : c.val = a.val + b.val := by
  -- With two amounts that are not negative, a sum that wrapped is not positive.
  have ha' := a.val_lt
  have hb' := b.val_lt
  have hsum : (a.amount + b.amount).toInt = (a.val + b.val).bmod (2 ^ 64) := Int64.toInt_add _ _
  rw [Int64.lt_iff_toInt_lt, hsum] at hpos
  simp only [add, bind_eq_ok, pure_eq_ok, Except.ok.injEq] at h
  obtain ⟨-, -, -, -, -, -, rfl⟩ := h
  refine hsum.trans ?_
  change 0 < _ at hpos
  rw [Int.bmod_def] at hpos ⊢
  split at hpos <;> split <;> omega

theorem Asset.add_small {a b c : Asset} (h : a.add b = .ok c) : c.val ≤ 2 ^ 62 - 1 := by
  simp only [add, bind_eq_ok, check_eq_ok, Int64.le_iff_toInt_le, max_amount_val, pure_eq_ok, Except.ok.injEq] at h
  obtain ⟨-, -, -, -, -, hle, rfl⟩ := h
  exact hle

namespace Mocksys

/-! ## Rows of one owner -/

section Part

variable {ρ : Type} [PrimaryKey ρ Name] {t t' : MultiIndex Name Name Name ρ} {u p : Name} {row : ρ}

/-- What `f` reads in the row of `u`. -/
def part (f : ρ → Int) (t : MultiIndex Name Name Name ρ) (u : Name) : Int := ((t.find Name.eosio u).map f).getD 0

theorem part_of_find (f : ρ → Int) (h : t.find Name.eosio u = some row) : part f t u = f row := by
  rw [part, h]
  rfl

theorem part_emplace (f : ρ → Int) (h : t.emplace Name.eosio p row = .ok t') :
    part f t' = gained (part f t) (primary_key row) (f row) := by
  have hnone : t.find Name.eosio (primary_key row) = none := MultiIndex.find_eq_none.2 (MultiIndex.emplace_eq_ok.1 h).1
  funext w
  by_cases hw : w = primary_key row
  · subst hw
    rw [gained_self, part, part, MultiIndex.find_emplace h, if_pos ⟨rfl, rfl⟩, hnone]
    exact (Int.zero_add _).symm
  · rw [gained_ne _ _ hw, part, MultiIndex.find_emplace h, if_neg fun he => hw he.2]
    rfl

theorem part_modify (f : ρ → Int) {payer : Option Name} {updater : ρ → Except String ρ}
    (h : t.modify Name.eosio u payer updater = .ok t') :
    ∃ old row, t.find Name.eosio u = some old ∧ updater old = .ok row ∧
      part f t' = gained (part f t) u (f row - f old) := by
  obtain ⟨old, row, hold, hrow, hfind⟩ := MultiIndex.find_modify h
  refine ⟨old, row, hold, hrow, ?_⟩
  funext w
  by_cases hw : w = u
  · subst hw
    rw [gained_self, part_of_find f hold, part, hfind, if_pos ⟨rfl, rfl⟩, add_sub_cancel]
    rfl
  · rw [gained_ne _ _ hw, part, hfind, if_neg fun he => hw he.2]
    rfl

theorem part_erase (f : ρ → Int) (hrow : t.find Name.eosio u = some row) (h : t.erase Name.eosio u = .ok t') :
    part f t' = gained (part f t) u (-f row) := by
  funext w
  by_cases hw : w = u
  · subst hw
    rw [gained_self, part_of_find f hrow, part, MultiIndex.find_erase h, if_pos ⟨rfl, rfl⟩]
    exact (Int.add_right_neg (f row)).symm
  · rw [gained_ne _ _ hw, part, MultiIndex.find_erase h, if_neg fun he => hw he.2]
    rfl

/-- All rows are like that. -/
def Every (P : ρ → Prop) (t : MultiIndex Name Name Name ρ) : Prop := ∀ u row, t.find Name.eosio u = some row → P row

variable {P : ρ → Prop}

theorem Every.emplace (ht : Every P t) (hrow : P row) (h : t.emplace Name.eosio p row = .ok t') : Every P t' := by
  intro w r hr
  rw [MultiIndex.find_emplace h] at hr
  split at hr
  · exact Option.some.inj hr ▸ hrow
  · exact ht w r hr

theorem Every.modify (ht : Every P t) {payer : Option Name} {updater : ρ → Except String ρ}
    (hrow : ∀ old row, t.find Name.eosio u = some old → updater old = .ok row → P row)
    (h : t.modify Name.eosio u payer updater = .ok t') : Every P t' := by
  obtain ⟨old, row, hold, hupd, hfind⟩ := MultiIndex.find_modify h
  intro w r hr
  rw [hfind] at hr
  split at hr
  · exact Option.some.inj hr ▸ hrow old row hold hupd
  · exact ht w r hr

theorem Every.erase (ht : Every P t) (h : t.erase Name.eosio u = .ok t') : Every P t' := by
  intro w r hr
  rw [MultiIndex.find_erase h] at hr
  split at hr
  · cases hr
  · exact ht w r hr

end Part

/-! ## Deposits -/

def fund : Funds → Name → Int := part fun f => f.balance.val

def InEos (f : Fund) : Prop := f.balance.symbol = Symbol.EOS

section Funds

variable {c : Ctx} {t t' : Funds} {owner : Name} {amount : Asset} {missing : String}

theorem add_fund_eq_ok : add_fund c t owner amount = .ok t' ↔
    (t.find c.self owner = none ∧ t.emplace c.self owner ⟨owner, amount⟩ = .ok t') ∨
      (t.find c.self owner ≠ none ∧ (t.modify c.self owner (some owner) fun f => do
        return { f with balance := ← f.balance.add amount }) = .ok t') := by
  unfold add_fund
  split <;> rename_i h <;> simp [h]

theorem add_fund_gained (hc : c.self = Name.eosio) (h : add_fund c t owner amount = .ok t') :
    ∃ d, fund t' = gained (fund t) owner d ∧
      (-(2 ^ 62 - 1) ≤ amount.val ∧ amount.val ≤ 2 ^ 62 - 1 → d = amount.val) := by
  rw [add_fund_eq_ok, hc] at h
  rcases h with ⟨-, h⟩ | ⟨-, h⟩
  · exact ⟨amount.val, part_emplace _ h, fun _ => rfl⟩
  · obtain ⟨old, row, -, hrow, hpart⟩ := part_modify (fun f => f.balance.val) h
    refine ⟨_, hpart, fun hr => ?_⟩
    simp only [bind_eq_ok, pure_eq_ok, Except.ok.injEq] at hrow
    obtain ⟨sum, hsum, rfl⟩ := hrow
    rw [((Asset.add_eq_ok hr).1 hsum).2.2.1]
    omega

theorem add_fund_every (hc : c.self = Name.eosio) (ht : Every InEos t) (hsym : amount.symbol = Symbol.EOS)
    (h : add_fund c t owner amount = .ok t') : Every InEos t' := by
  have hnew : InEos ⟨owner, amount⟩ := hsym
  rw [add_fund_eq_ok, hc] at h
  rcases h with ⟨-, h⟩ | ⟨-, h⟩
  · exact ht.emplace hnew h
  · refine ht.modify (fun old row hold hrow => ?_) h
    simp only [bind_eq_ok, pure_eq_ok, Except.ok.injEq] at hrow
    obtain ⟨sum, hsum, rfl⟩ := hrow
    exact (Asset.add_symbol hsum).trans (ht _ _ hold)

theorem sub_fund_eq_ok : sub_fund c t owner amount missing = .ok t' ↔ ∃ itr, t.find c.self owner = some itr ∧
    amount.symbol = itr.balance.symbol ∧ amount.val ≤ itr.balance.val ∧
      (t.modify c.self owner (some owner) fun f => do
        return { f with balance := ← f.balance.sub amount }) = .ok t' := by
  simp only [sub_fund, bind_eq_ok, MultiIndex.get_eq_ok, Asset.ge_eq_ok, check_eq_ok]
  constructor
  · rintro ⟨itr, hitr, _, ⟨hsym, rfl⟩, _, hle, h⟩
    exact ⟨itr, hitr, hsym, of_decide_eq_true hle, h⟩
  · rintro ⟨itr, hitr, hsym, hle, h⟩
    exact ⟨itr, hitr, _, ⟨hsym, rfl⟩, (), decide_eq_true hle, h⟩

theorem sub_fund_gained (hc : c.self = Name.eosio) (h : sub_fund c t owner amount missing = .ok t') :
    ∃ d, fund t' = gained (fund t) owner d ∧
      (-(2 ^ 62 - 1) ≤ amount.val ∧ amount.val ≤ 2 ^ 62 - 1 → d = -amount.val) := by
  rw [sub_fund_eq_ok, hc] at h
  obtain ⟨-, -, -, -, h⟩ := h
  obtain ⟨old, row, -, hrow, hpart⟩ := part_modify (fun f => f.balance.val) h
  refine ⟨_, hpart, fun hr => ?_⟩
  simp only [bind_eq_ok, pure_eq_ok, Except.ok.injEq] at hrow
  obtain ⟨rest, hrest, rfl⟩ := hrow
  rw [Asset.sub_val hr hrest]
  omega

theorem sub_fund_every (hc : c.self = Name.eosio) (ht : Every InEos t)
    (h : sub_fund c t owner amount missing = .ok t') : Every InEos t' := by
  rw [sub_fund_eq_ok, hc] at h
  obtain ⟨-, -, -, -, h⟩ := h
  refine ht.modify (fun old row hold hrow => ?_) h
  simp only [bind_eq_ok, pure_eq_ok, Except.ok.injEq] at hrow
  obtain ⟨rest, hrest, rfl⟩ := hrow
  exact (Asset.sub_symbol hrest).trans (ht _ _ hold)

theorem sub_fund_symbol (hc : c.self = Name.eosio) (ht : Every InEos t)
    (h : sub_fund c t owner amount missing = .ok t') : amount.symbol = Symbol.EOS := by
  rw [sub_fund_eq_ok, hc] at h
  obtain ⟨itr, hitr, hsym, -⟩ := h
  exact hsym.trans (ht _ _ hitr)

end Funds

/-! ## Stakes and refunds -/

def weights : AllWeights → Name → Int := part fun w => w.net.val + w.cpu.val

/-- Amounts that were added up without wrapping. -/
structure Weights.Fits (w : Weights) : Prop where
  net_symbol : w.net.symbol = Symbol.EOS
  cpu_symbol : w.cpu.symbol = Symbol.EOS
  net_nonneg : 0 ≤ w.net.val
  net_small : w.net.val ≤ 2 ^ 62 - 1
  cpu_nonneg : 0 ≤ w.cpu.val
  cpu_small : w.cpu.val ≤ 2 ^ 62 - 1

section Weights

variable {c : Ctx} {t t' : AllWeights} {owner : Name} {net cpu : Asset}

theorem add_weights_gained (hc : c.self = Name.eosio) (ht : Every Weights.Fits t) (hnew : Weights.Fits ⟨owner, net, cpu⟩)
    (h : add_weights c t owner net cpu = .ok t') :
    weights t' = gained (weights t) owner (net.val + cpu.val) ∧ Every Weights.Fits t' := by
  unfold add_weights at h
  rw [hc] at h
  split at h
  · exact ⟨part_emplace _ h, ht.emplace hnew h⟩
  · obtain ⟨hn, hn', hc, hc'⟩ := And.intro hnew.net_nonneg (And.intro hnew.net_small
      (And.intro hnew.cpu_nonneg hnew.cpu_small))
    simp only at hn hn' hc hc'
    have hupd : ∀ old row : Weights, (do return { old with net := ← old.net.add net, cpu := ← old.cpu.add cpu }) =
        Except.ok (ε := String) row → row.net.symbol = old.net.symbol ∧ row.cpu.symbol = old.cpu.symbol ∧
          row.net.val = old.net.val + net.val ∧ row.cpu.val = old.cpu.val + cpu.val ∧
          row.net.val ≤ 2 ^ 62 - 1 ∧ row.cpu.val ≤ 2 ^ 62 - 1 := by
      intro old row hrow
      simp only [bind_eq_ok, pure_eq_ok, Except.ok.injEq] at hrow
      obtain ⟨n, hn, k, hk, rfl⟩ := hrow
      obtain ⟨-, hns, hnv, -, hnle⟩ := (Asset.add_eq_ok ⟨by omega, by omega⟩).1 hn
      obtain ⟨-, hks, hkv, -, hkle⟩ := (Asset.add_eq_ok ⟨by omega, by omega⟩).1 hk
      exact ⟨hns, hks, hnv, hkv, hnle, hkle⟩
    constructor
    · obtain ⟨old, row, -, hrow, hpart⟩ := part_modify (fun w => w.net.val + w.cpu.val) h
      obtain ⟨-, -, hnet, hcpu, -⟩ := hupd old row hrow
      refine hpart.trans (congrArg _ ?_)
      omega
    · refine ht.modify (fun old row hold hrow => ?_) h
      obtain ⟨hns, hks, hnv, hkv, hnle, hkle⟩ := hupd old row hrow
      have hfits := ht _ _ hold
      have hn₀ := hfits.net_nonneg
      have hk₀ := hfits.cpu_nonneg
      exact ⟨hns.trans hfits.net_symbol, hks.trans hfits.cpu_symbol, by omega, hnle, by omega, hkle⟩

theorem sub_weights_gained (hc : c.self = Name.eosio) (ht : Every Weights.Fits t) (hn : 0 ≤ net.val) (hk : 0 ≤ cpu.val)
    (h : sub_weights c t owner net cpu = .ok t') :
    weights t' = gained (weights t) owner (-(net.val + cpu.val)) ∧ Every Weights.Fits t' ∧
      Weights.Fits ⟨owner, net, cpu⟩ := by
  simp only [sub_weights, bind_eq_ok, MultiIndex.get_eq_ok, Asset.ge_eq_ok, check_eq_ok, hc] at h
  obtain ⟨itr, hitr, _, ⟨hns, rfl⟩, -, hnle, _, ⟨hks, rfl⟩, -, hkle, h⟩ := h
  have hnle := of_decide_eq_true hnle
  have hkle := of_decide_eq_true hkle
  have hfits := ht _ _ hitr
  have hnsmall := hfits.net_small
  have hksmall := hfits.cpu_small
  have hrow : ∀ row : Weights, (do return { itr with net := ← itr.net.sub net, cpu := ← itr.cpu.sub cpu }) =
      Except.ok (ε := String) row → row.net.symbol = itr.net.symbol ∧ row.cpu.symbol = itr.cpu.symbol ∧
        row.net.val = itr.net.val - net.val ∧ row.cpu.val = itr.cpu.val - cpu.val := by
    intro row hrow
    simp only [bind_eq_ok, pure_eq_ok, Except.ok.injEq] at hrow
    obtain ⟨n, hn', k, hk', rfl⟩ := hrow
    obtain ⟨-, hns, hnv, -⟩ := (Asset.sub_eq_ok hn hnle).1 hn'
    obtain ⟨-, hks, hkv, -⟩ := (Asset.sub_eq_ok hk hkle).1 hk'
    exact ⟨hns, hks, hnv, hkv⟩
  obtain ⟨old, row, hold, hupd, hpart⟩ := part_modify (fun w => w.net.val + w.cpu.val) h
  obtain rfl := Option.some.inj (hitr.symm.trans hold)
  obtain ⟨hrs, hrs', hrv, hrv'⟩ := hrow row hupd
  refine ⟨hpart.trans (congrArg _ (by omega)), ?_, ?_⟩
  · refine ht.modify (fun old' row' hold' hupd' => ?_) h
    obtain rfl := Option.some.inj (hitr.symm.trans hold')
    obtain ⟨hrs, hrs', hrv, hrv'⟩ := hrow row' hupd'
    exact ⟨hrs.trans hfits.net_symbol, hrs'.trans hfits.cpu_symbol, by omega, by omega, by omega, by omega⟩
  · exact ⟨hns.trans hfits.net_symbol, hks.trans hfits.cpu_symbol, hn, hnle.trans hnsmall, hk, hkle.trans hksmall⟩

end Weights

/-! ## All of it -/

structure Tables.Fits (t : Tables) : Prop where
  rexfund : Every InEos t.rexfund
  stakes : Every Weights.Fits t.stakes
  refunds : Every Weights.Fits t.refunds

/-- What `u` has in `eosio`: deposits, stakes and refunds. -/
def held (t : Tables) (u : Name) : Int := fund t.rexfund u + weights t.stakes u + weights t.refunds u

/-- `d` units more for `u`, and the transfers that pay for them. -/
inductive Settles (c : Ctx) (u : Name) : Int → List Action → Prop
  | still : Settles c u 0 []
  | pay_in {q : Asset} {d : Int} (hsym : q.symbol = Symbol.EOS)
      (hd : -(2 ^ 62 - 1) ≤ q.val ∧ q.val ≤ 2 ^ 62 - 1 → d = q.val) : Settles c u d [pay_in c u q []]
  | pay_out {q : Asset} {d : Int} (hsym : q.symbol = Symbol.EOS)
      (hd : -(2 ^ 62 - 1) ≤ q.val ∧ q.val ≤ 2 ^ 62 - 1 → d = -q.val) : Settles c u d [pay_out c u q]

section Held

variable {c : Ctx} {t : Tables} {call : SysCall} {o : Outcome Tables}

theorem Tables.empty_fits : Tables.empty.Fits where
  rexfund _ _ h := by cases h
  stakes _ _ h := by cases h
  refunds _ _ h := by cases h

theorem held_gained {t t' : Tables} {u : Name} {d₁ d₂ d₃ : Int} (h₁ : fund t'.rexfund = gained (fund t.rexfund) u d₁)
    (h₂ : weights t'.stakes = gained (weights t.stakes) u d₂)
    (h₃ : weights t'.refunds = gained (weights t.refunds) u d₃) : held t' = gained (held t) u (d₁ + d₂ + d₃) := by
  funext w
  unfold held
  rw [h₁, h₂, h₃]
  by_cases hw : w = u
  · subst hw
    simp only [gained_self]
    omega
  · simp only [gained_ne _ _ hw]

theorem Staked.fits {net cpu total : Asset} (h : Staked net cpu) (htotal : net.add cpu = .ok total) (owner : Name) :
    total.val = net.val + cpu.val ∧ Weights.Fits ⟨owner, net, cpu⟩ := by
  have hn := h.net_nonneg
  have hk := h.cpu_nonneg
  have hval := Asset.add_val_of_nonneg hn hk h.pos htotal
  have hsmall := Asset.add_small htotal
  exact ⟨hval, h.net_symbol, h.cpu_symbol, hn, by change net.val ≤ _; omega, hk, by change cpu.val ≤ _; omega⟩

/-- What a call does to what is held, and what it sends for it. -/
theorem Effect.held (hc : c.self = Name.eosio) (hfits : t.Fits) (h : Effect c t call o) :
    o.tables.Fits ∧ ∃ d, held o.tables = gained (held t) call.account d ∧
      (call.stakes = true → Settles c call.account d o.inline) := by
  have hstill : ∀ {f : Name → Int} {u : Name}, f = gained f u 0 := fun {f u} => (gained_zero f u).symm
  cases h with
  | pays hcall | paid hcall | noted hcall =>
    exact ⟨⟨hfits.rexfund, hfits.stakes, hfits.refunds⟩, 0, held_gained hstill hstill hstill,
      fun hs => absurd (hs.symm.trans hcall) (by decide)⟩
  | bytes =>
    exact ⟨⟨hfits.rexfund, hfits.stakes, hfits.refunds⟩, 0, held_gained hstill hstill hstill, fun hs => by cases hs⟩
  | deposit hsym hadd =>
    obtain ⟨d, hfund, hd⟩ := add_fund_gained hc hadd
    refine ⟨⟨add_fund_every hc hfits.rexfund hsym hadd, hfits.stakes, hfits.refunds⟩, _,
      held_gained hfund hstill hstill, fun _ => .pay_in hsym fun hr => ?_⟩
    rw [hd hr]
    omega
  | buyrex hsub _ =>
    obtain ⟨d, hfund, -⟩ := sub_fund_gained hc hsub
    exact ⟨⟨sub_fund_every hc hfits.rexfund hsub, hfits.stakes, hfits.refunds⟩, _,
      held_gained hfund hstill hstill, fun hs => by cases hs⟩
  | mvfrsavings =>
    exact ⟨⟨hfits.rexfund, hfits.stakes, hfits.refunds⟩, 0, held_gained hstill hstill hstill, fun hs => by cases hs⟩
  | sellrex _ hsym hadd =>
    obtain ⟨d, hfund, -⟩ := add_fund_gained hc hadd
    exact ⟨⟨add_fund_every hc hfits.rexfund hsym hadd, hfits.stakes, hfits.refunds⟩, _,
      held_gained hfund hstill hstill, fun hs => by cases hs⟩
  | withdraw hsub =>
    obtain ⟨d, hfund, hd⟩ := sub_fund_gained hc hsub
    refine ⟨⟨sub_fund_every hc hfits.rexfund hsub, hfits.stakes, hfits.refunds⟩, _,
      held_gained hfund hstill hstill, fun _ => .pay_out (sub_fund_symbol hc hfits.rexfund hsub) fun hr => ?_⟩
    rw [hd hr]
    omega
  | @delegatebw sender receiver net cpu total transfer stakes lastaction hstake hadd htotal =>
    obtain ⟨hval, hnew⟩ := hstake.fits htotal sender
    obtain ⟨hweights, hevery⟩ := add_weights_gained hc hfits.stakes hnew hadd
    refine ⟨⟨hfits.rexfund, hevery, hfits.refunds⟩, _, held_gained hstill hweights hstill, fun _ =>
      .pay_in ((Asset.add_symbol htotal).trans hstake.net_symbol) fun _ => ?_⟩
    omega
  | @undelegatebw _ _ net cpu _ _ _ hstake hsub hadd =>
    obtain ⟨hless, hevery, hpart⟩ :=
      sub_weights_gained hc hfits.stakes hstake.net_nonneg hstake.cpu_nonneg hsub
    obtain ⟨hmore, hevery'⟩ := add_weights_gained hc hfits.refunds hpart hadd
    have hsame : 0 + -(net.val + cpu.val) + (net.val + cpu.val) = 0 := by omega
    exact ⟨⟨hfits.rexfund, hevery, hevery'⟩, 0, hsame ▸ held_gained hstill hless hmore, fun _ => .still⟩
  | refund hrow htotal herase =>
    rw [hc] at hrow herase
    have hfit := hfits.refunds _ _ hrow
    have hk := hfit.cpu_nonneg
    obtain ⟨-, hsym, hval, -⟩ := (Asset.add_eq_ok ⟨by omega, hfit.cpu_small⟩).1 htotal
    refine ⟨⟨hfits.rexfund, hfits.stakes, hfits.refunds.erase herase⟩, _,
      held_gained hstill hstill (part_erase _ hrow herase), fun _ => .pay_out (hsym.trans hfit.net_symbol) fun _ => ?_⟩
    rw [hval]
    omega

end Held

end Mocksys

end Vaulta
