import Vaulta.Forwarding
import Vaulta.Mocksys

/-!
# What the calls of `mocksys` do

Which rows a call can change, what it sends, and what an account has put into `eosio`.
-/

namespace Vaulta

theorem Asset.ge_eq_ok {a b : Asset} {r : Bool} :
    a.ge b = .ok r ↔ b.symbol = a.symbol ∧ r = decide (b.val ≤ a.val) := by
  simp only [Asset.ge, bind_eq_ok, check_eq_ok, pure_eq_ok, Except.ok.injEq, exists_and_left, exists_const,
    Int64.le_iff_toInt_le, Asset.val, eq_comm (a := r)]
  rfl

/-- The calls that only move EOS into `eosio`, out of it, or within it. -/
def SysCall.stakes : SysCall → Bool
  | .deposit .. | .withdraw .. | .delegatebw .. | .undelegatebw .. | .refund .. => true
  | _ => false

namespace Mocksys

/-! ## Spec -/

/-- Two amounts to stake or unstake. -/
structure Staked (net cpu : Asset) : Prop where
  net_symbol : net.symbol = Symbol.EOS
  cpu_symbol : cpu.symbol = Symbol.EOS
  net_nonneg : 0 ≤ net.val
  cpu_nonneg : 0 ≤ cpu.val
  pos : 0 < net.amount + cpu.amount

/-- What the seller of RAM pays on top. -/
inductive Fees (account : Name) : List Action → Prop
  | none : Fees account []
  | fee {fee : Asset} :
      Fees account [System.transfer_action Name.eosio_token account account Name.eosio_ramfee fee []]

/-- A successful call, with what it changes and what it sends. -/
inductive Effect (c : Ctx) (t : Tables) : SysCall → Outcome Tables → Prop
  | pays {call : SysCall} {q : Asset} {memo : Memo} {lastaction : MultiIndex Name Name Unit LastAction}
      (hcall : call.stakes = false) :
      Effect c t call { tables := { t with lastaction }, inline := [pay_in c call.account q memo] }
  | paid {call : SysCall} {q : Asset} {fees : List Action} {lastaction : MultiIndex Name Name Unit LastAction}
      (hcall : call.stakes = false) (hfees : Fees call.account fees) :
      Effect c t call { tables := { t with lastaction }, inline := fees ++ [pay_out c call.account q] }
  | bytes {payer receiver : Name} {n : UInt32} {q : Asset} {lastaction : MultiIndex Name Name Unit LastAction} :
      Effect c t (.buyrambytes payer receiver n)
        { tables := { t with lastaction }, inline := [⟨c.self, System.active payer, .sys (.buyram payer receiver q)⟩] }
  | deposit {owner : Name} {amount : Asset} {rexfund : Funds} {lastaction : MultiIndex Name Name Unit LastAction}
      (hsym : amount.symbol = Symbol.EOS) (hadd : add_fund c t.rexfund owner amount = .ok rexfund) :
      Effect c t (.deposit owner amount)
        { tables := { t with rexfund, lastaction }, inline := [pay_in c owner amount []] }
  | buyrex {sender : Name} {amount rex : Asset} {rexfund staked : Funds}
      {lastaction : MultiIndex Name Name Unit LastAction}
      (hsub : sub_fund c t.rexfund sender amount "no deposit found" = .ok rexfund)
      (hadd : add_fund c t.staked sender rex = .ok staked) :
      Effect c t (.buyrex sender amount) { tables := { t with rexfund, staked, lastaction } }
  | mvfrsavings {owner : Name} {rex : Asset} {staked unstaking : Funds}
      {rexbal : MultiIndex Name Name Name RexBalance} {lastaction : MultiIndex Name Name Unit LastAction}
      (hsub : sub_fund c t.staked owner rex "no staked found" = .ok staked)
      (hadd : add_fund c t.unstaking owner rex = .ok unstaking) :
      Effect c t (.mvfrsavings owner rex) { tables := { t with staked, unstaking, rexbal, lastaction } }
  | sellrex {owner : Name} {rex eos : Asset} {unstaking rexfund : Funds}
      {lastaction : MultiIndex Name Name Unit LastAction}
      (hsub : sub_fund c t.unstaking owner rex "no unstaking found" = .ok unstaking) (hsym : eos.symbol = Symbol.EOS)
      (hadd : add_fund c t.rexfund owner eos = .ok rexfund) :
      Effect c t (.sellrex owner rex) { tables := { t with unstaking, rexfund, lastaction } }
  | withdraw {owner : Name} {quantity : Asset} {rexfund : Funds} {lastaction : MultiIndex Name Name Unit LastAction}
      (hsub : sub_fund c t.rexfund owner quantity "no deposit found" = .ok rexfund) :
      Effect c t (.withdraw owner quantity)
        { tables := { t with rexfund, lastaction }, inline := [pay_out c owner quantity] }
  | delegatebw {sender receiver : Name} {net cpu total : Asset} {transfer : Bool} {stakes : AllWeights}
      {lastaction : MultiIndex Name Name Unit LastAction} (hstake : Staked net cpu)
      (hadd : add_weights c t.stakes sender net cpu = .ok stakes) (htotal : net.add cpu = .ok total) :
      Effect c t (.delegatebw sender receiver net cpu transfer)
        { tables := { t with stakes, lastaction }, inline := [pay_in c sender total []] }
  | undelegatebw {sender receiver : Name} {net cpu : Asset} {stakes refunds : AllWeights}
      {lastaction : MultiIndex Name Name Unit LastAction} (hstake : Staked net cpu)
      (hsub : sub_weights c t.stakes sender net cpu = .ok stakes)
      (hadd : add_weights c t.refunds sender net cpu = .ok refunds) :
      Effect c t (.undelegatebw sender receiver net cpu) { tables := { t with stakes, refunds, lastaction } }
  | refund {owner : Name} {row : Weights} {total : Asset} {refunds : AllWeights}
      {lastaction : MultiIndex Name Name Unit LastAction} (hrow : t.refunds.find c.self owner = some row)
      (htotal : row.net.add row.cpu = .ok total) (herase : t.refunds.erase c.self owner = .ok refunds) :
      Effect c t (.refund owner)
        { tables := { t with refunds, lastaction }, inline := [pay_out c owner total] }
  | noted {call : SysCall} {votes : MultiIndex Name Name Name Votes} {lastaction : MultiIndex Name Name Unit LastAction}
      (hcall : call.stakes = false) : Effect c t call { tables := { t with votes, lastaction } }

section Spec

variable {ds : Datastream} {c : Ctx} {t t' : Tables} {o : Outcome Tables} {call : SysCall}

theorem converted_eq_ok {α : Type} {r : Option α} {a : α} : converted r = .ok a ↔ r = some a := by
  cases r <;> simp [converted]

theorem set_last_action_eq_ok {action : Name} :
    set_last_action c t action = .ok t' ↔
      ∃ lastaction, t.lastaction.set c.self c.self ⟨action⟩ = .ok lastaction ∧ t' = { t with lastaction } := by
  simp only [set_last_action, bind_eq_ok, pure_eq_ok, Except.ok.injEq, eq_comm (a := t')]

theorem set_last_action_ok (c : Ctx) (t : Tables) (action : Name) :
    ∃ lastaction, set_last_action c t action = .ok { t with lastaction } := by
  suffices hset : ∃ lastaction, t.lastaction.set c.self c.self ⟨action⟩ = .ok lastaction by
    obtain ⟨lastaction, h⟩ := hset
    exact ⟨lastaction, set_last_action_eq_ok.2 ⟨lastaction, h, rfl⟩⟩
  unfold MultiIndex.set
  split
  · rename_i hnone
    exact ⟨_, MultiIndex.emplace_eq_ok.2 ⟨MultiIndex.find_eq_none.1 hnone, rfl⟩⟩
  · rename_i hsome
    obtain ⟨p, hrow⟩ := MultiIndex.find_eq_some.1 hsome
    exact ⟨_, MultiIndex.modify_eq_ok.2 ⟨_, _, hrow, rfl, rfl, rfl⟩⟩

theorem ramfee_fees {account : Name} {q : Asset} {fees : List Action} (h : ramfee account q = .ok fees) :
    Fees account fees := by
  simp only [ramfee] at h
  split at h
  · simp only [bind_eq_ok, pure_eq_ok, Except.ok.injEq] at h
    obtain ⟨fee, -, rfl⟩ := h
    exact .fee
  · obtain rfl := Except.ok.inj h
    exact .none

theorem rex_to_eos_symbol {rex : Int64} {eos : Asset} (h : rex_to_eos c t rex = .ok eos) :
    eos.symbol = Symbol.EOS := by
  simp only [rex_to_eos, bind_eq_ok, Asset.make_eq_ok] at h
  obtain ⟨_, -, _, -, rfl, -⟩ := h
  rfl

theorem staked {net cpu : Asset} {u₁ u₂ u₃ u₄ u₅ : Unit} {m₁ m₂ m₃ m₄ m₅ : String}
    (h₁ : check (net.symbol = Symbol.EOS) m₁ = .ok u₁) (h₂ : check (cpu.symbol = Symbol.EOS) m₂ = .ok u₂)
    (h₃ : check (0 ≤ net.amount) m₃ = .ok u₃) (h₄ : check (0 ≤ cpu.amount) m₄ = .ok u₄)
    (h₅ : check (0 < net.amount + cpu.amount) m₅ = .ok u₅) : Staked net cpu where
  net_symbol := check_eq_ok.1 h₁
  cpu_symbol := check_eq_ok.1 h₂
  net_nonneg := Int64.le_iff_toInt_le.1 (check_eq_ok.1 h₃)
  cpu_nonneg := Int64.le_iff_toInt_le.1 (check_eq_ok.1 h₄)
  pos := check_eq_ok.1 h₅

theorem apply_effect (h : apply ds c t call = .ok o) : Effect c t call o := by
  cases call with
  | bidname =>
    simp only [apply, bidname, bind_eq_ok, pure_eq_ok, Except.ok.injEq, set_last_action_eq_ok] at h
    obtain ⟨-, -, -, -, -, -, _, ⟨_, -, rfl⟩, rfl⟩ := h
    exact .pays rfl
  | bidrefund =>
    simp only [apply, bidrefund, bind_eq_ok, pure_eq_ok, Except.ok.injEq, set_last_action_eq_ok] at h
    obtain ⟨_, -, _, ⟨_, -, rfl⟩, rfl⟩ := h
    exact @Effect.paid _ _ (.bidrefund ..) _ [] _ rfl .none
  | buyram | buyramself | buyramburn =>
    simp only [apply, buyram, buyramself, buyramburn, bind_eq_ok, pure_eq_ok, Except.ok.injEq,
      set_last_action_eq_ok] at h
    obtain ⟨_, ⟨_, -, rfl⟩, rfl⟩ := h
    exact .pays rfl
  | buyrambytes =>
    simp only [apply, buyrambytes, bind_eq_ok, pure_eq_ok, Except.ok.injEq, set_last_action_eq_ok] at h
    obtain ⟨_, -, _, -, _, -, _, ⟨_, -, rfl⟩, rfl⟩ := h
    exact .bytes
  | sellram =>
    simp only [apply, sellram, bind_eq_ok, pure_eq_ok, Except.ok.injEq, set_last_action_eq_ok] at h
    obtain ⟨_, -, _, -, fees, hfees, _, ⟨_, -, rfl⟩, rfl⟩ := h
    exact .paid rfl (ramfee_fees hfees)
  | deposit =>
    simp only [apply, deposit, bind_eq_ok, pure_eq_ok, Except.ok.injEq, set_last_action_eq_ok] at h
    obtain ⟨-, -, _, hsym, -, -, _, hadd, _, ⟨_, -, rfl⟩, rfl⟩ := h
    exact .deposit (check_eq_ok.1 hsym) hadd
  | buyrex =>
    simp only [apply, buyrex, bind_eq_ok, pure_eq_ok, Except.ok.injEq, set_last_action_eq_ok] at h
    obtain ⟨-, -, _, hsub, _, -, _, hadd, _, ⟨_, -, rfl⟩, rfl⟩ := h
    exact .buyrex hsub hadd
  | mvfrsavings =>
    simp only [apply, mvfrsavings, bind_eq_ok, pure_eq_ok, Except.ok.injEq, set_last_action_eq_ok] at h
    obtain ⟨-, -, _, hsub, _, hadd, _, -, _, ⟨_, -, rfl⟩, rfl⟩ := h
    exact .mvfrsavings hsub hadd
  | sellrex =>
    simp only [apply, sellrex, bind_eq_ok, pure_eq_ok, Except.ok.injEq, set_last_action_eq_ok] at h
    obtain ⟨-, -, _, hsub, _, hback, _, hadd, _, ⟨_, -, rfl⟩, rfl⟩ := h
    exact .sellrex hsub (rex_to_eos_symbol hback) hadd
  | withdraw =>
    simp only [apply, withdraw, bind_eq_ok, pure_eq_ok, Except.ok.injEq, set_last_action_eq_ok] at h
    obtain ⟨-, -, _, hsub, _, ⟨_, -, rfl⟩, rfl⟩ := h
    exact .withdraw hsub
  | powerup =>
    simp only [apply, powerup, bind_eq_ok, pure_eq_ok, Except.ok.injEq, set_last_action_eq_ok] at h
    obtain ⟨-, -, -, -, -, -, _, -, _, ⟨_, -, rfl⟩, rfl⟩ := h
    exact .pays rfl
  | delegatebw =>
    simp only [apply, delegatebw, bind_eq_ok, pure_eq_ok, Except.ok.injEq, set_last_action_eq_ok] at h
    obtain ⟨-, -, _, hs, _, hs', _, hn, _, hn', _, hp, _, hadd, _, htotal, _, ⟨_, -, rfl⟩, rfl⟩ := h
    exact .delegatebw (staked hs hs' hn hn' hp) hadd htotal
  | undelegatebw =>
    simp only [apply, undelegatebw, bind_eq_ok, pure_eq_ok, Except.ok.injEq, set_last_action_eq_ok] at h
    obtain ⟨-, -, _, hs, _, hs', _, hn, _, hn', _, hp, _, hsub, _, hadd, _, ⟨_, -, rfl⟩, rfl⟩ := h
    exact .undelegatebw (staked hs hs' hn hn' hp) hsub hadd
  | refund =>
    simp only [apply, refund, bind_eq_ok, pure_eq_ok, Except.ok.injEq, set_last_action_eq_ok,
      MultiIndex.get_eq_ok] at h
    obtain ⟨-, -, _, hrow, _, htotal, _, herase, _, ⟨_, -, rfl⟩, rfl⟩ := h
    exact .refund hrow htotal herase
  | ramburn | ramtransfer =>
    simp only [apply, ramburn, ramtransfer, bind_eq_ok, pure_eq_ok, Except.ok.injEq, set_last_action_eq_ok] at h
    obtain ⟨_, -, _, ⟨_, -, rfl⟩, rfl⟩ := h
    exact @Effect.noted _ _ _ t.votes _ rfl
  | voteproducer =>
    simp only [apply, voteproducer, bind_eq_ok, pure_eq_ok, Except.ok.injEq, set_last_action_eq_ok] at h
    obtain ⟨_, -, -, -, _, -, _, ⟨_, -, rfl⟩, rfl⟩ := h
    exact .noted rfl
  | _ => cases h

/-- What a call for `u` leads to: transfers between `u` and `eosio`, a fee, and calls for `u`. -/
inductive Inner (u : Name) : Action → Prop
  | pay_in {q : Asset} {memo : Memo} :
      Inner u ⟨Name.eosio_token, System.active u, .transfer u Name.eosio q memo⟩
  | pay_out {q : Asset} :
      Inner u ⟨Name.eosio_token, System.active Name.eosio, .transfer Name.eosio u q []⟩
  | fee {q : Asset} :
      Inner u ⟨Name.eosio_token, System.active u, .transfer u Name.eosio_ramfee q []⟩
  | call {l : List PermissionLevel} {call : SysCall} (hu : call.account = u) : Inner u ⟨Name.eosio, l, .sys call⟩

theorem pay_in_inner (hc : c.self = Name.eosio) (u : Name) (q : Asset) (memo : Memo) : Inner u (pay_in c u q memo) := by
  unfold pay_in
  rw [hc]
  exact .pay_in

theorem pay_out_inner (hc : c.self = Name.eosio) (u : Name) (q : Asset) : Inner u (pay_out c u q) := by
  unfold pay_out
  rw [hc]
  exact .pay_out

theorem Effect.sends (hc : c.self = Name.eosio) (h : Effect c t call o) : ∀ b ∈ o.inline, Inner call.account b := by
  have hone : ∀ {u : Name} {b' : Action}, Inner u b' → ∀ b ∈ [b'], Inner u b := fun hb' b hb =>
    List.mem_singleton.1 hb ▸ hb'
  cases h with
  | pays | deposit | delegatebw => exact hone (pay_in_inner hc _ _ _)
  | withdraw | refund => exact hone (pay_out_inner hc _ _)
  | bytes => exact hone (by rw [hc]; exact .call rfl)
  | buyrex | mvfrsavings | sellrex | undelegatebw | noted => simp
  | paid _ hfees =>
    intro b hb
    rcases List.mem_append.1 hb with hb | hb
    · cases hfees with
      | none => cases hb
      | fee => exact hone .fee b hb
    · exact hone (pay_out_inner hc _ _) b hb

end Spec

end Mocksys

end Vaulta
