import Vaulta.Release
import Vaulta.Swaps

/-!
# What a wrapper saves

A wrapper does in one action what its user can do in two: swap by a transfer, and ask
`eosio` himself. It takes its own way through the ledger, but leaves the same state.
-/

namespace Vaulta

def Asset.in_eos (a : Asset) : Asset := ⟨a.amount, Symbol.EOS⟩

namespace System

/-- A wrapper that swaps first: the account it swaps for, what it takes, the amounts it
passes on, and the call that `eosio` gets in the end, all in EOS. -/
inductive Wraps : SysCall → Name → Except String Asset → List Asset → SysCall → Prop
  | bidname {bidder newname : Name} {bid : Asset} :
      Wraps (.bidname bidder newname bid) bidder (.ok bid) [bid] (.bidname bidder newname bid.in_eos)
  | buyram {payer receiver : Name} {quant : Asset} :
      Wraps (.buyram payer receiver quant) payer (.ok quant) [quant] (.buyram payer receiver quant.in_eos)
  | buyramburn {payer : Name} {quantity : Asset} {memo : Memo} :
      Wraps (.buyramburn payer quantity memo) payer (.ok quantity) [quantity]
        (.buyramburn payer quantity.in_eos memo)
  | buyramself {payer : Name} {quant : Asset} :
      Wraps (.buyramself payer quant) payer (.ok quant) [quant] (.buyramself payer quant.in_eos)
  | deposit {owner : Name} {amount : Asset} :
      Wraps (.deposit owner amount) owner (.ok amount) [amount] (.deposit owner amount.in_eos)
  | donatetorex {payer : Name} {quantity : Asset} {memo : Memo} :
      Wraps (.donatetorex payer quantity memo) payer (.ok quantity) [quantity]
        (.donatetorex payer quantity.in_eos memo)
  | delegatebw {sender receiver : Name} {net cpu : Asset} {transfer : Bool} :
      Wraps (.delegatebw sender receiver net cpu transfer) sender (net.add cpu) [net, cpu]
        (.delegatebw sender receiver net.in_eos cpu.in_eos transfer)

theorem to_eos_in_range {a : Asset} (h : -2 ^ 62 < a.val ∧ a.val < 2 ^ 62) : to_eos a = .ok a.in_eos := by
  obtain ⟨h1, h2⟩ := h
  exact make_eos_eq_ok.2 ⟨rfl, by change _ ≤ a.val; omega, by change a.val ≤ _; omega⟩

theorem Wraps.apply_sys {c : View} {t : Tables} {w call : SysCall} {u : Name} {total : Except String Asset}
    {parts : List Asset} (h : Wraps w u total parts call)
    (hrange : ∀ a ∈ parts, -2 ^ 62 < a.val ∧ a.val < 2 ^ 62) :
    apply_sys c t w = swap_and_forward c.toCtx t u total (.ok call) := by
  cases h with
  | @delegatebw sender receiver net cpu transfer =>
    have hnet := to_eos_in_range (hrange net (by simp))
    have hcpu := to_eos_in_range (hrange cpu (by simp))
    simp only [System.apply_sys, System.delegatebw, hnet, hcpu, ok_bind, pure_eq_ok]
  | _ =>
    simp only [List.mem_singleton, forall_eq] at hrange
    have hpart := to_eos_in_range hrange
    simp only [System.apply_sys, System.bidname, System.buyram, System.buyramburn, System.buyramself,
      System.deposit, System.donatetorex, hpart, ok_bind, pure_eq_ok]

theorem Swapped.ctx {c c' : Ctx} (h : c.self = c'.self) {t : Tables} {account : Name} {q : Asset}
    {accounts : Accounts} (hs : Swapped c t account q accounts) : Swapped c' t account q accounts :=
  ⟨h ▸ hs.symbol, hs.pos, hs.small, h ▸ hs.moved.ctx h⟩

end System

namespace Env

variable {σ : Type} {e : Env σ} {s s' : State σ} {m : Asset} {u : Name} {rest : List Action}
  {authorization authorization' : List PermissionLevel} {memo memo' : Memo}

/-! ## Both ways in -/

/-- What is left to do once the XYZ are with the contract. -/
def credit (e : Env σ) (u : Name) (q : Asset) : Action :=
  System.transfer_action Name.eosio_token e.self e.self u ⟨q.amount, Symbol.EOS⟩ []

theorem exec_swaptrace (s : State σ) (u : Name) (q : Asset) :
    e.exec s ⟨e.self, System.active e.self, .swaptrace u q⟩ = .ok (s, []) := by
  have hself : (e.ctx s e.self (System.active e.self)).has_auth e.self = true := by
    simp [Ctx.has_auth, ctx, System.active]
  unfold exec
  rw [if_pos rfl]
  simp only [System.apply, System.swaptrace, view_toCtx, ctx_self, bind_eq_ok, pure_eq_ok]
  exact ⟨{ tables := s.system }, ⟨(), Ctx.require_auth_eq_ok.2 hself, rfl⟩, rfl⟩

theorem exec_sys {w : SysCall} {queued : List Action} :
    e.exec s ⟨e.self, authorization, .sys w⟩ = .ok (s', queued) ↔
      ∃ o, System.apply_sys (e.view s authorization) s.system w = .ok o ∧
        s' = { s with system := o.tables } ∧ queued = o.inline := exec_own

theorem commits_wrapper {w call : SysCall} {total : Except String Asset} {parts : List Asset}
    (hw : System.Wraps w u total parts call) (hrange : ∀ a ∈ parts, -2 ^ 62 < a.val ∧ a.val < 2 ^ 62)
    (hauth : u ∈ authorization.map (·.actor)) :
    e.Commits s (⟨e.self, authorization, .sys w⟩ :: rest) s' ↔
      ∃ q accounts, total = .ok q ∧ System.Swapped (e.ctx s e.self []) s.system u q accounts ∧
        e.Commits { s with system := { s.system with accounts } }
          (e.credit u q :: System.sys_action u call :: rest) s' := by
  rw [Commits, Machine.commits_cons]
  simp only [exec_sys, hw.apply_sys hrange, System.swap_and_forward_eq_ok]
  constructor
  · rintro ⟨s₁, queued, ⟨o, ⟨-, q, accounts, _, hq, hswap, hcall, rfl⟩, rfl, rfl⟩, ht⟩
    cases hcall
    exact ⟨q, accounts, hq, hswap.ctx (by rfl), (Machine.commits_leaf (exec_swaptrace _ _ _)).1 ht⟩
  · rintro ⟨q, accounts, hq, hswap, ht⟩
    exact ⟨_, _, ⟨_, ⟨(Ctx.has_auth_iff _ _).2 hauth, q, accounts, call, hq, hswap.ctx (by rfl), rfl, rfl⟩, rfl, rfl⟩,
      (Machine.commits_leaf (exec_swaptrace _ _ _)).2 ht⟩

theorem commits_xyz_in (hm : System.Minted e.self m s.system)
    (hhome : s.system.accounts.rows e.self m.symbol.code ≠ none) (hu : u ≠ e.self)
    (hauth : u ∈ authorization.map (·.actor)) (hmemo : memo.length ≤ 256) {q : Asset} :
    e.Commits s (⟨e.self, authorization, .transfer u e.self q memo⟩ :: rest) s' ↔
      ∃ accounts, System.Swapped (e.ctx s e.self []) s.system u q accounts ∧
        e.Commits { s with system := { s.system with accounts } } (e.credit u q :: rest) s' := by
  rw [Commits, Machine.commits_cons]
  simp only [exec_xyz_transfer, System.transfer_eq_ok]
  constructor
  · rintro ⟨s₁, queued, ⟨o, ⟨st, accounts, -, -, -, -, hvalid, hpos, -, -, hmove, hcfg, rfl⟩, rfl, rfl⟩, ht⟩
    rw [if_pos (by rfl)] at ht
    have hcfg := hcfg rfl
    have hrow : s.system.accounts.rows e.self q.symbol.code ≠ none := by
      rw [hm.config_eq hcfg]
      exact hhome
    exact ⟨accounts, ⟨hcfg, hpos, ((Asset.is_valid_iff q).1 hvalid).1.2, hmove.payer hu hrow⟩, ht⟩
  · rintro ⟨accounts, hswap, ht⟩
    have hsym := hm.config_eq hswap.symbol
    have hpos := hswap.pos
    have hrow : s.system.accounts.rows e.self q.symbol.code ≠ none := by
      rw [hsym]
      exact hhome
    refine ⟨_, _, ⟨_, ⟨⟨m, m, e.self⟩, accounts, hu, (Ctx.has_auth_iff _ _).2 hauth, e.self_is_account _, ?_, ?_,
      hpos, hsym, hmemo, hswap.moved.payer hu hrow, fun _ => hswap.symbol, rfl⟩, rfl, rfl⟩, ?_⟩
    · rw [hsym]
      exact hm.find_stat
    · exact (Asset.is_valid_iff q).2 ⟨⟨by omega, hswap.small⟩, hsym ▸ hm.symbol_valid⟩
    · rw [if_pos (by rfl)]
      exact ht

/-! ## The way out -/

theorem eos_in_any (hm : System.Minted e.self m s.system) (hu : u ≠ e.self)
    (hself : e.self ∉ authorization.map (·.actor)) (hself' : e.self ∉ authorization'.map (·.actor))
    (hauth' : u ∈ authorization'.map (·.actor)) (hmemo' : memo'.length ≤ 256) {q : Asset}
    (h : e.Commits s [⟨Name.eosio_token, authorization, .transfer u e.self q memo⟩] s') :
    e.Commits s [⟨Name.eosio_token, authorization', .transfer u e.self q memo'⟩] s' := by
  have hpayer : ∀ {l : List PermissionLevel}, e.self ∉ l.map (·.actor) →
      (e.ctx s Name.eosio_token l).has_auth e.self = false := fun hl =>
    Bool.eq_false_iff.2 fun hx => hl ((Ctx.has_auth_iff _ _).1 hx)
  have hends : ¬ (u = e.self ∨ e.self ≠ e.self) := by simp [hu]
  simp only [Commits, Machine.commits_cons, exec_token_transfer, Token.transfer_eq_ok] at h ⊢
  obtain ⟨s₁, queued, ⟨o, ⟨st, accounts, -, -, hacc, hst, hvalid, hpos, hsym, -, hmove, rfl⟩, hn, rfl⟩, ht⟩ := h
  rw [hpayer hself] at hmove
  obtain ⟨-, ⟨hexempt, rfl⟩ | ⟨hexempt, hq, symbol, hcfg, hsmall, hsymbol, rfl⟩⟩ :=
    (System.on_transfer_eq_ok hends).1 hn
  · refine ⟨_, _, ⟨_, ⟨st, accounts, hu, (Ctx.has_auth_iff _ _).2 hauth', hacc, hst, hvalid, hpos, hsym, hmemo',
      ?_, rfl⟩, (System.on_transfer_eq_ok hends).2 ⟨hpos, .inl ⟨hexempt, rfl⟩⟩, rfl⟩, ht⟩
    rw [hpayer hself']
    exact hmove
  · obtain rfl := hm.config_eq hcfg
    refine ⟨_, _, ⟨_, ⟨st, accounts, hu, (Ctx.has_auth_iff _ _).2 hauth', hacc, hst, hvalid, hpos, hsym, hmemo',
      ?_, rfl⟩, (System.on_transfer_eq_ok hends).2
        ⟨hpos, .inr ⟨hexempt, hq, m.symbol, hcfg, hsmall, hsymbol, rfl⟩⟩, rfl⟩, ?_⟩
    · rw [hpayer hself']
      exact hmove
    · obtain ⟨system, hacc, hpos, hsmall, -, hpay, rfl⟩ :=
        (commits_pay_xyz (s := { s with token := { s.token with accounts } }) hm hu).1 ht
      exact (commits_pay_xyz (s := { s with token := { s.token with accounts } }) hm hu).2
        ⟨system, hacc, hpos, hsmall, hmemo', hpay, rfl⟩

theorem commits_withdraw (hm : System.Minted e.self m s.system) (hauth : u ∈ authorization.map (·.actor))
    {q : Asset} :
    e.Commits s [⟨e.self, authorization, .sys (.withdraw u q)⟩] s' ↔ q.symbol = m.symbol ∧
      e.Commits s [System.sys_action u (.withdraw u q.in_eos),
        System.transfer_action Name.eosio_token u u e.self q.in_eos []] s' := by
  have hsys : ∀ o, System.apply_sys (e.view s authorization) s.system (.withdraw u q) = .ok o ↔
      System.withdraw (e.ctx s e.self authorization) s.system u q = .ok o := fun _ => Iff.rfl
  rw [Commits, Machine.commits_cons]
  simp only [exec_sys, hsys, System.withdraw_eq_ok]
  constructor
  · rintro ⟨s₁, queued, ⟨o, ⟨-, hcfg, -, -, rfl⟩, rfl, rfl⟩, ht⟩
    exact ⟨hm.config_eq hcfg, ht⟩
  · rintro ⟨hsym, ht⟩
    -- The transfer at the end makes the checks that `withdraw` makes first.
    obtain ⟨s₁, -, hlast⟩ := Machine.commits_head.1 ht
    obtain ⟨_, _, hexec, -⟩ := Machine.commits_cons.1 hlast
    obtain ⟨o, ho, -, -⟩ := exec_token_transfer.1 hexec
    obtain ⟨_, _, -, -, -, -, hvalid, hpos, -⟩ := Token.transfer_eq_ok.1 ho
    exact ⟨_, _, ⟨_, ⟨(Ctx.has_auth_iff _ _).2 hauth, hsym ▸ hm.find_config, hpos,
      ((Asset.is_valid_iff _).1 hvalid).1.2, rfl⟩, rfl, rfl⟩, ht⟩

/-- **A wrapper is the actions it saves.** At any point of a run after `init`, a wrapper
that swaps commits if and only if its user can send the XYZ to the contract and then
make the same call to `eosio` in EOS. The state afterwards is the same. So it is with
`withdraw`, which calls first and swaps afterwards, once its check of the symbol passes. -/
theorem wrappers_are_manual {s₀ : State σ} {c : Config σ} (hinit : e.Initialised m s₀) (h : e.After s₀ c)
    (hauth : u ∈ authorization.map (·.actor)) (hauth' : u ∈ authorization'.map (·.actor))
    (hself' : e.self ∉ authorization'.map (·.actor)) (hmemo : memo.length ≤ 256) :
    (∀ w total parts call, System.Wraps w u total parts call →
      (∀ a ∈ parts, -2 ^ 62 < a.val ∧ a.val < 2 ^ 62) → ∀ s',
      (e.Commits c.state [⟨e.self, authorization, .sys w⟩] s' ↔ ∃ q, total = .ok q ∧
        e.Commits c.state [⟨e.self, authorization', .transfer u e.self q memo⟩,
          ⟨Name.eosio, System.active u, .sys call⟩] s')) ∧
    ∀ q s', e.Commits c.state [⟨e.self, authorization, .sys (.withdraw u q)⟩] s' ↔ q.symbol = m.symbol ∧
      e.Commits c.state [⟨Name.eosio, System.active u, .sys (.withdraw u q.in_eos)⟩,
        ⟨Name.eosio_token, authorization', .transfer u e.self q.in_eos memo⟩] s' := by
  have hu : u ≠ e.self := fun he => hself' (he ▸ hauth')
  have hm := after_minted hinit h
  obtain ⟨b, hb⟩ := after_home hinit h
  have hhome : c.state.system.accounts.rows e.self m.symbol.code ≠ none := by simp [hb]
  constructor
  · intro w total parts call hw hrange s'
    rw [commits_wrapper hw hrange hauth]
    simp only [commits_xyz_in hm hhome hu hauth' hmemo]
    constructor
    · rintro ⟨q, accounts, hq, hswap, ht⟩; exact ⟨q, hq, accounts, hswap, ht⟩
    · rintro ⟨q, hq, accounts, hswap, ht⟩; exact ⟨q, accounts, hq, hswap, ht⟩
  · intro q s'
    rw [commits_withdraw hm hauth]
    refine and_congr_right fun _ => ?_
    have hactive : e.self ∉ (System.active u).map (·.actor) := by simp [System.active, Ne.symm hu]
    have hmem : u ∈ (System.active u).map (·.actor) := by simp [System.active]
    rw [Commits, Machine.commits_head, Commits, Machine.commits_head]
    refine exists_congr fun s₁ => and_congr_right fun hfirst => ?_
    have hm₁ := minted_commits hfirst hm
    exact ⟨eos_in_any hm₁ hu hactive hself' hauth' hmemo,
      eos_in_any hm₁ hu hself' hactive hmem (by simp)⟩

theorem wrappers_are_manual_alice : ∃ s trace s', Tiny.env.After Tiny.start ⟨s, [], trace⟩ ∧
    Tiny.env.Commits s [Tiny.spend] s' ∧ Tiny.env.Commits s
      [⟨Tiny.env.self, System.active Tiny.alice, .transfer Tiny.alice Tiny.env.self ⟨40, Tiny.XYZ⟩ []⟩,
       ⟨Name.eosio, System.active Tiny.alice, .sys (.buyramself Tiny.alice ⟨40, Symbol.EOS⟩)⟩] s' := by
  have hswap : Tiny.env.Commits Tiny.start [Tiny.swap] (Tiny.run Tiny.start [Tiny.swap]) :=
    @Machine.commits_of_transact _ _ _ _ 20 _ _ _ rfl
  have hspend : Tiny.env.Commits (Tiny.run Tiny.start [Tiny.swap]) [Tiny.spend]
      (Tiny.run (Tiny.run Tiny.start [Tiny.swap]) [Tiny.spend]) :=
    @Machine.commits_of_transact _ _ _ _ 20 _ _ _ rfl
  have hstart : Tiny.env.After Tiny.start ⟨Tiny.start, [], []⟩ := .start rfl
  obtain ⟨trace, hafter⟩ := hstart.commit (Tiny.foreign_single (by decide)) hswap
  have hmem : Tiny.alice ∈ (System.active Tiny.alice).map (·.actor) := by decide
  obtain ⟨hsame, -⟩ := wrappers_are_manual Tiny.initialised hafter hmem hmem (by decide)
    (show ([] : Memo).length ≤ 256 by decide)
  obtain ⟨q, hq, hmanual⟩ := (hsame _ _ _ _ .buyramself (by decide) _).1 hspend
  cases hq
  exact ⟨_, _, _, hafter, hspend, hmanual⟩

end Env

end Vaulta
