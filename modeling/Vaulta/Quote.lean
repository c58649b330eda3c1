import Vaulta.Calls

/-!
# RAM at the price quoted

`buyrambytes` swaps as much as the price it has read, before `eosio` takes the price that
it computes itself. In the end the user must have the EOS that he began with.
-/

namespace Vaulta

theorem Token.Moved.det {t t₁ t₂ : Token.Accounts} {u w p : Name} {v : Asset} (h1 : Token.Moved t t₁ u w v p)
    (h2 : Token.Moved t t₂ u w v p) : t₁ = t₂ := by
  obtain ⟨m, hm, ht⟩ := h1
  obtain ⟨m', hm', ht'⟩ := h2
  obtain rfl : m = m' := Except.ok.inj (hm.symm.trans hm')
  exact Except.ok.inj (ht.symm.trans ht')

namespace Tiny

/-- `alice` has been credited the price of her RAM. -/
def credited : State Unit := trade traded [market.credit alice ⟨30, XYZ⟩]

def charged : State Unit := trade credited [System.sys_action alice (.buyrambytes alice alice 100)]

end Tiny

namespace Env

variable {σ : Type} {e : Env σ} {s s' s₁ : State σ} {m : Asset} {payer receiver : Name} {bytes : UInt32}
  {authorization : List PermissionLevel}

/-- What the contract takes for the RAM. -/
def quote (e : Env σ) (m : Asset) (s : State σ) (bytes : UInt32) : Asset :=
  ⟨e.cost_plus_fee s.eosio bytes, m.symbol⟩

/-! ## The swap -/

theorem commits_buyrambytes (hm : System.Minted e.self m s.system) (hauth : payer ∈ authorization.map (·.actor)) :
    e.Commits s [⟨e.self, authorization, .sys (.buyrambytes payer receiver bytes)⟩] s' ↔ ∃ accounts,
      System.Swapped (e.ctx s e.self []) s.system payer (e.quote m s bytes) accounts ∧
        e.Commits { s with system := { s.system with accounts } } [e.credit payer (e.quote m s bytes),
          System.sys_action payer (.buyrambytes payer receiver bytes),
          System.enforcebal_action (e.ctx s e.self []) payer (System.get_eos_balance s.token payer)] s' := by
  have hsys : ∀ o, System.apply_sys (e.view s authorization) s.system (.buyrambytes payer receiver bytes) = .ok o ↔
      System.buyrambytes (e.view s authorization) s.system payer receiver bytes = .ok o := fun _ => Iff.rfl
  rw [Commits, Machine.commits_cons]
  simp only [exec_sys, hsys, System.buyrambytes_eq_ok]
  constructor
  · rintro ⟨s₁, queued, ⟨o, ⟨-, symbol, accounts, hswap, -, rfl⟩, rfl, rfl⟩, ht⟩
    obtain rfl := hm.config_eq hswap.symbol
    exact ⟨accounts, hswap.ctx (by rfl), (Machine.commits_leaf (exec_swaptrace _ _ _)).1 ht⟩
  · rintro ⟨accounts, hswap, ht⟩
    exact ⟨_, _, ⟨_, ⟨(Ctx.has_auth_iff _ _).2 hauth, m.symbol, accounts, hswap.ctx (by rfl), hm.symbol_valid, rfl⟩,
      rfl, rfl⟩, (Machine.commits_leaf (exec_swaptrace _ _ _)).2 ht⟩

theorem commits_quote (hm : System.Minted e.self m s.system) (hauth : payer ∈ authorization.map (·.actor))
    (hu : payer ≠ e.self) (hcredit : e.Commits s [e.credit payer (e.quote m s bytes)] s₁) {x : σ}
    {token : Token.Tables} (hcall : e.eosio (.buyrambytes payer receiver bytes) (System.active payer) s₁.eosio
      s₁.token = .ok (x, token)) :
    e.Commits s [⟨e.self, authorization, .sys (.buyrambytes payer receiver bytes)⟩] s' ↔ ∃ accounts,
      System.Swapped (e.ctx s e.self []) s.system payer (e.quote m s bytes) accounts ∧
        System.get_eos_balance token payer = System.get_eos_balance s.token payer ∧
        s' = { system := { s.system with accounts }, token, eosio := x } := by
  obtain ⟨st, tokens, hacc, hst, hsym, hpos, hsmall, hpay, rfl⟩ := (commits_pay_eos hu).1 hcredit
  rw [commits_buyrambytes hm hauth]
  refine exists_congr fun accounts => and_congr_right fun _ => ?_
  have hcall' : ∀ {s₂ : State σ}, e.Commits { s with system := { s.system with accounts } }
      [e.credit payer (e.quote m s bytes)] s₂ ↔
      s₂ = { s with system := { s.system with accounts }, token := { s.token with accounts := tokens } } := by
    intro s₂
    rw [credit, commits_pay_eos hu]
    constructor
    · rintro ⟨_, tokens', -, -, -, -, -, hpay', rfl⟩
      rw [hpay'.det hpay]
    · rintro rfl
      exact ⟨st, tokens, hacc, hst, hsym, hpos, hsmall, hpay, rfl⟩
  rw [Commits, Machine.commits_head]
  constructor
  · rintro ⟨s₂, hfirst, hrest⟩
    obtain rfl := hcall'.1 hfirst
    exact (commits_enforcebal rfl).1 ((commits_call hcall).1 hrest)
  · intro h
    exact ⟨_, hcall'.2 rfl, (commits_call hcall).2 ((commits_enforcebal rfl).2 h)⟩

theorem quote_settled (hm : System.Minted e.self m s.system) (hu : payer ≠ e.self) {q : Asset}
    (hmoved : s₁.eos = moved s.eos e.self payer q.val) {token : Token.Tables}
    (hkept : (book token.accounts).amount Symbol.EOS.code e.self = s₁.eos e.self)
    (hnet : (book token.accounts).amount Symbol.EOS.code payer = s₁.eos payer - q.val)
    {accounts : System.Accounts} (hswap : System.Swapped (e.ctx s e.self []) s.system payer q accounts) {x : σ}
    (hs' : s' = { system := { s.system with accounts }, token, eosio := x }) :
    s'.eos payer = s.eos payer ∧ s'.xyz m.symbol.code payer = s.xyz m.symbol.code payer - q.val ∧
      s'.eos e.self = s.eos e.self - q.val ∧
      s'.xyz m.symbol.code e.self = s.xyz m.symbol.code e.self + q.val := by
  subst hs'
  have hxyz := swapped_xyz hm hswap
  rw [hmoved, moved_recipient _ (Ne.symm hu)] at hnet
  rw [hmoved, moved_sender _ (Ne.symm hu)] at hkept
  refine ⟨?_, ?_, ?_, ?_⟩
  · rw [State.eos_eq]
    exact hnet.trans (by omega)
  · rw [State.xyz_eq]
    exact (congrFun hxyz payer).trans (moved_sender _ hu _)
  · rw [State.eos_eq]
    exact hkept
  · rw [State.xyz_eq]
    exact (congrFun hxyz e.self).trans (moved_recipient _ hu _)

/-! ## The price -/

/-- **No change in EOS, or none at all.** Whatever the price is that the contract has
read, and whatever `eosio` does with the EOS of others: when the swap is possible and the
call succeeds, the transaction commits exactly when the call has taken from the payer as
much as was swapped for him. Then he has the EOS that he began with. Otherwise the
transaction leaves everything as it was. -/
theorem buyrambytes_neutral (hkeeps : e.KeepsSelf) (ht : e.ThroughToken) {s₀ : State σ} {c : Config σ}
    (hinit : e.Initialised m s₀) (h : e.Later s₀ c) {st : CurrencyStats}
    (hst : c.state.token.stat.find Symbol.EOS.code Symbol.EOS.code = some st)
    (hsym : st.supply.symbol = Symbol.EOS) (hu : payer ≠ e.self) (hacc : e.is_account c.state.eosio payer = true)
    (hauth : payer ∈ authorization.map (·.actor)) (hpos : 0 < (e.quote m c.state bytes).val)
    (hle : (e.quote m c.state bytes).val ≤ c.state.xyz m.symbol.code payer)
    (hcover : (e.quote m c.state bytes).val ≤ c.state.eos e.self) :
    ∃ s₁, e.Commits c.state [e.credit payer (e.quote m c.state bytes)] s₁ ∧
      ∀ x token, e.eosio (.buyrambytes payer receiver bytes) (System.active payer) s₁.eosio s₁.token =
        .ok (x, token) →
        ((∃ s', e.Commits c.state [⟨e.self, authorization, .sys (.buyrambytes payer receiver bytes)⟩] s') ↔
          (book token.accounts).amount Symbol.EOS.code payer = s₁.eos payer - (e.quote m c.state bytes).val) ∧
        ∀ s', e.Leaves c.state [⟨e.self, authorization, .sys (.buyrambytes payer receiver bytes)⟩] s' →
          ((book token.accounts).amount Symbol.EOS.code payer = s₁.eos payer - (e.quote m c.state bytes).val →
            s'.eos payer = c.state.eos payer ∧
            s'.xyz m.symbol.code payer = c.state.xyz m.symbol.code payer - (e.quote m c.state bytes).val ∧
            s'.eos e.self = c.state.eos e.self - (e.quote m c.state bytes).val ∧
            s'.xyz m.symbol.code e.self = c.state.xyz m.symbol.code e.self + (e.quote m c.state bytes).val) ∧
          ((book token.accounts).amount Symbol.EOS.code payer ≠ s₁.eos payer - (e.quote m c.state bytes).val →
            s' = c.state) := by
  have hm := later_minted hinit h
  have heos := later_eos ht hinit h hst hsym
  obtain ⟨accounts, hswap⟩ := swapped_ok hm (by rfl) hpos hle
  obtain ⟨s₁, hcredit⟩ := credit_ok heos hu hacc hpos hcover
  obtain ⟨-, -, -, hmoved⟩ := credited hu hcredit
  refine ⟨s₁, hcredit, fun x token hcall => ?_⟩
  have hcommits := fun s' => @commits_quote _ _ c.state s' _ _ _ receiver _ _ hm hauth hu hcredit _ _ hcall
  have hpayer := congrFun hmoved payer
  rw [moved_recipient _ (Ne.symm hu)] at hpayer
  have hsame : System.get_eos_balance token payer = System.get_eos_balance c.state.token payer ↔
      (book token.accounts).amount Symbol.EOS.code payer = s₁.eos payer - (e.quote m c.state bytes).val := by
    obtain ⟨st₁, heos₁⟩ := token_kept_commits ht Token.eos_kept hcredit ⟨st, heos⟩
    obtain ⟨st₂, heos₂⟩ := (ht _ _ _ _ _ _ hcall).kept Token.eos_kept ⟨st₁, heos₁⟩
    rw [System.get_eos_balance_inj heos₂ heos, ← State.eos_eq c.state]
    constructor <;> intro heq <;> omega
  have hiff : (∃ s', e.Commits c.state [⟨e.self, authorization, .sys (.buyrambytes payer receiver bytes)⟩] s') ↔
      (book token.accounts).amount Symbol.EOS.code payer = s₁.eos payer - (e.quote m c.state bytes).val := by
    rw [← hsame]
    constructor
    · rintro ⟨s', hs'⟩
      obtain ⟨_, -, hbalance, -⟩ := (hcommits s').1 hs'
      exact hbalance
    · intro hbalance
      exact ⟨_, (hcommits _).2 ⟨accounts, hswap, hbalance, rfl⟩⟩
  refine ⟨hiff, fun s' hleaves => ⟨fun hnet => ?_, fun hnet => ?_⟩⟩
  · cases hleaves with
    | abort hnone =>
      obtain ⟨s', hs'⟩ := hiff.2 hnet
      exact absurd hs' (hnone s')
    | commit hs' =>
      obtain ⟨accounts', hswap', -, heq⟩ := (hcommits s').1 hs'
      have hself : e.self ∉ (System.active payer).map (·.actor) := by simp [System.active, Ne.symm hu]
      have hkept := (hkeeps _ _ _ _ _ _ hself hcall).trans (State.eos_eq s₁ e.self).symm
      exact quote_settled hm hu hmoved hkept hnet hswap' heq
  · cases hleaves with
    | abort => rfl
    | commit hs' => exact absurd (hiff.1 ⟨s', hs'⟩) hnet

theorem buyrambytes_neutral_alice : ∃ s', Tiny.market.Commits Tiny.traded
      [⟨Tiny.env.self, System.active Tiny.alice, .sys (.buyrambytes Tiny.alice Tiny.alice 100)⟩] s' ∧
    s'.eos Tiny.alice = 900 ∧ s'.xyz Tiny.XYZ.code Tiny.alice = 70 := by
  have hswap : Tiny.market.Commits Tiny.market_start [Tiny.swap] Tiny.traded :=
    @Machine.commits_of_transact _ _ _ _ 20 _ _ _ rfl
  have hstart : Tiny.market.Later Tiny.market_start ⟨Tiny.market_start, [], []⟩ := .start rfl
  obtain ⟨trace, hlater⟩ := hstart.commit trivial hswap
  have hself : Tiny.alice ≠ Tiny.market.self := by decide
  have hsigned : Tiny.alice ∈ (System.active Tiny.alice).map (·.actor) := by decide
  have hpos : 0 < (Tiny.market.quote Tiny.max_supply Tiny.traded 100).val := by decide
  have hle : (Tiny.market.quote Tiny.max_supply Tiny.traded 100).val ≤ Tiny.traded.xyz Tiny.XYZ.code Tiny.alice := by
    decide
  have hcover : (Tiny.market.quote Tiny.max_supply Tiny.traded 100).val ≤ Tiny.traded.eos Tiny.market.self := by
    decide
  obtain ⟨s₁, hcredit, hcall⟩ := @buyrambytes_neutral _ _ _ _ Tiny.alice 100 _ Tiny.market_keepsSelf
    Tiny.market_throughToken _ _ Tiny.market_initialised hlater _ Tiny.start_stat rfl hself rfl hsigned hpos hle hcover
  have hpaid : Tiny.market.Commits Tiny.traded
      [Tiny.market.credit Tiny.alice (Tiny.market.quote Tiny.max_supply Tiny.traded 100)] Tiny.credited :=
    @Machine.commits_of_transact _ _ _ _ 20 _ _ _ rfl
  obtain rfl := hcredit.det hpaid
  have hnet : (book Tiny.charged.token.accounts).amount Symbol.EOS.code Tiny.alice =
      Tiny.credited.eos Tiny.alice - 30 := by decide
  obtain ⟨hiff, hleaves⟩ := hcall () Tiny.charged.token rfl
  obtain ⟨s', hs'⟩ := hiff.2 hnet
  obtain ⟨heos, hxyz, -⟩ := (hleaves s' (.commit hs')).1 hnet
  exact ⟨s', hs', heos, hxyz⟩

end Env

end Vaulta
