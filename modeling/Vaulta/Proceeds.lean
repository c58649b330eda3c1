import Vaulta.TestRuns

/-!
# What a call leaves over

Two wrappers swap back what is left over when `mocksys` has done its part. Whoever sells RAM
pays the fee before he gets the proceeds. Whoever rents resources pays a part of what he offers.
-/

namespace Vaulta

theorem State.eos_book {σ : Type} (s : State σ) : (book s.token.accounts).amount Symbol.EOS.code = s.eos :=
  funext fun v => (s.eos_eq v).symm

namespace Env

variable {σ : Type} {e : Env σ} {s s' s₁ : State σ} {m : Asset} {u : Name} {w call : SysCall} {q d : Int}
  {l : List PermissionLevel} {x : σ} {token : Token.Tables}

theorem moved_back {ι : Type} [DecidableEq ι] (f : ι → Int) (u w : ι) (q d : Int) :
    moved (moved f u w q) w u d = moved f u w (q - d) := by
  funext v
  simp only [moved_apply]
  split <;> split <;> omega

theorem call_of_returns (h : e.Returns s w u q call s₁) (hauth : u ∈ l.map (·.actor))
    (hc : e.Commits s [⟨e.self, l, .sys w⟩] s') :
    ∃ s₂ queued, e.exec s₁ (System.sys_action u call) = .ok (s₂, queued) := by
  obtain ⟨s₂, queued, hcall, -⟩ := Machine.commits_cons.1 ((commits_returns h hauth).1 hc)
  exact ⟨s₂, queued, hcall⟩

theorem powerup_commits {receiver : Name} {days : UInt32} {net_frac cpu_frac : Int64} {q : Asset}
    (hauth : u ∈ l.map (·.actor))
    (hc : e.Commits s [⟨e.self, l, .sys (.powerup u receiver days net_frac cpu_frac q)⟩] s') :
    ∃ accounts s₁, System.Swapped (e.ctx s e.self []) s.system u q accounts ∧
      e.Commits { s with system := { s.system with accounts } } [e.credit u q] s₁ ∧
      ∃ s₂ queued, e.exec s₁ (System.sys_action u (.powerup u receiver days net_frac cpu_frac q.in_eos)) =
        .ok (s₂, queued) := by
  have hsys : ∀ o, System.apply_sys (e.view s l) s.system (.powerup u receiver days net_frac cpu_frac q) = .ok o ↔
      System.powerup (e.view s l) s.system u receiver days net_frac cpu_frac q = .ok o := fun _ => Iff.rfl
  obtain ⟨s₁, queued, hexec, hrest⟩ := Machine.commits_cons.1 hc
  obtain ⟨o, ho, rfl, rfl⟩ := exec_sys.1 hexec
  obtain ⟨-, accounts, hswap, rfl⟩ := System.powerup_eq_ok.1 ((hsys o).1 ho)
  have hrest := (Machine.commits_leaf (exec_swaptrace _ _ _)).1 hrest
  obtain ⟨s₂, hcredit, hrest⟩ := Machine.commits_head.1 hrest
  have hreturns : e.Returns s (.powerup u receiver days net_frac cpu_frac q) u q.val
      (.powerup u receiver days net_frac cpu_frac q.in_eos) s₂ := .powerup (hswap.ctx (by rfl)) hcredit
  exact ⟨accounts, s₂, hswap.ctx (by rfl), hcredit, call_of_returns hreturns hauth hc⟩

theorem returned (ht : e.ThroughToken) (hm : System.Minted e.self m s.system) {st : CurrencyStats}
    (heos : Token.Eos s.token st) (hu : u ≠ e.self) (hexempt : ¬ System.Exempt u) (hacc : e.is_account x u = true)
    (hauth : u ∈ l.map (·.actor)) (hreturns : e.Returns s w u q call s₁)
    (hcall : e.eosio call (System.active u) s₁.eosio s₁.token = .ok (x, token))
    (hd : (book token.accounts).amount Symbol.EOS.code u = s.eos u + d) (hnonneg : 0 ≤ d) :
    ((∃ s', e.Commits s [⟨e.self, l, .sys w⟩] s') ↔ d ≤ s.xyz m.symbol.code e.self + q) ∧
    ∀ s', e.Commits s [⟨e.self, l, .sys w⟩] s' →
      s'.eos = moved ((book token.accounts).amount Symbol.EOS.code) u e.self d ∧
      s'.xyz m.symbol.code = moved (s.xyz m.symbol.code) u e.self (q - d) := by
  have hb := hreturns.before hm hu
  obtain ⟨st₁, heos₁⟩ := hb.token _ ht Token.eos_kept ⟨st, heos⟩
  obtain ⟨st₂, heos₂⟩ := (ht _ _ _ _ _ _ hcall).kept Token.eos_kept ⟨st₁, heos₁⟩
  have hbalance := (System.get_eos_balance_val s.token u).trans (State.eos_eq s u).symm
  have hbefore : 0 ≤ s.eos u := by
    rw [State.eos_eq]
    exact heos.sound.nonneg u
  have hwhole : ∀ s', e.Commits s [⟨e.self, l, .sys w⟩] s' ↔ e.Commits ⟨s₁.system, token, x⟩
      [System.swapexcess_action (e.ctx s e.self []) u (System.get_eos_balance s.token u)] s' :=
    fun s' => (commits_returns hreturns hauth).trans (commits_call hcall)
  obtain ⟨hiff, heffect⟩ := @commits_excess _ _ ⟨s₁.system, token, x⟩ _ _ hb.minted _ heos₂ hu hexempt hacc _
    (Eq.refl (e.ctx s e.self []).self) _ (System.get_eos_balance_symbol heos u) (by rw [hbalance]; exact hbefore)
  have htaken : State.xyz ⟨s₁.system, token, x⟩ m.symbol.code e.self = _ := hb.xyz_self hu
  have hover : (book token.accounts).amount Symbol.EOS.code u - s.eos u = d := by omega
  rw [hbalance, State.eos_token s₁.system, hover] at hiff heffect
  rw [htaken] at hiff
  refine ⟨(exists_congr hwhole).trans hiff, fun s' hs' => ?_⟩
  have hex := heffect s' ((hwhole s').1 hs')
  rw [max_eq_right hnonneg] at hex
  refine ⟨hex.eos.trans ?_, hex.xyz.trans ?_⟩
  · exact congrArg (moved · u e.self d) (funext fun v => State.eos_token ..)
  · have hxyz : State.xyz ⟨s₁.system, token, x⟩ m.symbol.code = _ := hb.xyz
    rw [hxyz, moved_back]

end Env

namespace Tests

open Mocksys

def payment : Action := System.transfer_action Name.eosio_token Tiny.alice Tiny.alice Name.eosio ⟨300, Symbol.EOS⟩ []

/-- `eosio` has 300 units from `alice`. -/
def paid : State Tables := run swapped [payment]

theorem runs_paid : site.Runs start paid := by
  have hpayment : site.Commits swapped [payment] paid := @Machine.commits_of_transact _ _ _ _ 20 _ _ _ rfl
  exact .commit runs_swapped (fair_single (by decide) fun call hcall => by cases hcall) hpayment

end Tests

namespace Mocksys

/-- Half a percent, rounded up. -/
def fee (n : Int) : Int := (n + 199) / 200

theorem fee_eq {n : Int64} (hn : 0 ≤ n.toInt) (hn' : n.toInt ≤ 2 ^ 62 - 1) : ((n + 199) / 200).toInt = fee n.toInt := by
  have hsum : (n + 199).toInt = n.toInt + 199 := by
    rw [Int64.toInt_add]
    change (n.toInt + 199 : Int).bmod _ = _
    exact Asset.bmod_of_range (by omega) (by omega)
  rw [Int64.toInt_div_of_ne_right _ _ (by decide), hsum]
  exact Int.tdiv_eq_ediv_of_nonneg (by omega)

section Sale

variable {c : Ctx} {x : Tables} {itr : ExchangeState}

/-- A market of RAM for EOS. -/
structure Sells (x : Tables) (itr : ExchangeState) : Prop where
  market : x.rammarket.find Name.eosio Symbol.RAMCORE = some itr
  base : itr.base.symbol = Symbol.RAM
  quote : itr.quote.symbol = Symbol.EOS

theorem ram_to_tokens_eq_ok (hsells : Sells x itr) {n : Int64} {out : Asset} :
    ram_to_tokens x ⟨n, Symbol.RAM⟩ Symbol.EOS = .ok out ↔
      ∃ amount, Bancor.get_bancor_output itr.base.amount itr.quote.amount n = some amount ∧
        out = ⟨amount, Symbol.EOS⟩ := by
  have hzero : Asset.make 0 Symbol.EOS = .ok ⟨0, Symbol.EOS⟩ := rfl
  have hne : Symbol.RAM ≠ Symbol.EOS := by decide
  have hsame : Symbol.RAM = itr.base.symbol ∧ Symbol.EOS = itr.quote.symbol := ⟨hsells.base.symm, hsells.quote.symm⟩
  unfold ram_to_tokens
  simp only [bind_eq_ok, MultiIndex.get_eq_ok, hsells.market, Option.some.injEq, exists_eq_left', check_eq_ok, hne, ne_eq,
    not_false_eq_true, exists_const, true_and, hzero, Except.ok.injEq, if_pos hsame, converted_eq_ok, pure_eq_ok,
    eq_comm (a := out)]

theorem make_ram (bytes : Int64) : Asset.make (Int64.ofInt (bytes.toInt % 2 ^ 32)) Symbol.RAM =
    .ok ⟨Int64.ofInt (bytes.toInt % 2 ^ 32), Symbol.RAM⟩ := by
  have hlow := Int.emod_nonneg bytes.toInt (show (2 ^ 32 : Int) ≠ 0 by decide)
  have hhigh := Int.emod_lt_of_pos bytes.toInt (show (0 : Int) < 2 ^ 32 by decide)
  have hn := Int64.toInt_ofInt_of_le (show -2 ^ 63 ≤ bytes.toInt % 2 ^ 32 by omega) (by omega)
  exact Asset.make_eq_ok.2 ⟨rfl, ⟨by omega, by omega⟩, by decide⟩

end Sale

namespace Site

variable {site : Site} {u : Name} {bytes : Int64} {x x' : Tables} {t t' : Token.Tables} {itr : ExchangeState}
  {st : CurrencyStats} {n : Int64} {m : Asset} {s s₀ : State Tables} {l : List PermissionLevel}

theorem call_sellram (hsells : Sells x itr) (heos : Token.Eos t st) (hu : u ≠ Name.eosio)
    (h : site.eosio (.sellram u bytes) (System.active u) x t = .ok (x', t')) :
    ∃ n, Bancor.get_bancor_output itr.base.amount itr.quote.amount (Int64.ofInt (bytes.toInt % 2 ^ 32)) = some n ∧
      0 < n.toInt ∧ fee n.toInt ≤ (book t.accounts).amount Symbol.EOS.code u ∧
      n.toInt ≤ (book t.accounts).amount Symbol.EOS.code Name.eosio ∧
      (book t'.accounts).amount Symbol.EOS.code = moved (moved ((book t.accounts).amount Symbol.EOS.code) u
        Name.eosio_ramfee (fee n.toInt)) Name.eosio u n.toInt := by
  -- The fee is paid first, from what the seller has already.
  have hramfee : Name.eosio ≠ Name.eosio_ramfee := by decide
  obtain ⟨-, hc⟩ := eosio_eq_ok.1 h
  obtain ⟨o, ho, hrest⟩ := commits_inner_call.1 hc
  simp only [apply, sellram, bind_eq_ok, make_ram, Except.ok.injEq, exists_eq_left', ram_to_tokens_eq_ok hsells,
    pure_eq_ok] at ho
  obtain ⟨_, ⟨n, hout, rfl⟩, fees, hfees, tables, -, rfl⟩ := ho
  refine ⟨n, hout, ?_⟩
  obtain ⟨p, hfee, hpay⟩ := Machine.commits_append.1 hrest
  obtain ⟨-, hr, hpaid⟩ := inner_transfer rfl hpay
  change -(2 ^ 62 - 1) ≤ n.toInt ∧ n.toInt ≤ 2 ^ 62 - 1 at hr
  simp only [ramfee] at hfees
  split at hfees
  · rename_i hpos
    simp only [bind_eq_ok, Asset.make_eq_ok, pure_eq_ok, Except.ok.injEq] at hfees
    obtain ⟨_, ⟨rfl, -⟩, rfl⟩ := hfees
    obtain ⟨-, hle, heos₁⟩ := inner_paid heos rfl hfee
    obtain ⟨-, -, hcharged⟩ := inner_transfer rfl hfee
    obtain ⟨hn, hhas, -⟩ := inner_paid heos₁ rfl hpay
    have hval : Asset.val ⟨(n + 199) / 200, Symbol.EOS⟩ = fee n.toInt := fee_eq (le_of_lt hn) hr.2
    have hstill := congrFun hcharged Name.eosio
    rw [moved_apply, if_neg (Ne.symm hu), if_neg hramfee] at hstill
    change n.toInt ≤ (book p.2.accounts).amount Symbol.EOS.code Name.eosio at hhas
    refine ⟨hn, hval ▸ hle, ?_, hpaid.trans ?_⟩
    · dsimp only at hstill
      omega
    · rw [hcharged, hval]
      rfl
  · -- Without a fee there are no proceeds.
    rename_i hnone
    obtain rfl := Except.ok.inj hfees
    obtain rfl : p = _ := Machine.commits_nil.1 hfee
    obtain ⟨hn, -, -⟩ := inner_paid heos rfl hpay
    change 0 < n.toInt at hn
    have hval := fee_eq (le_of_lt hn) hr.2
    refine absurd ?_ hnone
    rw [Int64.lt_iff_toInt_lt]
    change 0 < ((n + 199) / 200).toInt
    rw [hval, fee]
    omega

theorem call_sellram_ok (hsells : Sells x itr) (heos : Token.Eos t st) (hu : u ≠ Name.eosio)
    (hu' : u ≠ Name.eosio_ramfee) (hacc : site.is_account u = true) (hfee : site.is_account Name.eosio_ramfee = true)
    (hout : Bancor.get_bancor_output itr.base.amount itr.quote.amount (Int64.ofInt (bytes.toInt % 2 ^ 32)) = some n)
    (hpos : 0 < n.toInt) (hle : fee n.toInt ≤ (book t.accounts).amount Symbol.EOS.code u)
    (hhas : n.toInt ≤ (book t.accounts).amount Symbol.EOS.code Name.eosio) :
    ∃ x' t', site.eosio (.sellram u bytes) (System.active u) x t = .ok (x', t') := by
  have hramfee : Name.eosio ≠ Name.eosio_ramfee := by decide
  have hsmall := heos.small
  have hmax := heos.sound.amount_le Name.eosio
  have hval := fee_eq (le_of_lt hpos) (show n.toInt ≤ 2 ^ 62 - 1 by omega)
  have hcharges : 0 < fee n.toInt := by
    unfold fee
    omega
  have hless : fee n.toInt ≤ n.toInt := by
    unfold fee
    omega
  obtain ⟨last, hlast⟩ := set_last_action_ok ⟨Name.eosio, System.active u, site.is_account⟩ x ⟨14025084013874511872⟩
  have hmake : Asset.make ((n + 199) / 200) Symbol.EOS = .ok ⟨(n + 199) / 200, Symbol.EOS⟩ :=
    Asset.make_eq_ok.2 ⟨rfl, ⟨by omega, by omega⟩, System.eos_is_valid⟩
  have hfees : ramfee u ⟨n, Symbol.EOS⟩ = .ok [System.transfer_action Name.eosio_token u u Name.eosio_ramfee
      ⟨(n + 199) / 200, Symbol.EOS⟩ []] := by
    have hcharge : 0 < (n + 199) / 200 := Int64.lt_iff_toInt_lt.2 (by change (0 : Int) < _; omega)
    simp only [ramfee, if_pos hcharge, hmake, ok_bind, pure_eq_ok]
  have hsold : apply site.datastream ⟨Name.eosio, System.active u, site.is_account⟩ x (.sellram u bytes) =
      .ok { tables := { x with lastaction := last }
            inline := [System.transfer_action Name.eosio_token u u Name.eosio_ramfee ⟨(n + 199) / 200, Symbol.EOS⟩ []] ++
              [pay_out ⟨Name.eosio, System.active u, site.is_account⟩ u ⟨n, Symbol.EOS⟩] } := by
    simp only [apply, sellram, bind_eq_ok, make_ram, Except.ok.injEq, exists_eq_left', ram_to_tokens_eq_ok hsells,
      pure_eq_ok]
    exact ⟨_, ⟨n, hout, rfl⟩, _, hfees, _, hlast, rfl⟩
  obtain ⟨⟨y, t₁⟩, hcharged⟩ := @inner_transfer_ok site { x with lastaction := last } t st u Name.eosio_ramfee
    ((n + 199) / 200) [] heos (by omega) (by omega) hu' hfee (by decide)
  obtain ⟨-, -, heos₁⟩ := inner_paid heos rfl hcharged
  obtain ⟨-, -, hamount⟩ := inner_transfer rfl hcharged
  have hstill : (book t₁.accounts).amount Symbol.EOS.code Name.eosio =
      (book t.accounts).amount Symbol.EOS.code Name.eosio := by
    refine (congrFun hamount Name.eosio).trans ?_
    rw [moved_apply, if_neg (Ne.symm hu), if_neg hramfee, sub_zero, add_zero]
  obtain ⟨⟨x', t'⟩, hpaid⟩ := @inner_transfer_ok site y t₁ st Name.eosio u n [] heos₁ hpos (by omega) (Ne.symm hu) hacc
    (by decide)
  exact ⟨x', t', eosio_eq_ok.2 ⟨List.mem_singleton_self _,
    commits_inner_call.2 ⟨_, hsold, Machine.commits_append.2 ⟨_, hcharged, hpaid⟩⟩⟩⟩

/-- What a sale for `n` units leaves. -/
structure Sold (site : Site) (m : Asset) (u : Name) (n : Int) (s s' : State Tables) : Prop where
  eos : s'.eos = moved (moved s.eos Name.eosio Name.eosio_ramfee (fee n)) Name.eosio site.self (n - fee n)
  xyz : s'.xyz m.symbol.code = moved (s.xyz m.symbol.code) site.self u (n - fee n)

theorem sellram_called (hm : System.Minted site.self m s.system) (heos : Token.Eos s.token st)
    (hsells : Sells s.eosio itr) (hne : u ≠ site.self) (hu : u ≠ Name.eosio) (hramfee : u ≠ Name.eosio_ramfee)
    (hexempt : ¬ System.Exempt u) (hacc : site.is_account u = true) (hauth : u ∈ l.map (·.actor))
    (hcall : site.eosio (.sellram u bytes) (System.active u) s.eosio s.token = .ok (x, t)) :
    ∃ n, Bancor.get_bancor_output itr.base.amount itr.quote.amount (Int64.ofInt (bytes.toInt % 2 ^ 32)) = some n ∧
      0 < n.toInt ∧ fee n.toInt ≤ s.eos u ∧ n.toInt ≤ s.eos Name.eosio ∧
      ((∃ s', site.env.Commits s [⟨site.self, l, .sys (.sellram u bytes)⟩] s') ↔
        n.toInt - fee n.toInt ≤ s.xyz m.symbol.code site.self) ∧
      ∀ s', site.env.Commits s [⟨site.self, l, .sys (.sellram u bytes)⟩] s' → Sold site m u n.toInt s s' := by
  obtain ⟨n, hout, hpos, hle, hhas, hpaid⟩ := call_sellram hsells heos hu hcall
  rw [s.eos_book] at hle hhas hpaid
  have hd : (book t.accounts).amount Symbol.EOS.code u = s.eos u + (n.toInt - fee n.toInt) := by
    rw [hpaid, moved_recipient _ (Ne.symm hu), moved_sender _ hramfee]
    omega
  have hless : 0 ≤ n.toInt - fee n.toInt := by
    unfold fee
    omega
  obtain ⟨hiff, heffect⟩ := Env.returned throughToken hm heos hne hexempt hacc hauth .sellram hcall hd hless
  refine ⟨n, hout, hpos, hle, hhas, by rwa [add_zero] at hiff, fun s' hs' => ?_⟩
  obtain ⟨heos', hxyz'⟩ := heffect s' hs'
  refine ⟨heos'.trans ?_, hxyz'.trans (by rw [zero_sub, moved_neg, env_self])⟩
  funext v
  simp only [hpaid, moved_apply, env_self]
  split_ifs <;> omega

/-- **RAM sold at the price of the market.** On the chain of the tests, after a fair run, the
wrapper `sellram` of a user who signs it, other than the contracts and the accounts of `eosio`
for fees, RAM and stakes, commits exactly when there is a price, it is positive, its user has
the fee of half a percent in EOS before the sale, `eosio` has the price, and the contract the
XYZ for the rest. Of the price, `eosio.ramfee` gets the fee and the contract gets the rest,
for which the user gets as much XYZ: his EOS is what it was. -/
theorem sellram_settles (hstart : site.Started m s₀) (h : site.Runs s₀ s)
    (hst : s.token.stat.find Symbol.EOS.code Symbol.EOS.code = some st) (hsym : st.supply.symbol = Symbol.EOS)
    (hsells : Sells s.eosio itr) (hu : u ≠ Name.eosio) (hramfee : u ≠ Name.eosio_ramfee)
    (hexempt : ¬ System.Exempt u) (hacc : site.is_account u = true) (hfee : site.is_account Name.eosio_ramfee = true)
    (hauth : u ∈ l.map (·.actor)) (hself : site.self ∉ l.map (·.actor)) :
    ((∃ s', site.Commits s [⟨site.self, l, .sys (.sellram u bytes)⟩] s') ↔
      ∃ n, Bancor.get_bancor_output itr.base.amount itr.quote.amount (Int64.ofInt (bytes.toInt % 2 ^ 32)) = some n ∧
        0 < n.toInt ∧ fee n.toInt ≤ s.eos u ∧ n.toInt ≤ s.eos Name.eosio ∧
        n.toInt - fee n.toInt ≤ s.xyz m.symbol.code site.self) ∧
    ∀ s', site.Commits s [⟨site.self, l, .sys (.sellram u bytes)⟩] s' →
      ∃ n, Bancor.get_bancor_output itr.base.amount itr.quote.amount (Int64.ofInt (bytes.toInt % 2 ^ 32)) = some n ∧
        s'.eos = moved (moved s.eos Name.eosio Name.eosio_ramfee (fee n.toInt)) Name.eosio site.self
          (n.toInt - fee n.toInt) ∧
        s'.xyz m.symbol.code = moved (s.xyz m.symbol.code) site.self u (n.toInt - fee n.toInt) := by
  have hne : u ≠ site.self := fun he => hself (he ▸ hauth)
  have hm := h.minted hstart
  have heos := h.eos hstart hst hsym
  have hfold : ∀ s', site.Commits s _ s' ↔ site.env.Commits s _ s' :=
    fun _ => folds_wrapper (w := .sellram u bytes) hauth hself rfl
  have hcalled : ∀ s', site.Commits s [⟨site.self, l, .sys (.sellram u bytes)⟩] s' →
      ∃ x t, site.eosio (.sellram u bytes) (System.active u) s.eosio s.token = .ok (x, t) := by
    intro s' hs'
    obtain ⟨_, _, hcall⟩ := Env.call_of_returns .sellram hauth ((hfold s').1 hs')
    obtain ⟨-, p, hp, -⟩ := env_exec_call.1 hcall
    exact ⟨p.1, p.2, hp⟩
  refine ⟨⟨?_, ?_⟩, fun s' hs' => ?_⟩
  · rintro ⟨s', hs'⟩
    obtain ⟨x, t, hcall⟩ := hcalled s' hs'
    obtain ⟨n, hout, hpos, hle, hhas, hiff, -⟩ := sellram_called hm heos hsells hne hu hramfee hexempt hacc hauth hcall
    exact ⟨n, hout, hpos, hle, hhas, hiff.1 ⟨s', (hfold s').1 hs'⟩⟩
  · rintro ⟨n, hout, hpos, hle, hhas, hcover⟩
    rw [← s.eos_book] at hle hhas
    obtain ⟨x, t, hcall⟩ := call_sellram_ok hsells heos hu hramfee hacc hfee hout hpos hle hhas
    obtain ⟨n', hout', -, -, -, hiff, -⟩ := sellram_called hm heos hsells hne hu hramfee hexempt hacc hauth hcall
    obtain rfl : n = n' := Option.some.inj (hout.symm.trans hout')
    obtain ⟨s', hs'⟩ := hiff.2 hcover
    exact ⟨s', (hfold s').2 hs'⟩
  · obtain ⟨x, t, hcall⟩ := hcalled s' hs'
    obtain ⟨n, hout, -, -, -, -, heffect⟩ := sellram_called hm heos hsells hne hu hramfee hexempt hacc hauth hcall
    have hsold := heffect s' ((hfold s').1 hs')
    exact ⟨n, hout, hsold.eos, hsold.xyz⟩

theorem sellram_settles_hundred : ∃ s', Tests.site.Commits Tests.paid [⟨Tests.site.self, System.active Tiny.alice,
    .sys (.sellram Tiny.alice 100)⟩] s' ∧ s'.xyz Tiny.XYZ.code Tiny.alice = 359 ∧ s'.eos Name.eosio = 39 := by
  have hout : Bancor.get_bancor_output 85450299267 223190417222 100 = some 261 := by decide +kernel
  obtain ⟨hiff, heffect⟩ := @sellram_settles Tests.site Tiny.alice 100 _ _ Tiny.max_supply Tests.paid Tests.start
    (System.active Tiny.alice) Tests.started Tests.runs_paid Tiny.start_stat rfl ⟨rfl, rfl, rfl⟩ (by decide) (by decide)
    (fun hx => hx.elim (by decide) (by decide)) rfl rfl (by decide) (by decide)
  obtain ⟨s', hs'⟩ := hiff.2 ⟨261, hout, by decide, by decide, by decide, by decide⟩
  obtain ⟨n, hn, heos, hxyz⟩ := heffect s' hs'
  obtain rfl : (261 : Int64) = n := Option.some.inj (hout.symm.trans hn)
  refine ⟨s', hs', ?_, ?_⟩
  · refine (congrFun hxyz Tiny.alice).trans ?_
    decide
  · refine (congrFun heos Name.eosio).trans ?_
    decide

/-! ## Resources -/

section Powerup

variable {receiver : Name} {days : UInt32} {net_frac cpu_frac : Int64} {q : Asset}

theorem powerup_payment_eq {n : Int64} : ∃ k : Int64, powerup_payment ⟨n, Symbol.EOS⟩ = .ok ⟨k, Symbol.EOS⟩ ∧
    k.toInt = min n.toInt 10000 := by
  have hcap : (10000 : Int64).toInt = 10000 := rfl
  unfold powerup_payment
  split
  · rename_i hlt
    replace hlt : (10000 : Int64).toInt < n.toInt := Int64.lt_iff_toInt_lt.1 hlt
    exact ⟨10000, rfl, by omega⟩
  · rename_i hle
    replace hle : ¬ (10000 : Int64).toInt < n.toInt := fun h => hle (Int64.lt_iff_toInt_lt.2 h)
    exact ⟨n, rfl, by omega⟩

theorem call_powerup {n : Int64}
    (h : site.eosio (.powerup u receiver days net_frac cpu_frac ⟨n, Symbol.EOS⟩) (System.active u) x t = .ok (x', t')) :
    (book t'.accounts).amount Symbol.EOS.code =
      moved ((book t.accounts).amount Symbol.EOS.code) u Name.eosio (min n.toInt 10000) := by
  obtain ⟨-, hc⟩ := eosio_eq_ok.1 h
  obtain ⟨o, ho, hrest⟩ := commits_inner_call.1 hc
  obtain ⟨k, hk, hval⟩ := @powerup_payment_eq n
  simp only [apply, powerup, hk, bind_eq_ok, pure_eq_ok, Except.ok.injEq, exists_eq_left'] at ho
  obtain ⟨-, -, -, -, -, -, _, -, rfl⟩ := ho
  obtain ⟨-, -, hamount⟩ := inner_transfer rfl hrest
  rw [← hval]
  exact hamount

theorem call_powerup_ok (heos : Token.Eos t st) {n : Int64} (hu : u ≠ Name.eosio)
    (hacc : site.is_account Name.eosio = true) (hpos : 0 < n.toInt)
    (hle : n.toInt ≤ (book t.accounts).amount Symbol.EOS.code u) :
    ∃ x' t', site.eosio (.powerup u receiver days net_frac cpu_frac ⟨n, Symbol.EOS⟩) (System.active u) x t =
      .ok (x', t') := by
  obtain ⟨k, hk, hval⟩ := @powerup_payment_eq n
  obtain ⟨last, hlast⟩ := set_last_action_ok ⟨Name.eosio, System.active u, site.is_account⟩ x ⟨12481915391452381184⟩
  have hauth : (⟨Name.eosio, System.active u, site.is_account⟩ : Ctx).has_auth u = true := by
    simp [Ctx.has_auth, System.active]
  obtain ⟨⟨x', t'⟩, hpaid⟩ := @inner_transfer_ok site { x with lastaction := last } t st u Name.eosio k [] heos
    (by omega) (by omega) hu hacc (by decide)
  have hcalled : apply site.datastream ⟨Name.eosio, System.active u, site.is_account⟩ x
      (.powerup u receiver days net_frac cpu_frac ⟨n, Symbol.EOS⟩) =
      .ok { tables := { x with lastaction := last }
            inline := [pay_in ⟨Name.eosio, System.active u, site.is_account⟩ u ⟨k, Symbol.EOS⟩ []] } := by
    simp only [apply, powerup, hk, bind_eq_ok, pure_eq_ok, Except.ok.injEq, exists_eq_left', check_eq_ok,
      Ctx.require_auth_eq_ok, exists_const]
    exact ⟨hauth, trivial, Int64.lt_iff_toInt_lt.2 hpos, _, hlast, rfl⟩
  exact ⟨x', t', eosio_eq_ok.2 ⟨List.mem_singleton_self _, commits_inner_call.2 ⟨_, hcalled, hpaid⟩⟩⟩

theorem powerup_called (hm : System.Minted site.self m s.system) (heos : Token.Eos s.token st) (hne : u ≠ site.self)
    (hu : u ≠ Name.eosio) (hexempt : ¬ System.Exempt u) (hacc : site.is_account u = true) (hauth : u ∈ l.map (·.actor))
    {accounts : System.Accounts} {s₁ : State Tables}
    (hswap : System.Swapped (site.env.ctx s site.env.self []) s.system u q accounts)
    (hcredit : site.env.Commits { s with system := { s.system with accounts } } [site.env.credit u q] s₁)
    (hcall : site.eosio (.powerup u receiver days net_frac cpu_frac q.in_eos) (System.active u) s₁.eosio s₁.token =
      .ok (x, t)) :
    (∃ s', site.env.Commits s [⟨site.self, l, .sys (.powerup u receiver days net_frac cpu_frac q)⟩] s') ∧
      ∀ s', site.env.Commits s [⟨site.self, l, .sys (.powerup u receiver days net_frac cpu_frac q)⟩] s' →
        Paid site m u (min q.val 10000) s s' := by
  have hpos := hswap.pos
  have hcontract : 0 ≤ s.xyz m.symbol.code site.self := by
    rw [State.xyz_eq]
    exact hm.sound.nonneg site.self
  have hreturns : site.env.Returns s (.powerup u receiver days net_frac cpu_frac q) u q.val
      (.powerup u receiver days net_frac cpu_frac q.in_eos) s₁ := .powerup hswap hcredit
  have hb := hreturns.before hm hne
  have hpaid : _ = moved _ _ _ (min q.val 10000) := call_powerup hcall
  rw [s₁.eos_book, hb.eos] at hpaid
  have hd : (book t.accounts).amount Symbol.EOS.code u = s.eos u + (q.val - min q.val 10000) := by
    rw [hpaid, moved_sender _ hu, env_self, moved_recipient _ (Ne.symm hne)]
    omega
  obtain ⟨hiff, heffect⟩ := Env.returned throughToken hm heos hne hexempt hacc hauth hreturns hcall hd (by omega)
  refine ⟨hiff.2 (by rw [env_self]; omega), fun s' hs' => ?_⟩
  obtain ⟨heos', hxyz'⟩ := heffect s' hs'
  rw [sub_sub_cancel] at hxyz'
  refine ⟨heos'.trans ?_, hxyz'⟩
  funext v
  simp only [hpaid, moved_apply, env_self]
  split_ifs <;> omega

/-- **What is not taken for resources comes back.** On the chain of the tests, after a fair
run, the wrapper `powerup` of a user who signs it, other than the contracts, `eosio.ram` and
`eosio.stake`, commits exactly when what he offers is XYZ, positive, and his. What he pays in
the end is what he offers but never more than 10000 units: so much of the contract's EOS goes
to `eosio`, and so much of his XYZ to the contract. -/
theorem powerup_settles (hstart : site.Started m s₀) (h : site.Runs s₀ s)
    (hst : s.token.stat.find Symbol.EOS.code Symbol.EOS.code = some st) (hsym : st.supply.symbol = Symbol.EOS)
    (hu : u ≠ Name.eosio) (hexempt : ¬ System.Exempt u) (hacc : site.is_account u = true)
    (heosio : site.is_account Name.eosio = true) (hauth : u ∈ l.map (·.actor)) (hself : site.self ∉ l.map (·.actor)) :
    ((∃ s', site.Commits s [⟨site.self, l, .sys (.powerup u receiver days net_frac cpu_frac q)⟩] s') ↔
      q.symbol = m.symbol ∧ 0 < q.val ∧ q.val ≤ s.xyz m.symbol.code u) ∧
    ∀ s', site.Commits s [⟨site.self, l, .sys (.powerup u receiver days net_frac cpu_frac q)⟩] s' →
      s'.eos = moved s.eos site.self Name.eosio (min q.val 10000) ∧
      s'.xyz m.symbol.code = moved (s.xyz m.symbol.code) u site.self (min q.val 10000) := by
  have hne : u ≠ site.self := fun he => hself (he ▸ hauth)
  have hm := h.minted hstart
  have heos := h.eos hstart hst hsym
  have hfold : ∀ s', site.Commits s _ s' ↔ site.env.Commits s _ s' :=
    fun _ => folds_wrapper (w := .powerup u receiver days net_frac cpu_frac q) hauth hself rfl
  refine ⟨⟨?_, ?_⟩, fun s' hs' => ?_⟩
  · rintro ⟨s', hs'⟩
    obtain ⟨accounts, _, hswap, -⟩ := Env.powerup_commits hauth ((hfold s').1 hs')
    have hq := hm.config_eq hswap.symbol
    refine ⟨hq, hswap.pos, ?_⟩
    rw [State.xyz_eq, ← hq]
    exact Book.move_le hswap.pos hswap.moved.book
  · rintro ⟨hq, hpos, hle⟩
    have hcovered := h.covered hstart
    have hpair := pair_le_total hm.sound.nonneg hne
    rw [hm.sound.total, ← State.xyz_eq, ← State.xyz_eq] at hpair
    obtain ⟨accounts, hswap⟩ := @Env.swapped_ok _ site.env s m q u hm hq hpos hle
    obtain ⟨s₁, hcredit⟩ := @Env.credit_ok _ site.env { s with system := { s.system with accounts } } q u st heos hne
      hacc hpos (by change _ ≤ s.eos site.self; omega)
    obtain ⟨-, -, -, heos₁⟩ := Env.credited hne hcredit
    have hhas : q.val ≤ s₁.eos u := by
      rw [heos₁, env_self, moved_recipient _ (Ne.symm hne)]
      have hnonneg := heos.sound.nonneg u
      rw [← State.eos_eq] at hnonneg
      change _ ≤ s.eos u + _
      omega
    obtain ⟨st₁, hafter⟩ := Env.token_kept_commits throughToken Token.eos_kept hcredit ⟨st, heos⟩
    obtain ⟨x, token, hcall⟩ := @call_powerup_ok site u s₁.eosio s₁.token st₁ receiver days net_frac cpu_frac hafter
      q.amount hu heosio hpos (by rw [← State.eos_eq]; exact hhas)
    obtain ⟨s', hs'⟩ := (powerup_called hm heos hne hu hexempt hacc hauth hswap hcredit hcall).1
    exact ⟨s', (hfold s').2 hs'⟩
  · obtain ⟨accounts, s₁, hswap, hcredit, _, _, hcall⟩ := Env.powerup_commits hauth ((hfold s').1 hs')
    obtain ⟨-, p, hp, -⟩ := env_exec_call.1 hcall
    have hpaid := (powerup_called hm heos hne hu hexempt hacc hauth hswap hcredit hp).2 s' ((hfold s').1 hs')
    exact ⟨hpaid.eos, hpaid.xyz⟩

theorem powerup_settles_alice : ∃ s', Tests.site.Commits Tests.swapped [⟨Tests.site.self, System.active Tiny.alice,
    .sys (.powerup Tiny.alice Tiny.bob 1 10 10 ⟨60, Tiny.XYZ⟩)⟩] s' ∧
    s'.xyz Tiny.XYZ.code Tiny.alice = 40 ∧ s'.eos Name.eosio = 60 := by
  obtain ⟨hiff, heffect⟩ := @powerup_settles Tests.site Tiny.alice _ Tiny.max_supply Tests.swapped Tests.start
    (System.active Tiny.alice) Tiny.bob 1 10 10 ⟨60, Tiny.XYZ⟩ Tests.started Tests.runs_swapped Tiny.start_stat rfl
    (by decide) (fun hx => hx.elim (by decide) (by decide)) rfl rfl (by decide) (by decide)
  obtain ⟨s', hs'⟩ := hiff.2 ⟨rfl, by decide, by decide⟩
  obtain ⟨heos, hxyz⟩ := heffect s' hs'
  refine ⟨s', hs', ?_, ?_⟩
  · refine (congrFun hxyz Tiny.alice).trans ?_
    decide
  · refine (congrFun heos Name.eosio).trans ?_
    decide

end Powerup

end Site

end Mocksys

end Vaulta
