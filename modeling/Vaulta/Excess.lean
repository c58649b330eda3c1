import Vaulta.Calls
import Vaulta.Swapto

/-!
# What a call leaves over

Five wrappers note the EOS of their user, make their call, and swap back what is above
that afterwards. `powerup` swaps some of his tokens before the call, behind the note.
-/

namespace Vaulta

theorem System.Moved.det {c : Ctx} {t t₁ t₂ : System.Accounts} {u w p : Name} {v : Asset}
    (h1 : System.Moved c t t₁ u w v p) (h2 : System.Moved c t t₂ u w v p) : t₁ = t₂ := by
  obtain ⟨m, hm, ht⟩ := h1
  obtain ⟨m', hm', ht'⟩ := h2
  obtain rfl : m = m' := Except.ok.inj (hm.symm.trans hm')
  exact Except.ok.inj (ht.symm.trans ht')

theorem State.eos_token {σ : Type} (system : System.Tables) (token : Token.Tables) (x : σ) (u : Name) :
    State.eos ⟨system, token, x⟩ u = (book token.accounts).amount Symbol.EOS.code u :=
  State.eos_eq _ u

namespace Tiny

def claim : Action := ⟨env.self, System.active alice, .sys (.claimrewards alice)⟩

def rewarded (s : State Unit) : State Unit := trade s [System.sys_action alice (.claimrewards alice)]

/-- As many XYZ as there are EOS, before the rewards. -/
def scarce : Asset := ⟨1000, XYZ⟩

def scarce_start : State Unit := trade funded [⟨env.self, System.active env.self, .init scarce⟩]

theorem scarce_initialised : market.Initialised scarce scarce_start := by
  have hgenesis : Env.Genesis genesis := ⟨rfl, rfl⟩
  exact hgenesis.initialised (l := System.active env.self) market_fund rfl

end Tiny

namespace Env

variable {σ : Type} (e : Env σ)

/-- `eosio` never removes an account. -/
def KeepsAccounts : Prop :=
  ∀ call authorization x x' t t' n, e.eosio call authorization x t = .ok (x', t') →
    e.is_account x n = true → e.is_account x' n = true

/-- The five wrappers: their user, what they swap for him, the call that `eosio` gets, and
the state in which it gets it. -/
inductive Returns (s : State σ) : SysCall → Name → Int → SysCall → State σ → Prop
  | bidrefund {bidder newname : Name} :
      Returns s (.bidrefund bidder newname) bidder 0 (.bidrefund bidder newname) s
  | sellram {account : Name} {bytes : Int64} :
      Returns s (.sellram account bytes) account 0 (.sellram account bytes) s
  | refund {owner : Name} : Returns s (.refund owner) owner 0 (.refund owner) s
  | claimrewards {owner : Name} : Returns s (.claimrewards owner) owner 0 (.claimrewards owner) s
  | powerup {payer receiver : Name} {days : UInt32} {net_frac cpu_frac : Int64} {max_payment : Asset}
      {accounts : System.Accounts} {s₁ : State σ}
      (hswap : System.Swapped (e.ctx s e.self []) s.system payer max_payment accounts)
      (hcredit : e.Commits { s with system := { s.system with accounts } } [e.credit payer max_payment] s₁) :
      Returns s (.powerup payer receiver days net_frac cpu_frac max_payment) payer max_payment.val
        (.powerup payer receiver days net_frac cpu_frac max_payment.in_eos) s₁

variable {e} {s s' s₁ : State σ} {m : Asset} {u : Name} {w call : SysCall} {q : Int}
  {authorization : List PermissionLevel}

/-! ## Up to the call -/

theorem moved_zero {ι : Type} [DecidableEq ι] (f : ι → Int) (u w : ι) : moved f u w 0 = f := by
  funext v
  simp [moved_apply]

/-- What the call finds. -/
structure Before (e : Env σ) (m : Asset) (u : Name) (q : Int) (s s₁ : State σ) : Prop where
  minted : System.Minted e.self m s₁.system
  eosio : s₁.eosio = s.eosio
  eos : s₁.eos = moved s.eos e.self u q
  xyz : s₁.xyz m.symbol.code = moved (s.xyz m.symbol.code) u e.self q
  token : ∀ P, e.ThroughToken → Token.Kept P → P s.token → P s₁.token

theorem Before.same (hm : System.Minted e.self m s.system) : e.Before m u 0 s s where
  minted := hm
  eosio := rfl
  eos := (moved_zero _ _ _).symm
  xyz := (moved_zero _ _ _).symm
  token _ _ _ h := h

theorem Before.eos_self (hb : e.Before m u q s s₁) (hu : u ≠ e.self) : s₁.eos e.self = s.eos e.self - q := by
  rw [hb.eos, moved_sender _ (Ne.symm hu)]

theorem Before.xyz_user (hb : e.Before m u q s s₁) (hu : u ≠ e.self) :
    s₁.xyz m.symbol.code u = s.xyz m.symbol.code u - q := by
  rw [hb.xyz, moved_sender _ hu]

theorem Before.xyz_self (hb : e.Before m u q s s₁) (hu : u ≠ e.self) :
    s₁.xyz m.symbol.code e.self = s.xyz m.symbol.code e.self + q := by
  rw [hb.xyz, moved_recipient _ hu]

theorem Returns.before (h : e.Returns s w u q call s₁) (hm : System.Minted e.self m s.system) (hu : u ≠ e.self) :
    e.Before m u q s s₁ := by
  cases h with
  | bidrefund | sellram | refund | claimrewards => exact .same hm
  | @powerup _ _ _ _ _ max_payment accounts _ hswap hcredit =>
    have hm' : System.Minted e.self m { s.system with accounts } := hm.moved hswap.pos hswap.small hswap.moved
    obtain ⟨hsystem, heosio, -, heos⟩ := credited hu hcredit
    refine ⟨hsystem ▸ hm', heosio, heos, ?_, fun P ht hP hs => ?_⟩
    · refine Eq.trans ?_ (swapped_xyz hm hswap)
      funext v
      rw [State.xyz_eq, hsystem]
    · exact token_kept_commits ht hP hcredit hs

theorem commits_returns (h : e.Returns s w u q call s₁) (hauth : u ∈ authorization.map (·.actor)) :
    e.Commits s [⟨e.self, authorization, .sys w⟩] s' ↔
      e.Commits s₁ [System.sys_action u call, System.swapexcess_action (e.ctx s e.self []) u
        (System.get_eos_balance s.token u)] s' := by
  have hhas := (Ctx.has_auth_iff (e.ctx s e.self authorization) u).2 hauth
  have hplain : ∀ {w : SysCall}, (∀ o, System.apply_sys (e.view s authorization) s.system w = .ok o ↔
      System.forward_and_swap_excess (e.view s authorization) s.system u w = .ok o) →
      (e.Commits s [⟨e.self, authorization, .sys w⟩] s' ↔ e.Commits s [System.sys_action u w,
        System.swapexcess_action (e.ctx s e.self []) u (System.get_eos_balance s.token u)] s') := by
    intro w hw
    rw [Commits, Machine.commits_cons]
    simp only [exec_sys, hw, System.forward_and_swap_excess_eq_ok]
    constructor
    · rintro ⟨s₁, queued, ⟨o, ⟨-, rfl⟩, rfl, rfl⟩, ht⟩
      exact ht
    · intro ht
      exact ⟨_, _, ⟨_, ⟨hhas, rfl⟩, rfl, rfl⟩, ht⟩
  cases h with
  | bidrefund | sellram | refund | claimrewards => exact hplain fun _ => Iff.rfl
  | @powerup _ receiver days net_frac cpu_frac max_payment accounts _ hswap hcredit =>
    have hsys : ∀ o, System.apply_sys (e.view s authorization) s.system
        (.powerup u receiver days net_frac cpu_frac max_payment) = .ok o ↔
        System.powerup (e.view s authorization) s.system u receiver days net_frac cpu_frac max_payment = .ok o :=
      fun _ => Iff.rfl
    rw [Commits, Machine.commits_cons]
    simp only [exec_sys, hsys, System.powerup_eq_ok]
    constructor
    · rintro ⟨s₂, queued, ⟨o, ⟨-, accounts', hswap', rfl⟩, rfl, rfl⟩, ht⟩
      obtain rfl := (hswap'.moved.ctx (by rfl)).det hswap.moved
      have ht := (Machine.commits_leaf (exec_swaptrace _ _ _)).1 ht
      obtain ⟨s₃, hfirst, hrest⟩ := Machine.commits_head.1 ht
      obtain rfl := hfirst.det hcredit
      exact hrest
    · intro ht
      refine ⟨_, _, ⟨_, ⟨hhas, accounts, hswap.ctx (by rfl), rfl⟩, rfl, rfl⟩, ?_⟩
      exact (Machine.commits_leaf (exec_swaptrace _ _ _)).2 (Machine.commits_head.2 ⟨s₁, hcredit, ht⟩)

/-! ## After the call -/

theorem commits_swapexcess {c : Ctx} (hc : c.self = e.self) {eos_before : Asset}
    (hsym : eos_before.symbol = Symbol.EOS) (hnonneg : 0 ≤ eos_before.val) {st : CurrencyStats}
    (heos : Token.Eos s.token st) :
    e.Commits s [System.swapexcess_action c u eos_before] s' ↔
      (s.eos u ≤ eos_before.val ∧ s' = s) ∨
        ∃ n : Int64, n.toInt = s.eos u - eos_before.val ∧ 0 < n.toInt ∧ e.Commits s [e.eos_in u n []] s' := by
  have hsys : ∀ o, System.apply (e.view s (System.active e.self)) s.system (.swapexcess u eos_before) = .ok o ↔
      System.swapexcess (e.view s (System.active e.self)) s.system u eos_before = .ok o := fun _ => Iff.rfl
  have hafter := System.get_eos_balance_val s.token u
  have hsmall := heos.small
  have hmax := heos.sound.amount_le u
  rw [← State.eos_eq] at hafter hmax
  have hsame := hsym.trans (System.get_eos_balance_symbol heos u).symm
  unfold System.swapexcess_action
  rw [hc, Commits, Machine.commits_cons]
  simp only [exec_own, hsys, System.swapexcess_eq_ok]
  constructor
  · rintro ⟨s₁, queued, ⟨o, ⟨-, -, ⟨hle, rfl⟩ | ⟨hlt, excess, hsub, hpos, -, rfl⟩⟩, rfl, rfl⟩, ht⟩
    · refine .inl ⟨?_, Machine.commits_nil.1 ht⟩
      change ¬ _ < (System.get_eos_balance s.token u).val at hle
      omega
    · refine .inr ⟨excess.amount, ?_, hpos, ht⟩
      have hval := Asset.sub_val ⟨by omega, by change _ < (System.get_eos_balance s.token u).val at hlt; omega⟩ hsub
      exact hval.trans (congrArg (· - eos_before.val) hafter)
  · rintro (⟨hle, rfl⟩ | ⟨n, hn, hpos, ht⟩)
    · refine ⟨s', [], ⟨_, ⟨active_auth, hsame, .inl ⟨?_, rfl⟩⟩, rfl, rfl⟩, Machine.commits_nil.2 rfl⟩
      change ¬ _ < (System.get_eos_balance s'.token u).val
      omega
    · obtain ⟨excess, hsub⟩ := Asset.sub_ok hsame (a := System.get_eos_balance s.token u) (by omega) (by omega)
      have hval := Asset.sub_val ⟨by omega, by omega⟩ hsub
      obtain rfl : n = excess.amount := Int64.toInt_inj.1 (by change _ = excess.val; omega)
      refine ⟨_, _, ⟨_, ⟨active_auth, hsame, .inr ⟨?_, excess, hsub, hpos, ?_, rfl⟩⟩, rfl, rfl⟩, ht⟩
      · change _ < (System.get_eos_balance s.token u).val
        omega
      · omega

theorem Exchanged.nothing : e.Exchanged m u 0 s s where
  eos := (moved_zero _ _ _).symm
  xyz := (moved_zero _ _ _).symm
  other_eos _ _ _ := rfl
  other_xyz _ _ _ := rfl

theorem commits_excess (hm : System.Minted e.self m s.system) {st : CurrencyStats} (heos : Token.Eos s.token st)
    (hu : u ≠ e.self) (hexempt : ¬ System.Exempt u) (hacc : e.is_account s.eosio u = true) {c : Ctx}
    (hc : c.self = e.self) {eos_before : Asset} (hsym : eos_before.symbol = Symbol.EOS)
    (hnonneg : 0 ≤ eos_before.val) :
    ((∃ s', e.Commits s [System.swapexcess_action c u eos_before] s') ↔
      s.eos u - eos_before.val ≤ s.xyz m.symbol.code e.self) ∧
    ∀ s', e.Commits s [System.swapexcess_action c u eos_before] s' →
      e.Exchanged m u (max 0 (s.eos u - eos_before.val)) s s' := by
  have hself : 0 ≤ s.xyz m.symbol.code e.self := by
    rw [State.xyz_eq]
    exact hm.sound.nonneg e.self
  have hmax := heos.sound.amount_le u
  have hsmall := heos.small
  rw [← State.eos_eq] at hmax
  have heffect : ∀ s', e.Commits s [System.swapexcess_action c u eos_before] s' →
      s.eos u - eos_before.val ≤ s.xyz m.symbol.code e.self ∧
        e.Exchanged m u (max 0 (s.eos u - eos_before.val)) s s' := by
    intro s' h
    rcases (commits_swapexcess hc hsym hnonneg heos).1 h with ⟨hle, rfl⟩ | ⟨n, hn, hpos, h⟩
    · rw [max_eq_left (by omega)]
      exact ⟨by omega, .nothing⟩
    · obtain ⟨token, system, hasks, htoken, hsystem, rfl⟩ := (commits_eos_swap hm hu hexempt).1 h
      have hle := Book.move_le (show 0 < Asset.val ⟨n, m.symbol⟩ from hpos) hsystem.book
      rw [← State.xyz_eq] at hle
      change n.toInt ≤ _ at hle
      rw [max_eq_right (by omega), ← hn]
      exact ⟨hle, exchanged_eos hpos hasks.small htoken hsystem⟩
  refine ⟨⟨fun ⟨s', h⟩ => (heffect s' h).1, fun hcover => ?_⟩, fun s' h => (heffect s' h).2⟩
  by_cases hle : s.eos u ≤ eos_before.val
  · exact ⟨s, (commits_swapexcess hc hsym hnonneg heos).2 (.inl ⟨hle, rfl⟩)⟩
  · have hn : (Int64.ofInt (s.eos u - eos_before.val)).toInt = s.eos u - eos_before.val :=
      Int64.toInt_ofInt_of_le (by omega) (by omega)
    have hpos : 0 < (Int64.ofInt (s.eos u - eos_before.val)).toInt := by omega
    obtain ⟨s', h, -⟩ := eos_swap_ok hm heos.stat heos.symbol heos.sound hsmall hu hexempt hacc (active_self u)
      (show ([] : Memo).length ≤ 256 by decide) hpos (by omega) (by omega)
    exact ⟨s', (commits_swapexcess hc hsym hnonneg heos).2 (.inr ⟨_, hn, hpos, h⟩)⟩

/-! ## The whole wrapper -/

section Whole

variable {s₀ : State σ} {trace : List Queued} {x : σ} {token : Token.Tables}

theorem excess_covered (hbacked : m.val - s.xyz m.symbol.code e.self ≤ s.eos e.self) (hu : u ≠ e.self)
    (hnonneg : 0 ≤ s.eos u) (hb : e.Before m u q s s₁) {st : CurrencyStats} (heos : Token.Eos token st)
    (hkept : (book token.accounts).amount Symbol.EOS.code e.self = s₁.eos e.self) (hsupply : st.supply.val ≤ m.val) :
    (book token.accounts).amount Symbol.EOS.code u - s.eos u ≤ s.xyz m.symbol.code e.self + q := by
  -- What there is of EOS is not more than there was of XYZ, so the contract has enough.
  have hpair := pair_le_total heos.sound.nonneg hu
  rw [heos.sound.total] at hpair
  have hself := hb.eos_self hu
  omega

theorem Before.settled (hb : e.Before m u q s s₁) (hu : u ≠ e.self) {d : Int}
    (hkept : (book token.accounts).amount Symbol.EOS.code e.self = s₁.eos e.self)
    (hex : e.Exchanged m u d ⟨s₁.system, token, x⟩ s') :
    s'.eos u = (book token.accounts).amount Symbol.EOS.code u - d ∧
      s'.xyz m.symbol.code u = s.xyz m.symbol.code u - q + d ∧
      s'.eos e.self = s.eos e.self - q + d ∧ s'.xyz m.symbol.code e.self = s.xyz m.symbol.code e.self + q - d := by
  obtain ⟨hu₁, hu₂⟩ := hex.balances u
  obtain ⟨hs₁, hs₂⟩ := hex.balances e.self
  rw [if_neg hu, if_pos rfl, State.eos_token s₁.system] at hu₁
  rw [if_neg hu, if_pos rfl] at hu₂
  rw [if_pos rfl, if_neg (Ne.symm hu), State.eos_token s₁.system] at hs₁
  rw [if_pos rfl, if_neg (Ne.symm hu)] at hs₂
  -- The call has not touched the XYZ.
  have hpaid : State.xyz ⟨s₁.system, token, x⟩ m.symbol.code u = _ := hb.xyz_user hu
  have htaken : State.xyz ⟨s₁.system, token, x⟩ m.symbol.code e.self = _ := hb.xyz_self hu
  have hcontract := hb.eos_self hu
  refine ⟨?_, ?_, ?_, ?_⟩ <;> omega

/-- **What is left over is swapped back.** Between transactions, when what is swapped
first goes through and the call succeeds, the wrapper commits exactly when the contract
has the XYZ for what is above the EOS that its user began with, and it does unless there
is more EOS than was issued of XYZ. The user ends with no more EOS than he began with, and
what he has of both tokens together is what the call has left him. -/
theorem excess_returned (hkeeps : e.KeepsSelf) (ht : e.ThroughToken) (haccounts : e.KeepsAccounts)
    (hinit : e.Initialised m s₀) (h : e.After s₀ ⟨s, [], trace⟩) {st : CurrencyStats}
    (hst : s.token.stat.find Symbol.EOS.code Symbol.EOS.code = some st) (hsym : st.supply.symbol = Symbol.EOS)
    (hu : u ≠ e.self) (hram : u ≠ Name.eosio_ram) (hstake : u ≠ Name.eosio_stake)
    (hacc : e.is_account s.eosio u = true) (hauth : u ∈ authorization.map (·.actor))
    (hreturns : e.Returns s w u q call s₁)
    (hcall : e.eosio call (System.active u) s₁.eosio s₁.token = .ok (x, token)) :
    ((∃ s', e.Commits s [⟨e.self, authorization, .sys w⟩] s') ↔
      (book token.accounts).amount Symbol.EOS.code u - s.eos u ≤ s.xyz m.symbol.code e.self + q) ∧
    ((∀ st', token.stat.find Symbol.EOS.code Symbol.EOS.code = some st' → st'.supply.val ≤ m.val) →
      (book token.accounts).amount Symbol.EOS.code u - s.eos u ≤ s.xyz m.symbol.code e.self + q) ∧
    ∀ s', e.Commits s [⟨e.self, authorization, .sys w⟩] s' →
      s'.eos u = min (s.eos u) ((book token.accounts).amount Symbol.EOS.code u) ∧
      s'.xyz m.symbol.code u =
        s.xyz m.symbol.code u - q + max 0 ((book token.accounts).amount Symbol.EOS.code u - s.eos u) ∧
      s'.eos e.self = s.eos e.self - q + max 0 ((book token.accounts).amount Symbol.EOS.code u - s.eos u) ∧
      s'.xyz m.symbol.code e.self =
        s.xyz m.symbol.code e.self + q - max 0 ((book token.accounts).amount Symbol.EOS.code u - s.eos u) ∧
      s'.eos u ≤ s.eos u ∧
      s'.eos u + s'.xyz m.symbol.code u =
        (book token.accounts).amount Symbol.EOS.code u + (s.xyz m.symbol.code u - q) := by
  have hm := after_minted hinit h
  have heos := later_eos ht hinit h.later hst hsym
  have hb := hreturns.before hm hu
  obtain ⟨st₁, heos₁⟩ := hb.token _ ht Token.eos_kept ⟨st, heos⟩
  obtain ⟨st₂, heos₂⟩ := (ht _ _ _ _ _ _ hcall).kept Token.eos_kept ⟨st₁, heos₁⟩
  have hself : e.self ∉ (System.active u).map (·.actor) := by simp [System.active, Ne.symm hu]
  have hkept := (hkeeps _ _ _ _ _ _ hself hcall).trans (State.eos_eq s₁ e.self).symm
  have hbalance := (System.get_eos_balance_val s.token u).trans (State.eos_eq s u).symm
  have hnonneg : 0 ≤ s.eos u := by
    rw [State.eos_eq]
    exact heos.sound.nonneg u
  have hacc₂ : e.is_account x u = true := haccounts _ _ _ _ _ _ u hcall (hb.eosio ▸ hacc)
  have hwhole : ∀ s', e.Commits s [⟨e.self, authorization, .sys w⟩] s' ↔ e.Commits ⟨s₁.system, token, x⟩
      [System.swapexcess_action (e.ctx s e.self []) u (System.get_eos_balance s.token u)] s' :=
    fun s' => (commits_returns hreturns hauth).trans (commits_call hcall)
  obtain ⟨hiff, heffect⟩ := @commits_excess _ _ ⟨s₁.system, token, x⟩ _ _ hb.minted _ heos₂ hu
    (fun hx => hx.elim hram hstake) hacc₂ _ (Eq.refl (e.ctx s e.self []).self) _
    (System.get_eos_balance_symbol heos u) (by rw [hbalance]; exact hnonneg)
  have htaken : State.xyz ⟨s₁.system, token, x⟩ m.symbol.code e.self = _ := hb.xyz_self hu
  rw [hbalance, State.eos_token s₁.system] at hiff heffect
  rw [htaken] at hiff
  refine ⟨(exists_congr hwhole).trans hiff, fun hsupply => ?_, fun s' hs' => ?_⟩
  · exact excess_covered (peg hkeeps ht hinit h).2 hu hnonneg hb heos₂ hkept (hsupply st₂ heos₂.stat)
  · obtain ⟨hu₁, hu₂, hs₁, hs₂⟩ := hb.settled hu hkept (heffect s' ((hwhole s').1 hs'))
    refine ⟨?_, hu₂, hs₁, hs₂, ?_, ?_⟩ <;> omega

theorem market_keepsAccounts : Tiny.market.KeepsAccounts := fun _ _ _ _ _ _ _ _ _ => rfl

theorem excess_returned_alice : ∃ s', Tiny.market.Commits Tiny.market_start [Tiny.claim] s' ∧
    s'.eos Tiny.alice = 1000 ∧ s'.xyz Tiny.XYZ.code Tiny.alice = 2000 := by
  have hself : Tiny.alice ≠ Tiny.market.self := by decide
  have hsigned : Tiny.alice ∈ (System.active Tiny.alice).map (·.actor) := by decide
  have hafter : Tiny.market.After Tiny.market_start ⟨Tiny.market_start, [], []⟩ := .start rfl
  have hcall : Tiny.market.eosio (.claimrewards Tiny.alice) (System.active Tiny.alice) Tiny.market_start.eosio
      Tiny.market_start.token = .ok ((), (Tiny.rewarded Tiny.market_start).token) := rfl
  obtain ⟨hiff, -, heffect⟩ := excess_returned Tiny.market_keepsSelf Tiny.market_throughToken market_keepsAccounts
    Tiny.market_initialised hafter Tiny.start_stat rfl hself (by decide) (by decide) rfl hsigned .claimrewards hcall
  obtain ⟨s', hs'⟩ := hiff.2 (by decide)
  obtain ⟨heos, hxyz, -⟩ := heffect s' hs'
  exact ⟨s', hs', heos.trans (by decide), hxyz.trans (by decide)⟩

/-- The rewards may be more than all the XYZ that the contract has. -/
theorem rewards_stuck : ∃ s st token, Tiny.market.Initialised Tiny.scarce s ∧
    s.token.stat.find Symbol.EOS.code Symbol.EOS.code = some st ∧ st.supply.val ≤ Tiny.scarce.val ∧
    Tiny.market.Returns s (.claimrewards Tiny.alice) Tiny.alice 0 (.claimrewards Tiny.alice) s ∧
    Tiny.market.eosio (.claimrewards Tiny.alice) (System.active Tiny.alice) s.eosio s.token = .ok ((), token) ∧
    ∀ s', ¬ Tiny.market.Commits s [Tiny.claim] s' := by
  refine ⟨Tiny.scarce_start, _, (Tiny.rewarded Tiny.scarce_start).token, Tiny.scarce_initialised, Tiny.start_stat,
    by decide, .claimrewards, rfl, fun s' => ?_⟩
  exact @Machine.not_commits_of_transact _ _ _ _ 20 _ _ _ "overdrawn balance" rfl

end Whole

end Env

end Vaulta
