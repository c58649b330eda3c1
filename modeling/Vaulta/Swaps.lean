import Vaulta.Peg

/-!
# Swaps

A swap is a transfer to the contract, in either token, and the payout that the contract
makes of it in the other one.
-/

namespace Vaulta

theorem System.add_balance_ctx {c c' : Ctx} (h : c.self = c'.self) (t : System.Accounts) (u p : Name)
    (v : Asset) : System.add_balance c t u v p = System.add_balance c' t u v p := by
  unfold System.add_balance
  rw [h]

theorem System.Moved.ctx {c c' : Ctx} (h : c.self = c'.self) {t t' : System.Accounts} {u w p : Name}
    {v : Asset} (hm : System.Moved c t t' u w v p) : System.Moved c' t t' u w v p := by
  obtain ⟨a, h1, h2⟩ := hm
  exact ⟨a, h1, System.add_balance_ctx h a w p v ▸ h2⟩

namespace Env

variable {σ : Type} {e : Env σ}

/-! ## Transfers, as actions -/

theorem exec_xyz_transfer {s s' : State σ} {authorization : List PermissionLevel} {u w : Name} {q : Asset}
    {memo : Memo} {queued : List Action} :
    e.exec s ⟨e.self, authorization, .transfer u w q memo⟩ = .ok (s', queued) ↔
      ∃ o, System.transfer (e.ctx s e.self authorization) s.system u w q memo = .ok o ∧
        s' = { s with system := o.tables } ∧ queued = o.inline := exec_own

theorem exec_token_transfer {s s' : State σ} {authorization : List PermissionLevel} {u w : Name} {q : Asset}
    {memo : Memo} {queued : List Action} :
    e.exec s ⟨Name.eosio_token, authorization, .transfer u w q memo⟩ = .ok (s', queued) ↔
      ∃ o, Token.transfer (e.ctx s Name.eosio_token authorization) s.token u w q memo = .ok o ∧
        System.on_transfer (e.ctx s e.self authorization) s.system u w q memo = .ok queued ∧
        s' = { s with token := o.tables } := by
  unfold exec
  rw [if_neg (Ne.symm e.self_ne_token), if_pos rfl]
  simp only [Token.apply, bind_eq_ok, pure_eq_ok, Except.ok.injEq, Prod.mk.injEq]
  constructor
  · rintro ⟨o, ho, inline, hn, rfl, rfl⟩
    obtain ⟨_, _, _, _, _, _, _, _, _, _, _, rfl⟩ := Token.transfer_eq_ok.1 ho
    rw [notify_transfer rfl] at hn
    exact ⟨_, ho, hn, rfl⟩
  · rintro ⟨o, ho, hn, rfl⟩
    refine ⟨o, ho, queued, ?_, rfl, ?_⟩
    · obtain ⟨_, _, _, _, _, _, _, _, _, _, _, rfl⟩ := Token.transfer_eq_ok.1 ho
      rw [notify_transfer rfl]
      exact hn
    · obtain ⟨_, _, _, _, _, _, _, _, _, _, _, rfl⟩ := Token.transfer_eq_ok.1 ho
      rfl

/-! ## Transfers that are not swaps

The contract sends its payouts like this, and so does `swapto` what has been paid out. -/

section Send

variable {s s' : State σ} {m q : Asset} {x w : Name} {memo : Memo}

theorem active_payer {code : Name} (h : x ≠ w) :
    (if (e.ctx s code (System.active x)).has_auth w then w else x) = x := by
  -- The sender pays for the row, as the recipient has not signed.
  simp [Ctx.has_auth, ctx, System.active, h]

theorem active_auth {code : Name} : (e.ctx s code (System.active x)).has_auth x = true := by
  simp [Ctx.has_auth, ctx, System.active]

theorem commits_send_xyz (hm : System.Minted e.self m s.system) (hx : x ≠ w) (hw : w ≠ e.self) :
    e.Commits s [System.transfer_action e.self x x w ⟨q.amount, m.symbol⟩ memo] s' ↔
      ∃ accounts, e.is_account s.eosio w = true ∧ 0 < q.val ∧ q.val ≤ 2 ^ 62 - 1 ∧ memo.length ≤ 256 ∧
        System.Moved (e.ctx s e.self []) s.system.accounts accounts x w ⟨q.amount, m.symbol⟩ x ∧
        s' = { s with system := { s.system with accounts } } := by
  unfold System.transfer_action
  simp only [Commits, Machine.commits_cons, exec_xyz_transfer, System.transfer_eq_ok]
  constructor
  · rintro ⟨s₁, queued, ⟨o, ⟨st, accounts, -, -, hacc, -, hvalid, hpos, -, hmemo, hmove, -, rfl⟩, rfl, rfl⟩, ht⟩
    rw [active_payer hx] at hmove
    rw [if_neg (by exact hw), List.append_nil, Machine.commits_nil] at ht
    subst ht
    exact ⟨accounts, hacc, hpos, ((Asset.is_valid_iff _).1 hvalid).1.2, hmemo, hmove.ctx rfl, rfl⟩
  · rintro ⟨accounts, hacc, hpos, hle, hmemo, hmove, rfl⟩
    refine ⟨_, _, ⟨_, ⟨⟨m, m, e.self⟩, accounts, hx, active_auth, hacc, hm.find_stat, ?_, hpos, rfl, hmemo, ?_,
      fun h => absurd h hw, rfl⟩, rfl, rfl⟩, ?_⟩
    · exact (Asset.is_valid_iff _).2 ⟨⟨by change _ ≤ q.val; omega, hle⟩, hm.symbol_valid⟩
    · rw [active_payer hx]
      exact hmove.ctx rfl
    · rw [if_neg (by exact hw), List.append_nil, Machine.commits_nil]

theorem commits_send_eos (hx : x ≠ w) (hw : w ≠ e.self) :
    e.Commits s [System.transfer_action Name.eosio_token x x w ⟨q.amount, Symbol.EOS⟩ memo] s' ↔
      ∃ st accounts, e.is_account s.eosio w = true ∧
        s.token.stat.find Symbol.EOS.code Symbol.EOS.code = some st ∧ st.supply.symbol = Symbol.EOS ∧
        0 < q.val ∧ q.val ≤ 2 ^ 62 - 1 ∧ memo.length ≤ 256 ∧
        Token.Moved s.token.accounts accounts x w ⟨q.amount, Symbol.EOS⟩ x ∧
        s' = { s with token := { s.token with accounts } } := by
  unfold System.transfer_action
  simp only [Commits, Machine.commits_cons, exec_token_transfer, Token.transfer_eq_ok]
  constructor
  · rintro ⟨s₁, queued, ⟨o, ⟨st, accounts, -, -, hacc, hst, hvalid, hpos, hsym, hmemo, hmove, rfl⟩, hn, rfl⟩, ht⟩
    rw [active_payer hx] at hmove
    obtain rfl : queued = [] :=
      Except.ok.inj (hn.symm.trans (System.on_transfer_ignored _ _ _ (.inr hw)))
    rw [List.append_nil, Machine.commits_nil] at ht
    subst ht
    exact ⟨st, accounts, hacc, hst, hsym.symm, hpos, ((Asset.is_valid_iff _).1 hvalid).1.2, hmemo, hmove, rfl⟩
  · rintro ⟨st, accounts, hacc, hst, hsym, hpos, hle, hmemo, hmove, rfl⟩
    refine ⟨_, [], ⟨_, ⟨st, accounts, hx, active_auth, hacc, hst, ?_, hpos, hsym.symm, hmemo, ?_, rfl⟩,
      System.on_transfer_ignored _ _ _ (.inr hw), rfl⟩, ?_⟩
    · exact (Asset.is_valid_iff _).2 ⟨⟨by change _ ≤ q.val; omega, hle⟩, System.eos_is_valid⟩
    · rw [active_payer hx]
      exact hmove
    · rw [List.append_nil, Machine.commits_nil]

end Send

/-! ## Payouts -/

section Payout

variable {s s' : State σ} {m q : Asset} {u : Name}

theorem commits_pay_xyz (hm : System.Minted e.self m s.system) (hu : u ≠ e.self) {memo : Memo} :
    e.Commits s [System.transfer_action e.self e.self e.self u ⟨q.amount, m.symbol⟩ memo] s' ↔
      ∃ accounts, e.is_account s.eosio u = true ∧ 0 < q.val ∧ q.val ≤ 2 ^ 62 - 1 ∧ memo.length ≤ 256 ∧
        System.Moved (e.ctx s e.self []) s.system.accounts accounts e.self u ⟨q.amount, m.symbol⟩ e.self ∧
        s' = { s with system := { s.system with accounts } } :=
  commits_send_xyz hm (Ne.symm hu) hu

theorem commits_pay_eos (hu : u ≠ e.self) :
    e.Commits s [System.transfer_action Name.eosio_token e.self e.self u ⟨q.amount, Symbol.EOS⟩ []] s' ↔
      ∃ st accounts, e.is_account s.eosio u = true ∧
        s.token.stat.find Symbol.EOS.code Symbol.EOS.code = some st ∧ st.supply.symbol = Symbol.EOS ∧
        0 < q.val ∧ q.val ≤ 2 ^ 62 - 1 ∧
        Token.Moved s.token.accounts accounts e.self u ⟨q.amount, Symbol.EOS⟩ e.self ∧
        s' = { s with token := { s.token with accounts } } := by
  rw [commits_send_eos (Ne.symm hu) hu]
  simp

end Payout

/-! ## Whole swaps -/

section Swap

variable {s s' : State σ} {m q : Asset} {u : Name} {authorization : List PermissionLevel} {memo : Memo}

/-- What a swap asks for, besides the tokens. -/
structure Asks (e : Env σ) (s : State σ) (u : Name) (authorization : List PermissionLevel) (q : Asset)
    (memo : Memo) : Prop where
  auth : u ∈ authorization.map (·.actor)
  exists_ : e.is_account s.eosio u = true
  pos : 0 < q.val
  small : q.val ≤ 2 ^ 62 - 1
  memo : memo.length ≤ 256
  eos : ∃ st, s.token.stat.find Symbol.EOS.code Symbol.EOS.code = some st ∧ st.supply.symbol = Symbol.EOS

theorem commits_eos_swap (hm : System.Minted e.self m s.system) (hu : u ≠ e.self)
    (hexempt : ¬ System.Exempt u) {n : Int64} :
    e.Commits s [⟨Name.eosio_token, authorization, .transfer u e.self ⟨n, Symbol.EOS⟩ memo⟩] s' ↔
      ∃ token system, e.Asks s u authorization ⟨n, Symbol.EOS⟩ memo ∧
        Token.Moved s.token.accounts token u e.self ⟨n, Symbol.EOS⟩
          (if (e.ctx s Name.eosio_token authorization).has_auth e.self then e.self else u) ∧
        System.Moved (e.ctx s e.self []) s.system.accounts system e.self u ⟨n, m.symbol⟩ e.self ∧
        s' = { s with system := { s.system with accounts := system },
                      token := { s.token with accounts := token } } := by
  have hends : ¬ (u = e.self ∨ e.self ≠ e.self) := by simp [hu]
  simp only [Commits, Machine.commits_cons, exec_token_transfer, Token.transfer_eq_ok]
  constructor
  · rintro ⟨s₁, queued, ⟨o, ⟨st, token, -, hauth, -, hst, -, hpos, hsym, hmemo, hmove, rfl⟩, hn, rfl⟩, ht⟩
    obtain ⟨-, ⟨hexempt', -⟩ | ⟨-, -, symbol, hcfg, hsmall, -, rfl⟩⟩ := (System.on_transfer_eq_ok hends).1 hn
    · exact absurd hexempt' hexempt
    · obtain rfl := hm.config_eq hcfg
      obtain ⟨system, hacc, -, -, -, hpay, rfl⟩ :=
        (commits_pay_xyz (s := { s with token := { s.token with accounts := token } })
          (q := ⟨n, Symbol.EOS⟩) hm hu).1 ht
      exact ⟨token, system, ⟨(Ctx.has_auth_iff _ _).1 hauth, hacc, hpos, hsmall, hmemo, st, hst, hsym.symm⟩,
        hmove, hpay, rfl⟩
  · rintro ⟨token, system, hasks, hmove, hpay, rfl⟩
    obtain ⟨st, hst, hsym⟩ := hasks.eos
    have hpos := hasks.pos
    refine ⟨_, _, ⟨_, ⟨st, token, hu, (Ctx.has_auth_iff _ _).2 hasks.auth, e.self_is_account _, hst, ?_, hpos,
      hsym.symm, hasks.memo, hmove, rfl⟩, (System.on_transfer_eq_ok hends).2 ⟨hpos, .inr ⟨hexempt, rfl,
      m.symbol, hm.find_config, hasks.small, hm.symbol_valid, rfl⟩⟩, rfl⟩, ?_⟩
    · exact (Asset.is_valid_iff _).2 ⟨⟨by omega, hasks.small⟩, System.eos_is_valid⟩
    · exact (commits_pay_xyz (s := { s with token := { s.token with accounts := token } })
          (q := ⟨n, Symbol.EOS⟩) hm hu).2
        ⟨system, hasks.exists_, hpos, hasks.small, hasks.memo, hpay, rfl⟩

theorem commits_xyz_swap (hm : System.Minted e.self m s.system) (hu : u ≠ e.self) {n : Int64} :
    e.Commits s [⟨e.self, authorization, .transfer u e.self ⟨n, m.symbol⟩ memo⟩] s' ↔
      ∃ token system, e.Asks s u authorization ⟨n, m.symbol⟩ memo ∧
        System.Moved (e.ctx s e.self []) s.system.accounts system u e.self ⟨n, m.symbol⟩
          (if (e.ctx s e.self authorization).has_auth e.self then e.self else u) ∧
        Token.Moved s.token.accounts token e.self u ⟨n, Symbol.EOS⟩ e.self ∧
        s' = { s with system := { s.system with accounts := system },
                      token := { s.token with accounts := token } } := by
  simp only [Commits, Machine.commits_cons, exec_xyz_transfer, System.transfer_eq_ok]
  constructor
  · rintro ⟨s₁, queued, ⟨o, ⟨st, system, -, hauth, -, -, hvalid, hpos, -, hmemo, hmove, -, rfl⟩, rfl, rfl⟩, ht⟩
    rw [if_pos (by rfl)] at ht
    obtain ⟨st, token, hacc, hst, hsym, -, hsmall, hpay, rfl⟩ :=
      (commits_pay_eos (q := ⟨n, m.symbol⟩) hu).1 ht
    exact ⟨token, system, ⟨(Ctx.has_auth_iff _ _).1 hauth, hacc, hpos, hsmall, hmemo, st, hst, hsym⟩,
      hmove.ctx rfl, hpay, rfl⟩
  · rintro ⟨token, system, hasks, hmove, hpay, rfl⟩
    obtain ⟨st, hst, hsym⟩ := hasks.eos
    have hpos := hasks.pos
    refine ⟨_, _, ⟨_, ⟨⟨m, m, e.self⟩, system, hu, (Ctx.has_auth_iff _ _).2 hasks.auth, e.self_is_account _,
      hm.find_stat, ?_, hpos, rfl, hasks.memo, hmove.ctx rfl, fun _ => hm.find_config, rfl⟩, rfl, rfl⟩, ?_⟩
    · exact (Asset.is_valid_iff _).2 ⟨⟨by omega, hasks.small⟩, hm.symbol_valid⟩
    · rw [if_pos (by rfl)]
      exact (commits_pay_eos (q := ⟨n, m.symbol⟩) hu).2
        ⟨st, token, hasks.exists_, hst, hsym, hpos, hasks.small, hpay, rfl⟩

end Swap

/-! ## Swaps can always be fulfilled -/

/-- Between transactions: both ledgers are sound, there is no more EOS than XYZ, and the
contract has the EOS for all the XYZ that is not its own. -/
structure Ready (e : Env σ) (m : Asset) (s : State σ) : Prop where
  minted : System.Minted e.self m s.system
  eos : ∃ st, s.token.stat.find Symbol.EOS.code Symbol.EOS.code = some st ∧ st.supply.symbol = Symbol.EOS ∧
    (book s.token.accounts).Sound Symbol.EOS st.supply.val ∧ st.supply.val ≤ m.val
  backed : m.val - s.xyz m.symbol.code e.self ≤ s.eos e.self

theorem after_backed (hkeeps : e.KeepsSelf) (ht : e.ThroughToken) {m : Asset} {s₀ s : State σ}
    {trace : List Queued} (hinit : e.Initialised m s₀) (h : e.After s₀ ⟨s, [], trace⟩) :
    m.val - s.xyz m.symbol.code e.self ≤ s.eos e.self := by
  have hinv := pegInv hkeeps hinit h
  have hpeg := hinv.peg
  have hreceived := hinv.received
  have hbefore : 0 ≤ s₀.eos e.self := by
    rw [State.eos_eq]
    exact (after_token_sound ht hinit (.start rfl)).nonneg _ _
  simp only [owed, List.map_nil, List.sum_nil] at hpeg hreceived
  omega

theorem ready (hkeeps : e.KeepsSelf) (ht : e.ThroughToken) {m : Asset} {s₀ s : State σ}
    {trace : List Queued} (hinit : e.Initialised m s₀) (h : e.After s₀ ⟨s, [], trace⟩) {st : CurrencyStats}
    (hst : s.token.stat.find Symbol.EOS.code Symbol.EOS.code = some st)
    (hsym : st.supply.symbol = Symbol.EOS) (hle : st.supply.val ≤ m.val) : e.Ready m s where
  minted := after_minted hinit h
  eos := ⟨st, hst, hsym, hsym ▸ (after_token_sound ht hinit h).backed _ st hst, hle⟩
  backed := after_backed hkeeps ht hinit h

/-- `q` EOS of `u` for as many XYZ of the contract, and nothing else. A negative `q` is
the opposite. -/
structure Exchanged (e : Env σ) (m : Asset) (u : Name) (q : Int) (s s' : State σ) : Prop where
  eos : s'.eos = moved s.eos u e.self q
  xyz : s'.xyz m.symbol.code = moved (s.xyz m.symbol.code) e.self u q
  other_eos : ∀ w k, k ≠ Symbol.EOS.code → book s'.token.accounts w k = book s.token.accounts w k
  other_xyz : ∀ w k, k ≠ m.symbol.code → book s'.system.accounts w k = book s.system.accounts w k

section Effect

variable {s : State σ} {m : Asset} {u w : Name} {token : Token.Accounts} {system : System.Accounts}
  {c : Ctx} {p p' : Name} {n : Int64}

theorem eos_moved (hpos : 0 < n.toInt) (hle : n.toInt ≤ 2 ^ 62 - 1)
    (h : Token.Moved s.token.accounts token u w ⟨n, Symbol.EOS⟩ p) :
    (book token).amount Symbol.EOS.code = moved s.eos u w n.toInt := by
  funext v
  have hb := congrFun (h.amount hpos hle Symbol.EOS.code) v
  rw [show Asset.of ⟨n, Symbol.EOS⟩ Symbol.EOS.code = n.toInt from rfl] at hb
  simpa only [moved_apply, State.eos_eq] using hb

theorem xyz_moved (hpos : 0 < n.toInt) (hle : n.toInt ≤ 2 ^ 62 - 1)
    (h : System.Moved c s.system.accounts system u w ⟨n, m.symbol⟩ p) :
    (book system).amount m.symbol.code = moved (s.xyz m.symbol.code) u w n.toInt := by
  funext v
  have hb := congrFun (h.amount hpos hle m.symbol.code) v
  rw [show Asset.of ⟨n, m.symbol⟩ m.symbol.code = n.toInt from if_pos rfl] at hb
  simpa only [moved_apply, State.xyz_eq] using hb

theorem exchanged_eos (hpos : 0 < n.toInt) (hle : n.toInt ≤ 2 ^ 62 - 1)
    (htoken : Token.Moved s.token.accounts token u e.self ⟨n, Symbol.EOS⟩ p)
    (hsystem : System.Moved c s.system.accounts system e.self u ⟨n, m.symbol⟩ p') :
    e.Exchanged m u n.toInt s { s with system := { s.system with accounts := system },
                                       token := { s.token with accounts := token } } where
  eos := by rw [← eos_moved hpos hle htoken]; funext v; rw [State.eos_eq]
  xyz := by rw [← xyz_moved hpos hle hsystem]; funext v; rw [State.xyz_eq]
  other_eos w k hk := Book.move_ne htoken.book hk w
  other_xyz w k hk := Book.move_ne hsystem.book hk w

theorem exchanged_xyz (hpos : 0 < n.toInt) (hle : n.toInt ≤ 2 ^ 62 - 1)
    (hsystem : System.Moved c s.system.accounts system u e.self ⟨n, m.symbol⟩ p')
    (htoken : Token.Moved s.token.accounts token e.self u ⟨n, Symbol.EOS⟩ p) :
    e.Exchanged m u (-n.toInt) s { s with system := { s.system with accounts := system },
                                          token := { s.token with accounts := token } } where
  eos := by rw [moved_neg, ← eos_moved hpos hle htoken]; funext v; rw [State.eos_eq]
  xyz := by rw [moved_neg, ← xyz_moved hpos hle hsystem]; funext v; rw [State.xyz_eq]
  other_eos w k hk := Book.move_ne htoken.book hk w
  other_xyz w k hk := Book.move_ne hsystem.book hk w

end Effect

section Enabled

variable {s : State σ} {m : Asset} {u : Name} {authorization : List PermissionLevel} {memo : Memo} {n : Int64}

theorem eos_swap_ok (hm : System.Minted e.self m s.system) {st : CurrencyStats}
    (hst : s.token.stat.find Symbol.EOS.code Symbol.EOS.code = some st) (hsym : st.supply.symbol = Symbol.EOS)
    (hsound : (book s.token.accounts).Sound Symbol.EOS st.supply.val) (hsmall : st.supply.val ≤ 2 ^ 62 - 1)
    (hu : u ≠ e.self) (hexempt : ¬ System.Exempt u) (hacc : e.is_account s.eosio u = true)
    (hauth : u ∈ authorization.map (·.actor)) (hmemo : memo.length ≤ 256) (hpos : 0 < n.toInt)
    (hle : n.toInt ≤ s.eos u) (hcover : n.toInt ≤ s.xyz m.symbol.code e.self) :
    ∃ s', e.Commits s [⟨Name.eosio_token, authorization, .transfer u e.self ⟨n, Symbol.EOS⟩ memo⟩] s' ∧
      e.Exchanged m u n.toInt s s' := by
  have hmax := hsound.amount_le u
  rw [State.eos_eq] at hle
  rw [State.xyz_eq] at hcover
  have hn : n.toInt ≤ 2 ^ 62 - 1 := by omega
  obtain ⟨b, hb⟩ := hsound.move_ok hsmall (show 0 < Asset.val ⟨n, Symbol.EOS⟩ from hpos) rfl hle e.self
  obtain ⟨token, htoken, -⟩ := Token.moved_of_move _ _ _
    (if (e.ctx s Name.eosio_token authorization).has_auth e.self then e.self else u) _ hb
  obtain ⟨b', hb'⟩ := hm.sound.move_ok hm.small (show 0 < Asset.val ⟨n, m.symbol⟩ from hpos) rfl hcover u
  obtain ⟨system, hsystem, -⟩ := System.moved_of_move (e.ctx s e.self []) _ _ _ e.self _ hb'
  exact ⟨_, (commits_eos_swap hm hu hexempt).2
    ⟨token, system, ⟨hauth, hacc, hpos, hn, hmemo, st, hst, hsym⟩, htoken, hsystem, rfl⟩,
    exchanged_eos hpos hn htoken hsystem⟩

theorem xyz_swap_ok (hm : System.Minted e.self m s.system) {st : CurrencyStats}
    (hst : s.token.stat.find Symbol.EOS.code Symbol.EOS.code = some st) (hsym : st.supply.symbol = Symbol.EOS)
    (hsound : (book s.token.accounts).Sound Symbol.EOS st.supply.val) (hsmall : st.supply.val ≤ 2 ^ 62 - 1)
    (hu : u ≠ e.self) (hacc : e.is_account s.eosio u = true) (hauth : u ∈ authorization.map (·.actor))
    (hmemo : memo.length ≤ 256) (hpos : 0 < n.toInt) (hle : n.toInt ≤ s.xyz m.symbol.code u)
    (hcover : n.toInt ≤ s.eos e.self) :
    ∃ s', e.Commits s [⟨e.self, authorization, .transfer u e.self ⟨n, m.symbol⟩ memo⟩] s' ∧
      e.Exchanged m u (-n.toInt) s s' := by
  have hmax := hm.sound.amount_le u
  have hxyz := hm.small
  rw [State.xyz_eq] at hle
  rw [State.eos_eq] at hcover
  have hn : n.toInt ≤ 2 ^ 62 - 1 := by omega
  obtain ⟨b, hb⟩ := hm.sound.move_ok hm.small (show 0 < Asset.val ⟨n, m.symbol⟩ from hpos) rfl hle e.self
  obtain ⟨system, hsystem, -⟩ := System.moved_of_move (e.ctx s e.self []) _ _ _
    (if (e.ctx s e.self authorization).has_auth e.self then e.self else u) _ hb
  obtain ⟨b', hb'⟩ := hsound.move_ok hsmall (show 0 < Asset.val ⟨n, Symbol.EOS⟩ from hpos) rfl hcover u
  obtain ⟨token, htoken, -⟩ := Token.moved_of_move _ _ _ e.self _ hb'
  exact ⟨_, (commits_xyz_swap hm hu).2
    ⟨token, system, ⟨hauth, hacc, hpos, hn, hmemo, st, hst, hsym⟩, hsystem, htoken, rfl⟩,
    exchanged_xyz hpos hn hsystem htoken⟩

theorem backed_covers (hm : System.Minted e.self m s.system)
    (hbacked : m.val - s.xyz m.symbol.code e.self ≤ s.eos e.self) (hu : u ≠ e.self) :
    s.xyz m.symbol.code u ≤ s.eos e.self := by
  -- Of all the XYZ that is not with the contract, nobody has more than there is EOS for it.
  have hpair := pair_le_total hm.sound.nonneg hu
  rw [hm.sound.total] at hpair
  simp only [State.xyz_eq] at *
  omega

end Enabled

namespace Ready

variable {s : State σ} {m : Asset} {u : Name}

/-- Whoever has `n` EOS leaves less than the supply of XYZ for the rest of the EOS, so at
least `n` XYZ are still with the contract. -/
theorem covers_eos (h : e.Ready m s) (hu : u ≠ e.self) : s.eos u ≤ s.xyz m.symbol.code e.self := by
  obtain ⟨st, -, -, hsound, hle⟩ := h.eos
  have hpair := pair_le_total hsound.nonneg hu
  have hbacked := h.backed
  rw [hsound.total] at hpair
  simp only [State.eos_eq] at *
  omega

variable {authorization : List PermissionLevel} {memo : Memo} {n : Int64}

theorem eos_swap (h : e.Ready m s) (hu : u ≠ e.self) (hexempt : ¬ System.Exempt u)
    (hacc : e.is_account s.eosio u = true) (hauth : u ∈ authorization.map (·.actor))
    (hmemo : memo.length ≤ 256) (hpos : 0 < n.toInt) (hle : n.toInt ≤ s.eos u) :
    ∃ s', e.Commits s [⟨Name.eosio_token, authorization, .transfer u e.self ⟨n, Symbol.EOS⟩ memo⟩] s' ∧
      e.Exchanged m u n.toInt s s' := by
  obtain ⟨st, hst, hsym, hsound, hsupply⟩ := h.eos
  have hcover := h.covers_eos hu
  have hsmall := h.minted.small
  exact eos_swap_ok h.minted hst hsym hsound (by omega) hu hexempt hacc hauth hmemo hpos hle (by omega)

theorem xyz_swap (h : e.Ready m s) (hu : u ≠ e.self) (hacc : e.is_account s.eosio u = true)
    (hauth : u ∈ authorization.map (·.actor)) (hmemo : memo.length ≤ 256) (hpos : 0 < n.toInt)
    (hle : n.toInt ≤ s.xyz m.symbol.code u) :
    ∃ s', e.Commits s [⟨e.self, authorization, .transfer u e.self ⟨n, m.symbol⟩ memo⟩] s' ∧
      e.Exchanged m u (-n.toInt) s s' := by
  obtain ⟨st, hst, hsym, hsound, hsupply⟩ := h.eos
  have hcover := backed_covers h.minted h.backed hu
  have hsmall := h.minted.small
  exact xyz_swap_ok h.minted hst hsym hsound (by omega) hu hacc hauth hmemo hpos hle (by omega)

end Ready

/-- **Swaps can always be fulfilled.** Between transactions, whoever has some EOS or some
XYZ can swap them, unless it is the contract (or exempt, with EOS). The swap commits with
its payout, and changes two balances in each token. -/
theorem swaps_fulfilled (hkeeps : e.KeepsSelf) (ht : e.ThroughToken) {m : Asset} {s₀ s : State σ}
    {trace : List Queued} (hinit : e.Initialised m s₀) (h : e.After s₀ ⟨s, [], trace⟩) {st : CurrencyStats}
    (hst : s.token.stat.find Symbol.EOS.code Symbol.EOS.code = some st)
    (hsym : st.supply.symbol = Symbol.EOS) (hsupply : st.supply.val ≤ m.val) {u : Name} (hu : u ≠ e.self)
    (hacc : e.is_account s.eosio u = true) {authorization : List PermissionLevel}
    (hauth : u ∈ authorization.map (·.actor)) {memo : Memo} (hmemo : memo.length ≤ 256) :
    (u ≠ Name.eosio_ram → u ≠ Name.eosio_stake → ∀ n : Int64, 0 < n.toInt → n.toInt ≤ s.eos u →
      ∃ s', e.Commits s [⟨Name.eosio_token, authorization, .transfer u e.self ⟨n, Symbol.EOS⟩ memo⟩] s' ∧
        e.Exchanged m u n.toInt s s') ∧
    ∀ n : Int64, 0 < n.toInt → n.toInt ≤ s.xyz m.symbol.code u →
      ∃ s', e.Commits s [⟨e.self, authorization, .transfer u e.self ⟨n, m.symbol⟩ memo⟩] s' ∧
        e.Exchanged m u (-n.toInt) s s' := by
  have hready := ready hkeeps ht hinit h hst hsym hsupply
  constructor
  · intro hram hstake n hpos hle
    exact hready.eos_swap hu (fun hx => hx.elim hram hstake) hacc hauth hmemo hpos hle
  · intro n hpos hle
    exact hready.xyz_swap hu hacc hauth hmemo hpos hle

theorem swaps_fulfilled_alice : ∃ s', Tiny.env.Commits Tiny.start
    [⟨Name.eosio_token, System.active Tiny.alice, .transfer Tiny.alice Tiny.env.self ⟨1000, Symbol.EOS⟩ []⟩] s' ∧
      Tiny.env.Exchanged Tiny.max_supply Tiny.alice 1000 Tiny.start s' :=
  (swaps_fulfilled tiny_keepsSelf tiny_throughToken Tiny.initialised (.start rfl) Tiny.start_stat rfl
    (by decide) (by decide) rfl (by decide) (by decide)).1 (by decide) (by decide) 1000 (by decide) (by decide)

end Env

end Vaulta
