import Vaulta.PathIndependence

/-!
# Swaps for others

`swapto` is two transfers of its user: one to the contract, and one that sends on what
the contract has paid for it. The second one spends what the first one's payout brings.
-/

namespace Vaulta

namespace Tiny

def deliver (q : Asset) : Action := ⟨env.self, System.active alice, .swapto alice bob q []⟩

/-- `alice` has swapped 100 EOS, and the contract has given them away. -/
def starved : State Unit := run (run start [swap]) [give_away]

end Tiny

namespace Env

variable {σ : Type} {e : Env σ}

/-! ## New balances -/

/-- What everybody has of the two tokens afterwards. No other ticker changes. -/
structure Settles (m : Asset) (eos xyz : Name → Int) (s s' : State σ) : Prop where
  eos : s'.eos = eos
  xyz : s'.xyz m.symbol.code = xyz
  other_eos : ∀ v k, k ≠ Symbol.EOS.code → book s'.token.accounts v k = book s.token.accounts v k
  other_xyz : ∀ v k, k ≠ m.symbol.code → book s'.system.accounts v k = book s.system.accounts v k

section Settle

variable {m : Asset} {eos eos' xyz xyz' : Name → Int} {s s₁ s' : State σ} {u w : Name}

theorem Settles.trans (h : Settles m eos xyz s s₁) (h' : Settles m eos' xyz' s₁ s') : Settles m eos' xyz' s s' where
  eos := h'.eos
  xyz := h'.xyz
  other_eos v k hk := (h'.other_eos v k hk).trans (h.other_eos v k hk)
  other_xyz v k hk := (h'.other_xyz v k hk).trans (h.other_xyz v k hk)

theorem Exchanged.settles {q : Int} (h : e.Exchanged m u q s s') :
    Settles m (moved s.eos u e.self q) (moved (s.xyz m.symbol.code) e.self u q) s s' :=
  ⟨h.eos, h.xyz, h.other_eos, h.other_xyz⟩

variable {n : Int64} {p : Name}

theorem settles_xyz {c : Ctx} {accounts : System.Accounts} (hpos : 0 < n.toInt) (hle : n.toInt ≤ 2 ^ 62 - 1)
    (h : System.Moved c s.system.accounts accounts u w ⟨n, m.symbol⟩ p) :
    Settles m s.eos (moved (s.xyz m.symbol.code) u w n.toInt) s
      { s with system := { s.system with accounts } } where
  eos := rfl
  xyz := by rw [← xyz_moved hpos hle h]; funext v; rw [State.xyz_eq]
  other_eos _ _ _ := rfl
  other_xyz v _ hk := Book.move_ne h.book hk v

theorem settles_eos {accounts : Token.Accounts} (hpos : 0 < n.toInt) (hle : n.toInt ≤ 2 ^ 62 - 1)
    (h : Token.Moved s.token.accounts accounts u w ⟨n, Symbol.EOS⟩ p) :
    Settles m (moved s.eos u w n.toInt) (s.xyz m.symbol.code) s { s with token := { s.token with accounts } } where
  eos := by rw [← eos_moved hpos hle h]; funext v; rw [State.eos_eq]
  xyz := rfl
  other_eos v _ hk := Book.move_ne h.book hk v
  other_xyz _ _ _ := rfl

end Settle

/-! ## Both transfers -/

section Transfers

variable {m : Asset} {s s' : State σ} {u w : Name} {n : Int64} {memo : Memo}

def eos_in (e : Env σ) (u : Name) (n : Int64) (memo : Memo) : Action :=
  System.transfer_action Name.eosio_token u u e.self ⟨n, Symbol.EOS⟩ memo

def xyz_in (e : Env σ) (m : Asset) (u : Name) (n : Int64) (memo : Memo) : Action :=
  System.transfer_action e.self u u e.self ⟨n, m.symbol⟩ memo

theorem active_self (u : Name) : u ∈ (System.active u).map (·.actor) := List.mem_singleton_self u

theorem eos_then_xyz (hm : System.Minted e.self m s.system) (hu : u ≠ e.self) (hw : w ≠ e.self) (huw : u ≠ w)
    (hexempt : ¬ System.Exempt u)
    (h : e.Commits s [e.eos_in u n memo, System.transfer_action e.self u u w ⟨n, m.symbol⟩ memo] s') :
    e.is_account s.eosio w = true ∧ 0 < n.toInt ∧ n.toInt ≤ 2 ^ 62 - 1 ∧ n.toInt ≤ s.eos u ∧
      Settles m (moved s.eos u e.self n.toInt) (moved (s.xyz m.symbol.code) e.self w n.toInt) s s' := by
  obtain ⟨s₁, hfirst, hsecond⟩ := Machine.commits_head.1 h
  have hm₁ := minted_commits hfirst hm
  obtain ⟨token, system, hasks, htoken, hsystem, rfl⟩ := (commits_eos_swap hm hu hexempt).1 hfirst
  have hpos := hasks.pos
  have hsmall := hasks.small
  have hle := Book.move_le hpos htoken.book
  have hfirst := (exchanged_eos hpos hsmall htoken hsystem).settles
  obtain ⟨accounts, hacc, -, -, -, hsend, rfl⟩ :=
    (commits_send_xyz (q := ⟨n, m.symbol⟩) hm₁ huw hw).1 hsecond
  have hsecond := settles_xyz hpos hsmall hsend
  rw [hfirst.eos, hfirst.xyz, moved_moved] at hsecond
  exact ⟨hacc, hpos, hsmall, by rw [State.eos_eq]; exact hle, hfirst.trans hsecond⟩

theorem xyz_then_eos (hm : System.Minted e.self m s.system) (hu : u ≠ e.self) (hw : w ≠ e.self) (huw : u ≠ w)
    (h : e.Commits s [e.xyz_in m u n memo, System.transfer_action Name.eosio_token u u w ⟨n, Symbol.EOS⟩ memo] s') :
    e.is_account s.eosio w = true ∧ 0 < n.toInt ∧ n.toInt ≤ 2 ^ 62 - 1 ∧ n.toInt ≤ s.xyz m.symbol.code u ∧
      Settles m (moved s.eos e.self w n.toInt) (moved (s.xyz m.symbol.code) u e.self n.toInt) s s' := by
  obtain ⟨s₁, hfirst, hsecond⟩ := Machine.commits_head.1 h
  obtain ⟨token, system, hasks, hsystem, htoken, rfl⟩ := (commits_xyz_swap hm hu).1 hfirst
  have hpos := hasks.pos
  have hsmall := hasks.small
  have hle := Book.move_le hpos hsystem.book
  have hfirst := (exchanged_xyz hpos hsmall hsystem htoken).settles
  rw [moved_neg, moved_neg] at hfirst
  obtain ⟨st, accounts, hacc, -, -, -, -, -, hsend, rfl⟩ :=
    (commits_send_eos (q := ⟨n, Symbol.EOS⟩) huw hw).1 hsecond
  have hsecond := settles_eos (m := m) hpos hsmall hsend
  rw [hfirst.eos, hfirst.xyz, moved_moved] at hsecond
  exact ⟨hacc, hpos, hsmall, by rw [State.xyz_eq]; exact hle, hfirst.trans hsecond⟩

/-! ## What is held can be sent -/

theorem send_xyz_ok (hm : System.Minted e.self m s.system) (hu : u ≠ w) (hw : w ≠ e.self)
    (hacc : e.is_account s.eosio w = true) (hmemo : memo.length ≤ 256) (hpos : 0 < n.toInt)
    (hle : n.toInt ≤ s.xyz m.symbol.code u) :
    ∃ s', e.Commits s [System.transfer_action e.self u u w ⟨n, m.symbol⟩ memo] s' := by
  have hsmall := hm.small
  have hmax := hm.sound.amount_le u
  rw [State.xyz_eq] at hle
  obtain ⟨b, hb⟩ := hm.sound.move_ok hsmall (show 0 < Asset.val ⟨n, m.symbol⟩ from hpos) rfl hle w
  obtain ⟨accounts, hmove, -⟩ := System.moved_of_move (e.ctx s e.self []) _ _ _ u _ hb
  have hn : n.toInt ≤ 2 ^ 62 - 1 := by omega
  exact ⟨_, (commits_send_xyz (q := ⟨n, m.symbol⟩) hm hu hw).2 ⟨accounts, hacc, hpos, hn, hmemo, hmove, rfl⟩⟩

theorem send_eos_ok {st : CurrencyStats} (hst : s.token.stat.find Symbol.EOS.code Symbol.EOS.code = some st)
    (hsym : st.supply.symbol = Symbol.EOS) (hsound : (book s.token.accounts).Sound Symbol.EOS st.supply.val)
    (hsmall : st.supply.val ≤ 2 ^ 62 - 1) (hu : u ≠ w) (hw : w ≠ e.self)
    (hacc : e.is_account s.eosio w = true) (hmemo : memo.length ≤ 256) (hpos : 0 < n.toInt)
    (hle : n.toInt ≤ s.eos u) :
    ∃ s', e.Commits s [System.transfer_action Name.eosio_token u u w ⟨n, Symbol.EOS⟩ memo] s' := by
  have hmax := hsound.amount_le u
  rw [State.eos_eq] at hle
  obtain ⟨b, hb⟩ := hsound.move_ok hsmall (show 0 < Asset.val ⟨n, Symbol.EOS⟩ from hpos) rfl hle w
  obtain ⟨accounts, hmove, -⟩ := Token.moved_of_move _ _ _ u _ hb
  have hn : n.toInt ≤ 2 ^ 62 - 1 := by omega
  exact ⟨_, (commits_send_eos (q := ⟨n, Symbol.EOS⟩) hu hw).2
    ⟨st, accounts, hacc, hst, hsym, hpos, hn, hmemo, hmove, rfl⟩⟩

theorem Ready.eos_then_xyz (h : e.Ready m s) (hu : u ≠ e.self) (hw : w ≠ e.self) (huw : u ≠ w)
    (hexempt : ¬ System.Exempt u) (hacc : e.is_account s.eosio u = true) (hacc' : e.is_account s.eosio w = true)
    (hmemo : memo.length ≤ 256) (hpos : 0 < n.toInt) (hle : n.toInt ≤ s.eos u) :
    ∃ s', e.Commits s [e.eos_in u n memo, System.transfer_action e.self u u w ⟨n, m.symbol⟩ memo] s' := by
  obtain ⟨s₁, hfirst, hex⟩ := h.eos_swap hu hexempt hacc (active_self u) hmemo hpos hle
  have hm₁ := minted_commits hfirst h.minted
  have hbefore : 0 ≤ s.xyz m.symbol.code u := by rw [State.xyz_eq]; exact h.minted.sound.nonneg u
  have hxyz := congrFun hex.xyz u
  rw [moved_recipient _ (Ne.symm hu)] at hxyz
  obtain ⟨_, _, -, -, -, hs₁⟩ := (commits_eos_swap h.minted hu hexempt).1 hfirst
  have hacc₁ : e.is_account s₁.eosio w = true := by rw [hs₁]; exact hacc'
  obtain ⟨s', hsecond⟩ := send_xyz_ok hm₁ huw hw hacc₁ hmemo hpos (by omega)
  exact ⟨s', Machine.commits_head.2 ⟨s₁, hfirst, hsecond⟩⟩

theorem Ready.xyz_then_eos (h : e.Ready m s) (hu : u ≠ e.self) (hw : w ≠ e.self) (huw : u ≠ w)
    (hacc : e.is_account s.eosio u = true) (hacc' : e.is_account s.eosio w = true) (hmemo : memo.length ≤ 256)
    (hpos : 0 < n.toInt) (hle : n.toInt ≤ s.xyz m.symbol.code u) :
    ∃ s', e.Commits s
      [e.xyz_in m u n memo, System.transfer_action Name.eosio_token u u w ⟨n, Symbol.EOS⟩ memo] s' := by
  obtain ⟨s₁, hfirst, hex⟩ := h.xyz_swap hu hacc (active_self u) hmemo hpos hle
  obtain ⟨st, hst, hsym, hsound, hsupply⟩ := h.eos
  have hsmall := h.minted.small
  have hbefore : 0 ≤ s.eos u := by rw [State.eos_eq]; exact hsound.nonneg u
  have heos := congrFun hex.eos u
  rw [moved_neg, moved_recipient _ (Ne.symm hu)] at heos
  obtain ⟨token, _, hasks, -, htoken, hs₁⟩ := (commits_xyz_swap h.minted hu).1 hfirst
  have hacc₁ : e.is_account s₁.eosio w = true := by rw [hs₁]; exact hacc'
  have hst₁ : s₁.token.stat.find Symbol.EOS.code Symbol.EOS.code = some st := by rw [hs₁]; exact hst
  have hsound₁ : (book s₁.token.accounts).Sound Symbol.EOS st.supply.val := by
    rw [hs₁]
    exact hsound.move (show 0 < Asset.val ⟨n, Symbol.EOS⟩ from hpos) hasks.small htoken.book
  obtain ⟨s', hsecond⟩ := send_eos_ok hst₁ hsym hsound₁ (by omega) huw hw hacc₁ hmemo hpos (by omega)
  exact ⟨s', Machine.commits_head.2 ⟨s₁, hfirst, hsecond⟩⟩

end Transfers

/-! ## The action -/

/-- What `swapto` asks of the recipient, and of the tokens of its user. -/
structure Deliverable (e : Env σ) (m : Asset) (s : State σ) (u w : Name) (q : Asset) : Prop where
  exists_ : e.is_account s.eosio w = true
  free : s.system.blocked.find e.self w = none
  valid : q.is_valid = true
  pos : 0 < q.val
  holds : (q.symbol = Symbol.EOS ∧ q.val ≤ s.eos u) ∨ (q.symbol = m.symbol ∧ q.val ≤ s.xyz m.symbol.code u)

section Swapto

variable {m : Asset} {s₀ s s' : State σ} {trace : List Queued} {u w : Name} {q : Asset}
  {authorization : List PermissionLevel} {memo : Memo}

theorem commits_swapto (hm : System.Minted e.self m s.system) (hne : m.symbol ≠ Symbol.EOS)
    (hauth : u ∈ authorization.map (·.actor)) :
    e.Commits s [⟨e.self, authorization, .swapto u w q memo⟩] s' ↔ s.system.blocked.find e.self w = none ∧
      -(2 ^ 62 - 1) ≤ q.val ∧ q.val ≤ 2 ^ 62 - 1 ∧
      ((q.symbol = Symbol.EOS ∧ e.Commits s
          [e.eos_in u q.amount memo, System.transfer_action e.self u u w ⟨q.amount, m.symbol⟩ memo] s') ∨
        (q.symbol = m.symbol ∧ e.Commits s
          [e.xyz_in m u q.amount memo, System.transfer_action Name.eosio_token u u w ⟨q.amount, Symbol.EOS⟩ memo]
          s')) := by
  have hsys : ∀ o, System.apply (e.view s authorization) s.system (.swapto u w q memo) = .ok o ↔
      System.swapto (e.ctx s e.self authorization) s.system u w q memo = .ok o := fun _ => Iff.rfl
  obtain ⟨n, symbol⟩ := q
  rw [Commits, Machine.commits_cons]
  simp only [exec_own, hsys, System.swapto_eq_ok]
  constructor
  · rintro ⟨s₁, queued, ⟨o, ⟨-, hfree, _, hcfg, hlo, hhi, ⟨rfl, -, rfl⟩ | ⟨-, rfl, rfl⟩⟩, rfl, rfl⟩, ht⟩
    · obtain rfl := hm.config_eq hcfg
      exact ⟨hfree, hlo, hhi, .inl ⟨rfl, ht⟩⟩
    · obtain rfl := hm.config_eq hcfg
      exact ⟨hfree, hlo, hhi, .inr ⟨rfl, ht⟩⟩
  · have hhas := (Ctx.has_auth_iff (e.ctx s e.self authorization) u).2 hauth
    rintro ⟨hfree, hlo, hhi, ⟨rfl, ht⟩ | ⟨rfl, ht⟩⟩
    · exact ⟨_, _, ⟨_, ⟨hhas, hfree, m.symbol, hm.find_config, hlo, hhi, .inl ⟨rfl, hm.symbol_valid, rfl⟩⟩, rfl, rfl⟩,
        ht⟩
    · exact ⟨_, _, ⟨_, ⟨hhas, hfree, m.symbol, hm.find_config, hlo, hhi, .inr ⟨hne, rfl, rfl⟩⟩, rfl, rfl⟩, ht⟩

theorem Ready.swapto_commits (h : e.Ready m s) (hne : m.symbol ≠ Symbol.EOS) (hu : u ≠ e.self) (hw : w ≠ e.self)
    (huw : u ≠ w) (hexempt : ¬ System.Exempt u) (hacc : e.is_account s.eosio u = true)
    (hauth : u ∈ authorization.map (·.actor)) (hmemo : memo.length ≤ 256) (hd : e.Deliverable m s u w q) :
    ∃ s', e.Commits s [⟨e.self, authorization, .swapto u w q memo⟩] s' := by
  obtain ⟨hacc', hfree, hvalid, hpos, hholds⟩ := hd
  have hr := ((Asset.is_valid_iff q).1 hvalid).1
  rcases hholds with ⟨hsym, hle⟩ | ⟨hsym, hle⟩
  · obtain ⟨s', hs'⟩ := h.eos_then_xyz hu hw huw hexempt hacc hacc' hmemo hpos hle
    exact ⟨s', (commits_swapto h.minted hne hauth).2 ⟨hfree, hr.1, hr.2, .inl ⟨hsym, hs'⟩⟩⟩
  · obtain ⟨s', hs'⟩ := h.xyz_then_eos hu hw huw hacc hacc' hmemo hpos hle
    exact ⟨s', (commits_swapto h.minted hne hauth).2 ⟨hfree, hr.1, hr.2, .inr ⟨hsym, hs'⟩⟩⟩

theorem swapto_settles (hm : System.Minted e.self m s.system) (hne : m.symbol ≠ Symbol.EOS) (hu : u ≠ e.self)
    (hw : w ≠ e.self) (huw : u ≠ w) (hexempt : ¬ System.Exempt u) (hauth : u ∈ authorization.map (·.actor))
    (h : e.Commits s [⟨e.self, authorization, .swapto u w q memo⟩] s') :
    e.Deliverable m s u w q ∧
      (q.symbol = Symbol.EOS →
        Settles m (moved s.eos u e.self q.val) (moved (s.xyz m.symbol.code) e.self w q.val) s s') ∧
      (q.symbol = m.symbol →
        Settles m (moved s.eos e.self w q.val) (moved (s.xyz m.symbol.code) u e.self q.val) s s') := by
  obtain ⟨hfree, hlo, hhi, ⟨hsym, hboth⟩ | ⟨hsym, hboth⟩⟩ := (commits_swapto hm hne hauth).1 h
  · obtain ⟨hacc, hpos, -, hle, hsettle⟩ := eos_then_xyz hm hu hw huw hexempt hboth
    have hvalid := (Asset.is_valid_iff q).2 ⟨⟨hlo, hhi⟩, hsym ▸ System.eos_is_valid⟩
    exact ⟨⟨hacc, hfree, hvalid, hpos, .inl ⟨hsym, hle⟩⟩, fun _ => hsettle, fun hs => absurd (hs.symm.trans hsym) hne⟩
  · obtain ⟨hacc, hpos, -, hle, hsettle⟩ := xyz_then_eos hm hu hw huw hboth
    have hvalid := (Asset.is_valid_iff q).2 ⟨⟨hlo, hhi⟩, hsym ▸ hm.symbol_valid⟩
    exact ⟨⟨hacc, hfree, hvalid, hpos, .inr ⟨hsym, hle⟩⟩, fun hs => absurd (hsym.symm.trans hs) hne, fun _ => hsettle⟩

/-- **A swap for somebody else.** Between transactions, `swapto` commits exactly when the
recipient can be paid and the user holds what he wants to swap, whatever he has of the
other token. Then his tokens go to the contract, and as many of the other ones go from the
contract to the recipient. Otherwise the transaction leaves everything as it was. -/
theorem swapto_delivers (hkeeps : e.KeepsSelf) (ht : e.ThroughToken) (hinit : e.Initialised m s₀)
    (h : e.After s₀ ⟨s, [], trace⟩) (hne : m.symbol ≠ Symbol.EOS) {st : CurrencyStats}
    (hst : s.token.stat.find Symbol.EOS.code Symbol.EOS.code = some st) (hsym : st.supply.symbol = Symbol.EOS)
    (hsupply : st.supply.val ≤ m.val) (hu : u ≠ e.self) (hw : w ≠ e.self) (huw : u ≠ w)
    (hram : u ≠ Name.eosio_ram) (hstake : u ≠ Name.eosio_stake) (hacc : e.is_account s.eosio u = true)
    (hauth : u ∈ authorization.map (·.actor)) (hmemo : memo.length ≤ 256) (q : Asset) :
    ((∃ s', e.Commits s [⟨e.self, authorization, .swapto u w q memo⟩] s') ↔ e.Deliverable m s u w q) ∧
    ∀ s', e.Leaves s [⟨e.self, authorization, .swapto u w q memo⟩] s' →
      (e.Deliverable m s u w q →
        (q.symbol = Symbol.EOS →
          Settles m (moved s.eos u e.self q.val) (moved (s.xyz m.symbol.code) e.self w q.val) s s') ∧
        (q.symbol = m.symbol →
          Settles m (moved s.eos e.self w q.val) (moved (s.xyz m.symbol.code) u e.self q.val) s s')) ∧
      (¬ e.Deliverable m s u w q → s' = s) := by
  have hready := ready hkeeps ht hinit h hst hsym hsupply
  have hexempt : ¬ System.Exempt u := fun hx => hx.elim hram hstake
  have hcommits : e.Deliverable m s u w q → ∃ s', e.Commits s [⟨e.self, authorization, .swapto u w q memo⟩] s' :=
    hready.swapto_commits hne hu hw huw hexempt hacc hauth hmemo
  have hsettles := fun s' (hs' : e.Commits s [⟨e.self, authorization, .swapto u w q memo⟩] s') =>
    swapto_settles hready.minted hne hu hw huw hexempt hauth hs'
  refine ⟨⟨fun ⟨s', hs'⟩ => (hsettles s' hs').1, hcommits⟩, fun s' hleaves => ?_⟩
  cases hleaves with
  | commit hs' =>
    obtain ⟨hd, heffect⟩ := hsettles s' hs'
    exact ⟨fun _ => heffect, fun hnot => absurd hd hnot⟩
  | abort hnone =>
    refine ⟨fun hd => ?_, fun _ => rfl⟩
    obtain ⟨s', hs'⟩ := hcommits hd
    exact absurd hs' (hnone s')

theorem swapto_delivers_alice : ∃ s', Tiny.env.Commits Tiny.start [Tiny.deliver ⟨100, Symbol.EOS⟩] s' ∧
    s'.eos Tiny.alice = 900 ∧ s'.xyz Tiny.XYZ.code Tiny.bob = 100 := by
  have hmemo : ([] : Memo).length ≤ 256 := by decide
  obtain ⟨hcommits, hleaves⟩ := @swapto_delivers _ _ _ _ _ _ Tiny.alice Tiny.bob (System.active Tiny.alice) _
    tiny_keepsSelf tiny_throughToken Tiny.initialised (.start rfl) (by decide) _ Tiny.start_stat rfl (by decide)
    (by decide) (by decide) (by decide) (by decide) (by decide) rfl (by decide) hmemo ⟨100, Symbol.EOS⟩
  have hd : Tiny.env.Deliverable Tiny.max_supply Tiny.start Tiny.alice Tiny.bob ⟨100, Symbol.EOS⟩ :=
    ⟨rfl, rfl, by decide, by decide, .inl ⟨rfl, by decide⟩⟩
  obtain ⟨s', hs'⟩ := hcommits.2 hd
  have hsettle := ((hleaves s' (.commit hs')).1 hd).1 rfl
  refine ⟨s', hs', ?_, ?_⟩
  · rw [hsettle.eos]; rfl
  · exact (congrFun hsettle.xyz Tiny.bob).trans rfl

/-- Who signs for the contract can keep `alice` from sending `bob` EOS for her XYZ. -/
theorem swapto_starved : ∃ s trace st, Tiny.env.Later Tiny.start ⟨s, [], trace⟩ ∧
    s.token.stat.find Symbol.EOS.code Symbol.EOS.code = some st ∧ st.supply.symbol = Symbol.EOS ∧
    st.supply.val ≤ Tiny.max_supply.val ∧
    Tiny.env.Deliverable Tiny.max_supply s Tiny.alice Tiny.bob ⟨50, Tiny.XYZ⟩ ∧
    ∀ s', ¬ Tiny.env.Commits s [Tiny.deliver ⟨50, Tiny.XYZ⟩] s' := by
  have hswap : Tiny.env.Commits Tiny.start [Tiny.swap] (Tiny.run Tiny.start [Tiny.swap]) :=
    @Machine.commits_of_transact _ _ _ _ 20 _ _ _ rfl
  have hgive : Tiny.env.Commits (Tiny.run Tiny.start [Tiny.swap]) [Tiny.give_away] Tiny.starved :=
    @Machine.commits_of_transact _ _ _ _ 20 _ _ _ rfl
  have hstart : Tiny.env.Later Tiny.start ⟨Tiny.start, [], []⟩ := .start rfl
  obtain ⟨_, hreach⟩ := hstart.commit trivial hswap
  obtain ⟨trace, hreach⟩ := hreach.commit trivial hgive
  refine ⟨Tiny.starved, trace, _, hreach, Tiny.start_stat, rfl, by decide,
    ⟨rfl, rfl, by decide, by decide, .inr ⟨rfl, by decide⟩⟩, fun s' => ?_⟩
  exact @Machine.not_commits_of_transact _ _ _ _ 20 _ _ _ "overdrawn balance" rfl

end Swapto

end Env

end Vaulta
