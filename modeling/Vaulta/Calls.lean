import Vaulta.Supply
import Vaulta.Wrappers

/-!
# Balances around a call

A wrapper that reads the EOS of its user queues another reading behind its call to
`eosio`. Whatever happens in between, both readings are of the same token.
-/

namespace Vaulta

namespace Token

/-! ## The token stays the same -/

section Symbol

variable {k : SymbolCode} {st : CurrencyStats}

theorem store_keeps_symbol {t : Stats} {n : SymbolCode} {r : Stored Name CurrencyStats}
    (hr : ∀ st, t.find n n = some st → r.row.supply.symbol = st.supply.symbol) (hst : t.find k k = some st) :
    ∃ st', (t.store n r).find k k = some st' ∧ st'.supply.symbol = st.supply.symbol := by
  by_cases hk : k = n ∧ k = primary_key r.row
  · obtain ⟨rfl, hkey⟩ := hk
    exact ⟨r.row, by rw [MultiIndex.find_store, if_pos ⟨rfl, hkey⟩], hr st hst⟩
  · exact ⟨st, by rw [MultiIndex.find_store, if_neg hk, hst], rfl⟩

theorem symbol_kept (k : SymbolCode) (symbol : Symbol) :
    Kept fun t => ∃ st, t.stat.find k k = some st ∧ st.supply.symbol = symbol := by
  rintro c t call o ⟨st, hst, rfl⟩ h
  have hrow : ∀ {n : SymbolCode} {st' : CurrencyStats} {p : Name}, t.stat.rows n n = some ⟨st', p⟩ →
      ∀ st, t.stat.find n n = some st → st = st' := by
    intro n st' p hp st hst
    rw [find_of_rows hp] at hst
    exact (Option.some.inj hst).symm
  cases h with
  | create _ _ _ hstat =>
    obtain ⟨hnone, rfl⟩ := MultiIndex.emplace_eq_ok.1 hstat
    refine store_keeps_symbol (fun st' hst' => ?_) hst
    have hfind := hst'.symm.trans (MultiIndex.find_eq_none.2 hnone)
    cases hfind
  | issue _ _ hvalid _ hst' _ _ hsupply =>
    have hr := ((Asset.is_valid_iff _).1 hvalid).1
    obtain ⟨-, hs, -⟩ := (Asset.add_eq_ok hr).1 hsupply
    exact store_keeps_symbol (fun st hst => by rw [hrow hst' st hst]; exact hs) hst
  | setmaxsupply _ _ _ hst' =>
    exact store_keeps_symbol (fun st hst => by rw [hrow hst' st hst]) hst
  | retire _ _ _ hst' _ hsupply =>
    exact store_keeps_symbol (fun st hst => by rw [hrow hst' st hst]; exact Asset.sub_symbol hsupply) hst
  | transfer | opened | open_idle | closed => exact ⟨st, hst, rfl⟩

end Symbol

theorem ledger_kept : Kept Ledger := fun _ _ _ _ h he => h.step he

/-! ## EOS -/

/-- EOS has four decimals, and nobody has more than there is of it. -/
structure Eos (t : Tables) (st : CurrencyStats) : Prop where
  ledger : Ledger t
  stat : t.stat.find Symbol.EOS.code Symbol.EOS.code = some st
  symbol : st.supply.symbol = Symbol.EOS

namespace Eos

variable {t t' : Tables} {st : CurrencyStats}

theorem sound (h : Eos t st) : (book t.accounts).Sound Symbol.EOS st.supply.val := by
  have hsound := h.ledger.sound.backed _ st h.stat
  rwa [h.symbol] at hsound

theorem small (h : Eos t st) : st.supply.val ≤ 2 ^ 62 - 1 := h.ledger.supply_small h.stat

end Eos

theorem eos_kept : Kept fun t => ∃ st, Eos t st := by
  rintro c t call o ⟨st, h⟩ he
  obtain ⟨st', hst', hsym'⟩ := symbol_kept _ _ c t call o ⟨st, h.stat, h.symbol⟩ he
  exact ⟨st', h.ledger.step he, hst', hsym'⟩

end Token

namespace System

theorem get_eos_balance_val (t : Token.Tables) (u : Name) :
    (get_eos_balance t u).val = (book t.accounts).amount Symbol.EOS.code u := by
  unfold get_eos_balance
  split
  · rename_i hrow
    rw [Book.amount_none (book_of_none hrow)]
    rfl
  · rename_i row hrow
    rw [Book.amount_eq (book_of_find hrow)]
    rfl

theorem get_eos_balance_symbol {t : Token.Tables} {st : CurrencyStats} (h : Token.Eos t st) (u : Name) :
    (get_eos_balance t u).symbol = Symbol.EOS := by
  unfold get_eos_balance
  split
  · rfl
  · rename_i row hrow
    exact h.sound.symbol u _ (book_of_find hrow)

theorem get_eos_balance_inj {t t' : Token.Tables} {st st' : CurrencyStats} (h : Token.Eos t st)
    (h' : Token.Eos t' st') (u : Name) :
    get_eos_balance t u = get_eos_balance t' u ↔
      (book t.accounts).amount Symbol.EOS.code u = (book t'.accounts).amount Symbol.EOS.code u := by
  rw [← get_eos_balance_val, ← get_eos_balance_val]
  constructor
  · intro heq
    rw [heq]
  · intro heq
    exact Asset.ext_val heq ((get_eos_balance_symbol h u).trans (get_eos_balance_symbol h' u).symm)

end System

namespace Env

variable {σ : Type} {e : Env σ}

/-! ## What `eosio.token` holds at any time -/

theorem later_eos (ht : e.ThroughToken) {m : Asset} {s₀ : State σ} {c : Config σ} (hinit : e.Initialised m s₀)
    (h : e.Later s₀ c) {st : CurrencyStats} (hst : c.state.token.stat.find Symbol.EOS.code Symbol.EOS.code = some st)
    (hsym : st.supply.symbol = Symbol.EOS) : Token.Eos c.state.token st :=
  ⟨later_token_kept ht Token.ledger_kept .empty hinit h, hst, hsym⟩

/-! ## The actions around the call -/

section Actions

variable {s s' : State σ} {u : Name} {rest : List Action}

theorem commits_call {system : System.Tables} {x y : σ} {t t' : Token.Tables} {call : SysCall}
    (h : e.eosio call (System.active u) x t = .ok (y, t')) :
    e.Commits ⟨system, t, x⟩ (System.sys_action u call :: rest) s' ↔ e.Commits ⟨system, t', y⟩ rest s' := by
  have htoken : Name.eosio ≠ Name.eosio_token := by decide
  refine Machine.commits_leaf ?_
  unfold exec System.sys_action
  rw [if_neg (Ne.symm e.self_ne_eosio), if_neg htoken, if_pos rfl]
  simp only [h, ok_bind, pure_eq_ok]

theorem commits_enforcebal {c : Ctx} (hc : c.self = e.self) {expected : Asset} :
    e.Commits s [System.enforcebal_action c u expected] s' ↔
      System.get_eos_balance s.token u = expected ∧ s' = s := by
  have hsys : ∀ o, System.apply (e.view s (System.active u)) s.system (.enforcebal u expected) = .ok o ↔
      System.enforcebal (e.view s (System.active u)) s.system u expected = .ok o := fun _ => Iff.rfl
  unfold System.enforcebal_action
  rw [hc, Commits, Machine.commits_cons]
  simp only [exec_own, hsys, System.enforcebal_eq_ok]
  constructor
  · rintro ⟨s₁, queued, ⟨o, ⟨hbalance, rfl⟩, rfl, rfl⟩, ht⟩
    exact ⟨hbalance, Machine.commits_nil.1 ht⟩
  · rintro ⟨hbalance, rfl⟩
    exact ⟨s', [], ⟨_, ⟨hbalance, rfl⟩, rfl, rfl⟩, Machine.commits_nil.2 rfl⟩

end Actions

/-! ## Both halves of the swap before the call -/

section Halves

variable {s s' : State σ} {m q : Asset} {u : Name}

theorem swapped_ok (hm : System.Minted e.self m s.system) (hsym : q.symbol = m.symbol) (hpos : 0 < q.val)
    (hle : q.val ≤ s.xyz m.symbol.code u) :
    ∃ accounts, System.Swapped (e.ctx s e.self []) s.system u q accounts := by
  have hsmall := hm.small
  have hmax := hm.sound.amount_le u
  rw [State.xyz_eq] at hle
  obtain ⟨b, hb⟩ := hm.sound.move_ok hsmall hpos hsym hle e.self
  obtain ⟨accounts, hmove, -⟩ := System.moved_of_move (e.ctx s e.self []) _ _ _ e.self _ hb
  exact ⟨accounts, hsym ▸ hm.find_config, hpos, by omega, hmove⟩

theorem credit_ok {st : CurrencyStats} (heos : Token.Eos s.token st) (hu : u ≠ e.self)
    (hacc : e.is_account s.eosio u = true) (hpos : 0 < q.val) (hle : q.val ≤ s.eos e.self) :
    ∃ s', e.Commits s [e.credit u q] s' := by
  have hsmall := heos.small
  have hmax := heos.sound.amount_le e.self
  rw [State.eos_eq] at hle
  obtain ⟨b, hb⟩ := heos.sound.move_ok hsmall (show 0 < Asset.val ⟨q.amount, Symbol.EOS⟩ from hpos) rfl hle u
  obtain ⟨accounts, hmove, -⟩ := Token.moved_of_move _ _ _ e.self _ hb
  exact ⟨_, (commits_pay_eos hu).2
    ⟨st, accounts, hacc, heos.stat, heos.symbol, hpos, by omega, hmove, rfl⟩⟩

theorem credited (hu : u ≠ e.self) (h : e.Commits s [e.credit u q] s') :
    s'.system = s.system ∧ s'.eosio = s.eosio ∧ s'.token.stat = s.token.stat ∧
      s'.eos = moved s.eos e.self u q.val := by
  obtain ⟨st, accounts, -, -, -, hpos, hsmall, hmove, rfl⟩ := (commits_pay_eos hu).1 h
  refine ⟨rfl, rfl, rfl, Eq.trans ?_ (eos_moved hpos hsmall hmove)⟩
  funext v
  rw [State.eos_eq]

theorem swapped_xyz {accounts : System.Accounts} (hm : System.Minted e.self m s.system)
    (h : System.Swapped (e.ctx s e.self []) s.system u q accounts) :
    (book accounts).amount m.symbol.code = moved (s.xyz m.symbol.code) u e.self q.val := by
  obtain ⟨n, symbol⟩ := q
  obtain rfl := hm.config_eq h.symbol
  exact xyz_moved h.pos h.small h.moved

end Halves

end Env

/-! ## A small market

RAM costs 30 units of EOS here, and rewards are 2000 new units for `alice`. -/

namespace Tiny

def asks (l : List PermissionLevel) : SysCall → Option (List PermissionLevel × Call)
  | .buyrambytes payer _ _ => some (l, .transfer payer Name.eosio_ram ⟨30, Symbol.EOS⟩ [])
  | .claimrewards _ => some (System.active alice, .issue alice ⟨2000, Symbol.EOS⟩ [])
  | _ => none

def token_ctx (l : List PermissionLevel) : Ctx := ⟨Name.eosio_token, l, fun _ => true⟩

def answer (call : SysCall) (l : List PermissionLevel) (x : Unit) (t : Token.Tables) :
    Except String (Unit × Token.Tables) :=
  match asks l call with
  | none => .ok (x, t)
  | some (l', asked) => do
    let o ← Token.apply (token_ctx l') t asked
    return (x, o.tables)

def market : Env Unit := { env with eosio := answer, cost_plus_fee := fun _ _ => 30 }

def trade (s : State Unit) (acts : List Action) : State Unit :=
  match Machine.transact market.exec 20 s acts with
  | some (.ok s') => s'
  | _ => s

def market_start : State Unit := trade funded [init]

/-- `alice` has swapped 100 units. -/
def traded : State Unit := trade market_start [swap]

theorem market_fund : market.Commits genesis fund funded := @Machine.commits_of_transact _ _ _ _ 20 _ _ _ rfl

theorem market_initialised : market.Initialised max_supply market_start := by
  have hgenesis : Env.Genesis genesis := ⟨rfl, rfl⟩
  exact hgenesis.initialised (l := System.active env.self) market_fund rfl

theorem market_asks {call : SysCall} {l : List PermissionLevel} {x x' : Unit} {t t' : Token.Tables}
    (h : market.eosio call l x t = .ok (x', t')) :
    t' = t ∨ ∃ l' asked o, asks l call = some (l', asked) ∧ Token.apply (token_ctx l') t asked = .ok o ∧
      t' = o.tables := by
  change answer call l x t = _ at h
  unfold answer at h
  split at h
  · cases h
    exact .inl rfl
  · rename_i l' asked hasks
    simp only [bind_eq_ok, pure_eq_ok, Except.ok.injEq, Prod.mk.injEq] at h
    obtain ⟨o, ho, -, rfl⟩ := h
    exact .inr ⟨l', asked, o, hasks, ho, rfl⟩

theorem market_throughToken : market.ThroughToken := by
  intro call l x x' t t' h
  rcases market_asks h with rfl | ⟨l', asked, o, -, ho, rfl⟩
  · exact .refl
  · exact .single ⟨_, asked, o, rfl, ho, rfl⟩

theorem market_keepsSelf : market.KeepsSelf := by
  intro call l x x' t t' hself h
  rcases market_asks h with rfl | ⟨l', asked, o, hasks, ho, rfl⟩
  · rfl
  · have hflow := (Token.apply_effect ho).flow
    cases call <;> cases hasks
    · -- The payer has signed, and so is not the contract.
      cases hflow with
      | issued hcall => cases hcall
      | transferred _ hauth _ hbook =>
        have hne : market.self ≠ _ := fun he => hself (he ▸ (Ctx.has_auth_iff _ _).1 hauth)
        rw [hbook, moved_apply, if_neg hne, if_neg market.self_ne_ram]
        omega
      | still hcall => exact absurd rfl (hcall _ _ _ _)
    · cases hflow with
      | @issued _ issuer _ _ hauth hbook =>
        obtain rfl : issuer = alice := List.mem_singleton.1 ((Ctx.has_auth_iff _ _).1 hauth)
        rw [hbook, gained_ne _ _ (by decide)]
      | still _ hbook => rw [hbook]

end Tiny

end Vaulta
