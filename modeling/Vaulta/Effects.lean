import Vaulta.Balances
import Vaulta.Transaction

/-!
# What an action can do

One case for each thing that a successful action does to the tables of its contract,
with the checks it passed and the actions it queued. Everything later is proved by
these cases, so nothing later unfolds an action.
-/

namespace Vaulta

/-! ## `eosio.token` -/

def Call.issues : Call → Bool
  | .issue .. | .issuefixed .. => true
  | _ => false

namespace Token

inductive Effect (c : Ctx) (t : Tables) : Call → Outcome Tables → Prop
  | create {issuer : Name} {maximum_supply : Asset} {stat : Stats} (hself : c.has_auth c.self = true)
      (hvalid : maximum_supply.is_valid = true) (hpos : 0 < maximum_supply.val)
      (hstat : t.stat.emplace maximum_supply.symbol.code c.self
        ⟨⟨0, maximum_supply.symbol⟩, maximum_supply, issuer⟩ = .ok stat) :
      Effect c t (.create issuer maximum_supply) { tables := { t with stat } }
  | issue {call : Call} {q supply : Asset} {st : CurrencyStats} {p : Name} {accounts : Accounts}
      (hcall : call.issues = true) (hauth : c.has_auth st.issuer = true) (hvalid : q.is_valid = true)
      (hpos : 0 < q.val) (hst : t.stat.rows q.symbol.code q.symbol.code = some ⟨st, p⟩)
      (hsym : q.symbol = st.supply.symbol) (hmax : q.amount ≤ st.max_supply.amount - st.supply.amount)
      (hsupply : st.supply.add q = .ok supply)
      (hadd : add_balance t.accounts st.issuer q st.issuer = .ok accounts) :
      Effect c t call
        { tables := ⟨t.stat.store q.symbol.code ⟨{ st with supply }, p⟩, accounts⟩ }
  | setmaxsupply {issuer : Name} {maximum_supply : Asset} {st : CurrencyStats} {p : Name}
      (hauth : c.has_auth st.issuer = true) (hvalid : maximum_supply.is_valid = true)
      (hpos : 0 < maximum_supply.val)
      (hst : t.stat.rows maximum_supply.symbol.code maximum_supply.symbol.code = some ⟨st, p⟩)
      (hsym : maximum_supply.symbol = st.supply.symbol) (hle : st.supply.val ≤ maximum_supply.val) :
      Effect c t (.setmaxsupply issuer maximum_supply)
        { tables := ⟨t.stat.store maximum_supply.symbol.code ⟨{ st with max_supply := maximum_supply }, p⟩,
            t.accounts⟩ }
  | retire {q supply : Asset} {memo : Memo} {st : CurrencyStats} {p : Name} {accounts : Accounts}
      (hauth : c.has_auth st.issuer = true) (hvalid : q.is_valid = true) (hpos : 0 < q.val)
      (hst : t.stat.rows q.symbol.code q.symbol.code = some ⟨st, p⟩) (hsym : q.symbol = st.supply.symbol)
      (hsupply : st.supply.sub q = .ok supply) (hsub : sub_balance t.accounts st.issuer q = .ok accounts) :
      Effect c t (.retire q memo)
        { tables := ⟨t.stat.store q.symbol.code ⟨{ st with supply }, p⟩, accounts⟩ }
  | transfer {sender recipient : Name} {q : Asset} {memo : Memo} {st : CurrencyStats} {accounts : Accounts}
      (hne : sender ≠ recipient) (hauth : c.has_auth sender = true) (hrec : c.is_account recipient = true)
      (hst : t.stat.find q.symbol.code q.symbol.code = some st) (hvalid : q.is_valid = true)
      (hpos : 0 < q.val) (hsym : q.symbol = st.supply.symbol) (hmemo : memo.length ≤ 256)
      (hmove : Moved t.accounts accounts sender recipient q
        (if c.has_auth recipient then recipient else sender)) :
      Effect c t (.transfer sender recipient q memo)
        { tables := { t with accounts }, notified := [sender, recipient] }
  | opened {owner ram_payer : Name} {symbol : Symbol} {st : CurrencyStats} {accounts : Accounts}
      (hauth : c.has_auth ram_payer = true) (hst : t.stat.find symbol.code symbol.code = some st)
      (hsym : st.supply.symbol = symbol) (hnone : t.accounts.find owner symbol.code = none)
      (hadd : t.accounts.emplace owner ram_payer ⟨⟨0, symbol⟩⟩ = .ok accounts) :
      Effect c t (.open_ owner symbol ram_payer) { tables := { t with accounts } }
  | open_idle {owner ram_payer : Name} {symbol : Symbol} :
      Effect c t (.open_ owner symbol ram_payer) { tables := t }
  | closed {owner : Name} {symbol : Symbol} {row : Account} {accounts : Accounts}
      (hauth : c.has_auth owner = true) (hrow : t.accounts.find owner symbol.code = some row)
      (hzero : row.balance.val = 0) (herase : t.accounts.erase owner symbol.code = .ok accounts) :
      Effect c t (.close owner symbol) { tables := { t with accounts } }

theorem modify_stat {t stat : Stats} {k : SymbolCode} {st : CurrencyStats}
    {f : CurrencyStats → Except String CurrencyStats} (h : t.modify k k none f = .ok stat)
    (hst : t.find k k = some st) :
    ∃ p row, t.rows k k = some ⟨st, p⟩ ∧ f st = .ok row ∧ stat = t.store k ⟨row, p⟩ := by
  obtain ⟨p, hp⟩ := MultiIndex.find_eq_some.1 hst
  obtain ⟨r, row, hr, hf, -, rfl⟩ := MultiIndex.modify_eq_ok.1 h
  rw [hp] at hr
  cases hr
  exact ⟨p, row, hp, hf, rfl⟩

theorem create_effect {c : Ctx} {t : Tables} {issuer : Name} {maximum_supply : Asset}
    {o : Outcome Tables} (h : create c t issuer maximum_supply = .ok o) :
    Effect c t (.create issuer maximum_supply) o := by
  simp only [create, bind_eq_ok, check_eq_ok, Ctx.require_auth_eq_ok, Asset.amount_pos_iff, pure_eq_ok,
    Except.ok.injEq, exists_and_left, exists_const] at h
  obtain ⟨hself, hvalid, hpos, -, stat, hstat, rfl⟩ := h
  exact .create hself hvalid hpos hstat

theorem issue_ok {c : Ctx} {t : Tables} {recipient : Name} {q : Asset} {memo : Memo} {o : Outcome Tables}
    (h : issue c t recipient q memo = .ok o) :
    ∃ st p supply accounts, c.has_auth st.issuer = true ∧ q.is_valid = true ∧ 0 < q.val ∧
      t.stat.rows q.symbol.code q.symbol.code = some ⟨st, p⟩ ∧ q.symbol = st.supply.symbol ∧
      q.amount ≤ st.max_supply.amount - st.supply.amount ∧ st.supply.add q = .ok supply ∧
      add_balance t.accounts st.issuer q st.issuer = .ok accounts ∧
      o = { tables := ⟨t.stat.store q.symbol.code ⟨{ st with supply }, p⟩, accounts⟩ } := by
  simp only [issue, bind_eq_ok, check_eq_ok, Ctx.require_auth_eq_ok, Asset.amount_pos_iff, pure_eq_ok,
    Except.ok.injEq, exists_and_left, exists_const, MultiIndex.get_eq_ok] at h
  obtain ⟨-, -, st, hst, -, hauth, hvalid, hpos, hsym, hmax, stat, hstat, accounts, hadd, rfl⟩ := h
  obtain ⟨p, row, hp, hf, rfl⟩ := modify_stat hstat hst
  simp only [bind_eq_ok, Except.ok.injEq] at hf
  obtain ⟨supply, hsupply, rfl⟩ := hf
  exact ⟨st, p, supply, accounts, hauth, hvalid, hpos, hp, hsym, hmax, hsupply, hadd, rfl⟩

theorem issue_effect {c : Ctx} {t : Tables} {call : Call} {recipient : Name} {q : Asset} {memo : Memo}
    {o : Outcome Tables} (hcall : call.issues = true) (h : issue c t recipient q memo = .ok o) :
    Effect c t call o := by
  obtain ⟨st, p, supply, accounts, hauth, hvalid, hpos, hp, hsym, hmax, hsupply, hadd, rfl⟩ := issue_ok h
  exact .issue hcall hauth hvalid hpos hp hsym hmax hsupply hadd

theorem setmaxsupply_effect {c : Ctx} {t : Tables} {issuer : Name} {maximum_supply : Asset}
    {o : Outcome Tables} (h : setmaxsupply c t issuer maximum_supply = .ok o) :
    Effect c t (.setmaxsupply issuer maximum_supply) o := by
  simp only [setmaxsupply, bind_eq_ok, check_eq_ok, Ctx.require_auth_eq_ok, Asset.amount_pos_iff,
    Asset.amount_le_iff, pure_eq_ok, Except.ok.injEq, exists_and_left, exists_const,
    MultiIndex.get_eq_ok] at h
  obtain ⟨hvalid, hpos, st, hst, -, hauth, hsym, hle, stat, hstat, rfl⟩ := h
  obtain ⟨p, row, hp, hf, rfl⟩ := modify_stat hstat hst
  simp only [Except.ok.injEq] at hf
  subst hf
  exact .setmaxsupply hauth hvalid hpos hp hsym hle

theorem retire_effect {c : Ctx} {t : Tables} {q : Asset} {memo : Memo} {o : Outcome Tables}
    (h : retire c t q memo = .ok o) : Effect c t (.retire q memo) o := by
  simp only [retire, bind_eq_ok, check_eq_ok, Ctx.require_auth_eq_ok, Asset.amount_pos_iff, pure_eq_ok,
    Except.ok.injEq, exists_and_left, exists_const, MultiIndex.get_eq_ok] at h
  obtain ⟨-, -, st, hst, hauth, hvalid, hpos, hsym, stat, hstat, accounts, hsub, rfl⟩ := h
  obtain ⟨p, row, hp, hf, rfl⟩ := modify_stat hstat hst
  simp only [bind_eq_ok, Except.ok.injEq] at hf
  obtain ⟨supply, hsupply, rfl⟩ := hf
  exact .retire hauth hvalid hpos hp hsym hsupply hsub

theorem transfer_eq_ok {c : Ctx} {t : Tables} {sender recipient : Name} {q : Asset} {memo : Memo}
    {o : Outcome Tables} :
    transfer c t sender recipient q memo = .ok o ↔ ∃ st accounts, sender ≠ recipient ∧
      c.has_auth sender = true ∧ c.is_account recipient = true ∧
      t.stat.find q.symbol.code q.symbol.code = some st ∧ q.is_valid = true ∧ 0 < q.val ∧
      q.symbol = st.supply.symbol ∧ memo.length ≤ 256 ∧
      Moved t.accounts accounts sender recipient q (if c.has_auth recipient then recipient else sender) ∧
      o = { tables := { t with accounts }, notified := [sender, recipient] } := by
  simp only [transfer, bind_eq_ok, check_eq_ok, Ctx.require_auth_eq_ok, Asset.amount_pos_iff, pure_eq_ok,
    Except.ok.injEq, exists_and_left, exists_const, MultiIndex.get_eq_ok]
  constructor
  · rintro ⟨hne, hauth, hrec, st, hst, hvalid, hpos, hsym, hmemo, m, hm, accounts, hadd, rfl⟩
    exact ⟨hne, hauth, hrec, st, hst, hvalid, hpos, hsym, hmemo, accounts, ⟨m, hm, hadd⟩, rfl⟩
  · rintro ⟨hne, hauth, hrec, st, hst, hvalid, hpos, hsym, hmemo, accounts, ⟨m, hm, hadd⟩, rfl⟩
    exact ⟨hne, hauth, hrec, st, hst, hvalid, hpos, hsym, hmemo, m, hm, accounts, hadd, rfl⟩

theorem open_eq_ok {c : Ctx} {t : Tables} {owner ram_payer : Name} {symbol : Symbol}
    {o : Outcome Tables} :
    open_ c t owner symbol ram_payer = .ok o ↔ ∃ st, c.has_auth ram_payer = true ∧
      c.is_account owner = true ∧ t.stat.find symbol.code symbol.code = some st ∧ st.supply.symbol = symbol ∧
      ((t.accounts.find owner symbol.code = none ∧ ∃ accounts,
          t.accounts.emplace owner ram_payer ⟨⟨0, symbol⟩⟩ = .ok accounts ∧
          o = { tables := { t with accounts } }) ∨
        (t.accounts.find owner symbol.code ≠ none ∧ o = { tables := t })) := by
  simp only [open_, bind_eq_ok, check_eq_ok, Ctx.require_auth_eq_ok, exists_and_left, exists_const,
    MultiIndex.get_eq_ok]
  cases hf : t.accounts.find owner symbol.code <;>
    simp only [bind_eq_ok, pure_eq_ok, Except.ok.injEq, reduceCtorEq, ne_eq, not_true_eq_false,
      not_false_eq_true, false_and, true_and, or_false, false_or, eq_comm (a := o)]

theorem open_effect {c : Ctx} {t : Tables} {owner ram_payer : Name} {symbol : Symbol}
    {o : Outcome Tables} (h : open_ c t owner symbol ram_payer = .ok o) :
    Effect c t (.open_ owner symbol ram_payer) o := by
  obtain ⟨st, hauth, -, hst, hsym, ⟨hf, accounts, hadd, rfl⟩ | ⟨-, rfl⟩⟩ := open_eq_ok.1 h
  · exact .opened hauth hst hsym hf hadd
  · exact .open_idle

theorem close_eq_ok {c : Ctx} {t : Tables} {owner : Name} {symbol : Symbol} {o : Outcome Tables} :
    close c t owner symbol = .ok o ↔ ∃ row accounts, c.has_auth owner = true ∧
      t.accounts.find owner symbol.code = some row ∧ row.balance.val = 0 ∧
      t.accounts.erase owner symbol.code = .ok accounts ∧ o = { tables := { t with accounts } } := by
  simp only [close, bind_eq_ok, check_eq_ok, Ctx.require_auth_eq_ok, Asset.amount_eq_zero_iff,
    pure_eq_ok, Except.ok.injEq, exists_and_left, exists_const, MultiIndex.get_eq_ok, eq_comm (a := o)]

theorem close_effect {c : Ctx} {t : Tables} {owner : Name} {symbol : Symbol} {o : Outcome Tables}
    (h : close c t owner symbol = .ok o) : Effect c t (.close owner symbol) o := by
  obtain ⟨row, accounts, hauth, hrow, hzero, herase, rfl⟩ := close_eq_ok.1 h
  exact .closed hauth hrow hzero herase

theorem apply_effect {c : Ctx} {t : Tables} {call : Call} {o : Outcome Tables}
    (h : apply c t call = .ok o) : Effect c t call o := by
  cases call with
  | create => exact create_effect h
  | issue => exact issue_effect rfl h
  | issuefixed =>
    simp only [apply, issuefixed, bind_eq_ok] at h
    obtain ⟨_, -, _, -, q, -, h⟩ := h
    exact issue_effect rfl h
  | setmaxsupply => exact setmaxsupply_effect h
  | retire => exact retire_effect h
  | transfer =>
    obtain ⟨st, accounts, hne, hauth, hrec, hst, hvalid, hpos, hsym, hmemo, hmove, rfl⟩ :=
      transfer_eq_ok.1 h
    exact .transfer hne hauth hrec hst hvalid hpos hsym hmemo hmove
  | open_ => exact open_effect h
  | close => exact close_effect h
  | _ => cases h

end Token

/-! ## The system contract -/

/-- The calls of the contract that may change nothing and queue nothing. -/
def Call.idle : Call → Bool
  | .open_ .. | .blockswapto .. | .enforcebal .. | .swapexcess .. | .noop .. => true
  | _ => false

namespace System

def credit_action (c : Ctx) (account : Name) (q : Asset) : Action :=
  transfer_action Name.eosio_token c.self c.self account ⟨q.amount, Symbol.EOS⟩ []

/-- The accounts whose EOS the contract keeps without paying for it. -/
def Exempt (n : Name) : Prop := n = Name.eosio_ram ∨ n = Name.eosio_stake

instance (n : Name) : Decidable (Exempt n) := inferInstanceAs (Decidable (_ ∨ _))

/-- What a wrapper does before it forwards: the tokens of `account` go to the contract. -/
structure Swapped (c : Ctx) (t : Tables) (account : Name) (q : Asset) (accounts : Accounts) : Prop where
  symbol : t.config.find c.self () = some ⟨q.symbol⟩
  pos : 0 < q.val
  small : q.val ≤ 2 ^ 62 - 1
  moved : Moved c t.accounts accounts account c.self q c.self

/-- What a wrapper queues for `account` behind the swap. -/
inductive Follow (c : Ctx) (account : Name) : Action → Prop
  | forward {call : SysCall} : Follow c account (sys_action account call)
  | excess {eos_before : Asset} : Follow c account (swapexcess_action c account eos_before)
  | enforce {expected : Asset} : Follow c account (enforcebal_action c account expected)
  | swap {q : Asset} (hpos : 0 < q.val) (hsym : q.symbol = Symbol.EOS) :
      Follow c account (transfer_action Name.eosio_token account account c.self q [])

inductive Effect (c : View) (t : Tables) : Call → Outcome Tables → Prop
  | init {maximum_supply : Asset} {config : MultiIndex Name Name Unit Config} {stat : Stats}
      {accounts : Accounts} (hself : c.has_auth c.self = true) (hnew : t.config.find c.self () = none)
      (hvalid : maximum_supply.is_valid = true) (hpos : 0 < maximum_supply.val)
      (hconfig : t.config.emplace c.self c.self ⟨maximum_supply.symbol⟩ = .ok config)
      (hstat : t.stat.emplace maximum_supply.symbol.code c.self
        ⟨maximum_supply, maximum_supply, c.self⟩ = .ok stat)
      (hadd : add_balance c.toCtx t.accounts c.self maximum_supply c.self = .ok accounts) :
      Effect c t (.init maximum_supply) { tables := { t with config, stat, accounts } }
  | transfer {sender recipient : Name} {q : Asset} {memo : Memo} {st : CurrencyStats} {accounts : Accounts}
      (hne : sender ≠ recipient) (hauth : c.has_auth sender = true) (hrec : c.is_account recipient = true)
      (hst : t.stat.find q.symbol.code q.symbol.code = some st) (hvalid : q.is_valid = true)
      (hpos : 0 < q.val) (hsym : q.symbol = st.supply.symbol) (hmemo : memo.length ≤ 256)
      (hmove : Moved c.toCtx t.accounts accounts sender recipient q
        (if c.has_auth recipient then recipient else sender))
      (hcfg : recipient = c.self → t.config.find c.self () = some ⟨q.symbol⟩) :
      Effect c t (.transfer sender recipient q memo)
        { tables := { t with accounts }, notified := [sender, recipient],
          inline := if recipient = c.self then [credit_action c.toCtx sender q] else [] }
  | opened {owner ram_payer : Name} {symbol : Symbol} {st : CurrencyStats} {accounts : Accounts}
      (hauth : c.has_auth ram_payer = true) (hst : t.stat.find symbol.code symbol.code = some st)
      (hsym : st.supply.symbol = symbol) (hnone : t.accounts.find owner symbol.code = none)
      (hadd : t.accounts.emplace owner ram_payer ⟨⟨0, symbol⟩, ram_payer = owner⟩ = .ok accounts) :
      Effect c t (.open_ owner symbol ram_payer) { tables := { t with accounts } }
  | closed {owner : Name} {symbol : Symbol} {row : Account} {accounts : Accounts}
      (hauth : c.has_auth owner = true) (hrow : t.accounts.find owner symbol.code = some row)
      (hzero : row.balance.val = 0) (herase : t.accounts.erase owner symbol.code = .ok accounts) :
      Effect c t (.close owner symbol) { tables := { t with accounts } }
  | blocked {account : Name} {block : Bool} {blocked : MultiIndex Name Name Name BlockedRecipient}
      (hauth : c.has_auth c.self = true ∨ c.has_auth account = true)
      (hblocked : ∀ n, n ≠ account → blocked.rows c.self n = t.blocked.rows c.self n) :
      Effect c t (.blockswapto account block) { tables := { t with blocked } }
  | swapto_eos {sender recipient : Name} {q : Asset} {symbol : Symbol} {memo : Memo}
      (hauth : c.has_auth sender = true) (hfree : t.blocked.find c.self recipient = none)
      (hq : q.symbol = Symbol.EOS) (hsym : t.config.find c.self () = some ⟨symbol⟩) :
      Effect c t (.swapto sender recipient q memo) { tables := t, inline :=
        [transfer_action Name.eosio_token sender sender c.self q memo,
         transfer_action c.self sender sender recipient ⟨q.amount, symbol⟩ memo] }
  | swapto_xyz {sender recipient : Name} {q : Asset} {memo : Memo}
      (hauth : c.has_auth sender = true) (hfree : t.blocked.find c.self recipient = none)
      (hsym : t.config.find c.self () = some ⟨q.symbol⟩) :
      Effect c t (.swapto sender recipient q memo) { tables := t, inline :=
        [transfer_action c.self sender sender c.self q memo,
         transfer_action Name.eosio_token sender sender recipient ⟨q.amount, Symbol.EOS⟩ memo] }
  | excess {account : Name} {eos_before q : Asset} (hself : c.has_auth c.self = true) (hpos : 0 < q.val)
      (hsym : q.symbol = Symbol.EOS) :
      Effect c t (.swapexcess account eos_before) { tables := t, inline :=
        [transfer_action Name.eosio_token account account c.self q []] }
  | traced {account : Name} {q : Asset} (hself : c.has_auth c.self = true) :
      Effect c t (.swaptrace account q) { tables := t }
  | idle {call : Call} (hcall : call.idle = true) : Effect c t call { tables := t }
  | swapped {call : SysCall} {account : Name} {q : Asset} {accounts : Accounts} {rest : List Action}
      (hauth : c.has_auth account = true) (hswap : Swapped c.toCtx t account q accounts)
      (hrest : ∀ a ∈ rest, Follow c.toCtx account a) :
      Effect c t (.sys call)
        { tables := { t with accounts },
          inline := swaptrace_action c.toCtx account q :: credit_action c.toCtx account q :: rest }
  | passed {call : SysCall} {account : Name} {rest : List Action} (hauth : c.has_auth account = true)
      (hrest : ∀ a ∈ rest, Follow c.toCtx account a) :
      Effect c t (.sys call) { tables := t, inline := rest }

/-! ### Helpers -/

@[simp] theorem get_token_symbol_eq_ok {c : Ctx} {t : Tables} {symbol : Symbol} :
    get_token_symbol c t = .ok symbol ↔ t.config.find c.self () = some ⟨symbol⟩ := by
  simp only [get_token_symbol, bind_eq_ok, MultiIndex.get_eq_ok, pure_eq_ok, Except.ok.injEq]
  constructor
  · rintro ⟨⟨_⟩, h, rfl⟩; exact h
  · intro h; exact ⟨_, h, rfl⟩

@[simp] theorem enforce_symbol_eq_ok {c : Ctx} {t : Tables} {q : Asset} {u : Unit} :
    enforce_symbol c t q = .ok u ↔ t.config.find c.self () = some ⟨q.symbol⟩ := by
  simp [enforce_symbol]

theorem eos_is_valid : Symbol.EOS.is_valid = true := by decide

theorem make_eos_eq_ok {n : Int64} {a : Asset} : Asset.make n Symbol.EOS = .ok a ↔
    a = ⟨n, Symbol.EOS⟩ ∧ -(2 ^ 62 - 1) ≤ n.toInt ∧ n.toInt ≤ 2 ^ 62 - 1 := by
  simp [Asset.make_eq_ok, eos_is_valid]

theorem credit_eos_to_eq_ok {c : Ctx} {account : Name} {q : Asset} {a : Action} :
    credit_eos_to c account q = .ok a ↔ 0 < q.val ∧ q.val ≤ 2 ^ 62 - 1 ∧ a = credit_action c account q := by
  simp only [credit_eos_to, bind_eq_ok, check_eq_ok, Asset.amount_pos_iff, make_eos_eq_ok, pure_eq_ok,
    Except.ok.injEq, exists_and_left, exists_const]
  constructor
  · rintro ⟨hpos, _, ⟨rfl, hr⟩, rfl⟩; exact ⟨hpos, hr.2, rfl⟩
  · rintro ⟨hpos, hr, rfl⟩
    have : (0 : Int) ≤ q.amount.toInt := le_of_lt hpos
    exact ⟨hpos, _, ⟨rfl, by omega, hr⟩, rfl⟩

theorem swap_before_forwarding_eq_ok {c : Ctx} {t : Tables} {account : Name} {q : Asset}
    {r : Accounts × List Action} : swap_before_forwarding c t account q = .ok r ↔
      Swapped c t account q r.1 ∧ r.2 = [swaptrace_action c account q, credit_action c account q] := by
  simp only [swap_before_forwarding, bind_eq_ok, check_eq_ok, Asset.amount_pos_iff, get_token_symbol_eq_ok,
    credit_eos_to_eq_ok, pure_eq_ok, Except.ok.injEq, exists_and_left, exists_const]
  constructor
  · rintro ⟨sym, hsym, rfl, hpos, m, hm, accounts, hadd, _, ⟨-, hr, rfl⟩, rfl⟩
    exact ⟨⟨hsym, hpos, hr, m, hm, hadd⟩, rfl⟩
  · rintro ⟨⟨hsym, hpos, hr, m, hm, hadd⟩, hq⟩
    exact ⟨_, hsym, rfl, hpos, m, hm, r.1, hadd, _, ⟨hpos, hr, rfl⟩, by rw [← hq]⟩

theorem swap_after_forwarding_eq_ok {c : Ctx} {account : Name} {q : Asset} {a : Action} :
    swap_after_forwarding c account q = .ok a ↔ 0 < q.val ∧ q.val ≤ 2 ^ 62 - 1 ∧
      a = transfer_action Name.eosio_token account account c.self ⟨q.amount, Symbol.EOS⟩ [] := by
  simp only [swap_after_forwarding, bind_eq_ok, check_eq_ok, make_eos_eq_ok, pure_eq_ok, Except.ok.injEq]
  constructor
  · rintro ⟨_, ⟨rfl, hr⟩, _, hpos, rfl⟩
    exact ⟨(Asset.amount_pos_iff _).1 hpos, hr.2, rfl⟩
  · rintro ⟨hpos, hr, rfl⟩
    have : (0 : Int) ≤ q.amount.toInt := le_of_lt hpos
    exact ⟨_, ⟨rfl, by omega, hr⟩, (), (Asset.amount_pos_iff _).2 hpos, rfl⟩

/-! ### The token -/

theorem init_effect {c : View} {t : Tables} {maximum_supply : Asset} {o : Outcome Tables}
    (h : init c.toCtx t maximum_supply = .ok o) : Effect c t (.init maximum_supply) o := by
  simp only [init, bind_eq_ok, check_eq_ok, Ctx.require_auth_eq_ok, Asset.amount_pos_iff, pure_eq_ok,
    Except.ok.injEq, exists_and_left, exists_const] at h
  obtain ⟨hself, hnew, hvalid, hpos, config, hconfig, stat, hstat, accounts, hadd, rfl⟩ := h
  simp only [MultiIndex.set, show primary_key (⟨maximum_supply.symbol⟩ : Config) = () from rfl, hnew]
    at hconfig
  exact .init hself hnew hvalid hpos hconfig hstat hadd

theorem transfer_eq_ok {c : Ctx} {t : Tables} {sender recipient : Name} {q : Asset} {memo : Memo}
    {o : Outcome Tables} :
    transfer c t sender recipient q memo = .ok o ↔ ∃ st accounts, sender ≠ recipient ∧
      c.has_auth sender = true ∧ c.is_account recipient = true ∧
      t.stat.find q.symbol.code q.symbol.code = some st ∧ q.is_valid = true ∧ 0 < q.val ∧
      q.symbol = st.supply.symbol ∧ memo.length ≤ 256 ∧
      Moved c t.accounts accounts sender recipient q (if c.has_auth recipient then recipient else sender) ∧
      (recipient = c.self → t.config.find c.self () = some ⟨q.symbol⟩) ∧
      o = { tables := { t with accounts }, notified := [sender, recipient],
            inline := if recipient = c.self then [credit_action c sender q] else [] } := by
  simp only [transfer, bind_eq_ok, check_eq_ok, Ctx.require_auth_eq_ok, Asset.amount_pos_iff,
    exists_and_left, exists_const, MultiIndex.get_eq_ok]
  constructor
  · rintro ⟨hne, hauth, hrec, st, hst, hvalid, hpos, hsym, hmemo, m, hm, accounts, hadd, h⟩
    refine ⟨hne, hauth, hrec, st, hst, hvalid, hpos, hsym, hmemo, accounts, ⟨m, hm, hadd⟩, ?_⟩
    split at h
    · rename_i hself
      simp only [bind_eq_ok, check_eq_ok, get_token_symbol_eq_ok, credit_eos_to_eq_ok, pure_eq_ok,
        Except.ok.injEq, exists_and_left, exists_const] at h
      obtain ⟨symbol, hcfg, rfl, _, ⟨-, -, rfl⟩, rfl⟩ := h
      exact ⟨fun _ => hcfg, by simp [hself]⟩
    · rename_i hself
      simp only [pure_eq_ok, Except.ok.injEq] at h
      exact ⟨fun he => absurd he hself, by simp [hself, ← h]⟩
  · rintro ⟨hne, hauth, hrec, st, hst, hvalid, hpos, hsym, hmemo, accounts, ⟨m, hm, hadd⟩, hcfg, rfl⟩
    refine ⟨hne, hauth, hrec, st, hst, hvalid, hpos, hsym, hmemo, m, hm, accounts, hadd, ?_⟩
    split
    · rename_i hself
      have hsmall := ((Asset.is_valid_iff q).1 hvalid).1.2
      simp only [bind_eq_ok, check_eq_ok, get_token_symbol_eq_ok, credit_eos_to_eq_ok, pure_eq_ok,
        Except.ok.injEq, exists_and_left, exists_const]
      exact ⟨_, hcfg hself, rfl, _, ⟨hpos, hsmall, rfl⟩, rfl⟩
    · rfl

theorem open_eq_ok {c : Ctx} {t : Tables} {owner ram_payer : Name} {symbol : Symbol}
    {o : Outcome Tables} :
    open_ c t owner symbol ram_payer = .ok o ↔ ∃ st, c.has_auth ram_payer = true ∧
      c.is_account owner = true ∧ t.stat.find symbol.code symbol.code = some st ∧ st.supply.symbol = symbol ∧
      ((t.accounts.find owner symbol.code = none ∧ ∃ accounts,
          t.accounts.emplace owner ram_payer ⟨⟨0, symbol⟩, ram_payer = owner⟩ = .ok accounts ∧
          o = { tables := { t with accounts } }) ∨
        (t.accounts.find owner symbol.code ≠ none ∧ o = { tables := t })) := by
  simp only [open_, bind_eq_ok, check_eq_ok, Ctx.require_auth_eq_ok, exists_and_left, exists_const,
    MultiIndex.get_eq_ok]
  cases hf : t.accounts.find owner symbol.code <;>
    simp only [bind_eq_ok, pure_eq_ok, Except.ok.injEq, reduceCtorEq, ne_eq, not_true_eq_false,
      not_false_eq_true, false_and, true_and, or_false, false_or, eq_comm (a := o)]

theorem open_effect {c : View} {t : Tables} {owner ram_payer : Name} {symbol : Symbol}
    {o : Outcome Tables} (h : open_ c.toCtx t owner symbol ram_payer = .ok o) :
    Effect c t (.open_ owner symbol ram_payer) o := by
  obtain ⟨st, hauth, -, hst, hsym, ⟨hf, accounts, hadd, rfl⟩ | ⟨-, rfl⟩⟩ := open_eq_ok.1 h
  · exact .opened hauth hst hsym hf hadd
  · exact .idle rfl

theorem close_eq_ok {c : Ctx} {t : Tables} {owner : Name} {symbol : Symbol} {o : Outcome Tables} :
    close c t owner symbol = .ok o ↔ ∃ row accounts, c.has_auth owner = true ∧
      t.accounts.find owner symbol.code = some row ∧ row.balance.val = 0 ∧
      t.accounts.erase owner symbol.code = .ok accounts ∧ o = { tables := { t with accounts } } := by
  simp only [close, bind_eq_ok, check_eq_ok, Ctx.require_auth_eq_ok, Asset.amount_eq_zero_iff,
    pure_eq_ok, Except.ok.injEq, exists_and_left, exists_const, MultiIndex.get_eq_ok, eq_comm (a := o)]

theorem close_effect {c : View} {t : Tables} {owner : Name} {symbol : Symbol} {o : Outcome Tables}
    (h : close c.toCtx t owner symbol = .ok o) : Effect c t (.close owner symbol) o := by
  obtain ⟨row, accounts, hauth, hrow, hzero, herase, rfl⟩ := close_eq_ok.1 h
  exact .closed hauth hrow hzero herase

/-! ### The swap -/

theorem on_transfer_ignored {c : Ctx} (t : Tables) {sender recipient : Name} (q : Asset) (memo : Memo)
    (h : sender = c.self ∨ recipient ≠ c.self) : on_transfer c t sender recipient q memo = .ok [] :=
  if_pos h

theorem on_transfer_eq_ok {c : Ctx} {t : Tables} {sender recipient : Name} {q : Asset} {memo : Memo}
    {l : List Action} (h : ¬ (sender = c.self ∨ recipient ≠ c.self)) :
    on_transfer c t sender recipient q memo = .ok l ↔ 0 < q.val ∧
      ((Exempt sender ∧ l = []) ∨ (¬ Exempt sender ∧ q.symbol = Symbol.EOS ∧
        ∃ symbol, t.config.find c.self () = some ⟨symbol⟩ ∧ q.val ≤ 2 ^ 62 - 1 ∧ symbol.is_valid = true ∧
          l = [transfer_action c.self c.self c.self sender ⟨q.amount, symbol⟩ memo])) := by
  unfold on_transfer Exempt
  rw [if_neg h]
  by_cases h2 : sender = Name.eosio_ram
  · rw [eq_comm (a := l)]
    simp [h2, Asset.amount_pos_iff]
  by_cases h3 : sender = Name.eosio_stake
  · rw [eq_comm (a := l)]
    simp [h3, Asset.amount_pos_iff]
  simp only [h2, h3, if_false, or_self, bind_eq_ok, check_eq_ok, Asset.amount_pos_iff,
    get_token_symbol_eq_ok, Asset.make_eq_ok, pure_eq_ok, Except.ok.injEq, exists_and_left, exists_const,
    false_and, false_or, not_false_iff, true_and]
  constructor
  · rintro ⟨hpos, hsym, symbol, hcfg, _, ⟨rfl, hr, hs⟩, rfl⟩
    exact ⟨hpos, hsym, symbol, hcfg, hr.2, hs, rfl⟩
  · rintro ⟨hpos, hsym, symbol, hcfg, hr, hs, rfl⟩
    have : (0 : Int) ≤ q.amount.toInt := le_of_lt hpos
    exact ⟨hpos, hsym, symbol, hcfg, _, ⟨rfl, ⟨by omega, hr⟩, hs⟩, rfl⟩

theorem blockswapto_eq_ok {c : Ctx} {t : Tables} {account : Name} {block : Bool} {o : Outcome Tables} :
    blockswapto c t account block = .ok o ↔ (c.has_auth c.self = true ∨ c.has_auth account = true) ∧
      ((block = true ∧ t.blocked.find c.self account = none ∧ ∃ blocked,
          t.blocked.emplace c.self account ⟨account⟩ = .ok blocked ∧ o = { tables := { t with blocked } }) ∨
        (block = false ∧ t.blocked.find c.self account ≠ none ∧ ∃ blocked,
          t.blocked.erase c.self account = .ok blocked ∧ o = { tables := { t with blocked } }) ∨
        ((block = true ↔ t.blocked.find c.self account ≠ none) ∧ o = { tables := t })) := by
  unfold blockswapto
  cases c.has_auth c.self <;> cases block <;> cases t.blocked.find c.self account <;>
    simp only [Bool.not_true, Bool.not_false, Bool.false_eq_true, if_true, if_false, bind_eq_ok,
      Ctx.require_auth_eq_ok, pure_eq_ok, Except.ok.injEq, exists_and_left, exists_const, reduceCtorEq, ne_eq,
      not_true_eq_false, not_false_eq_true, false_and, true_and, or_false, false_or, true_or, iff_self,
      iff_true, iff_false, eq_comm (a := o)]

theorem blockswapto_effect {c : View} {t : Tables} {account : Name} {block : Bool}
    {o : Outcome Tables} (h : blockswapto c.toCtx t account block = .ok o) :
    Effect c t (.blockswapto account block) o := by
  obtain ⟨hauth, ⟨-, -, blocked, hadd, rfl⟩ | ⟨-, -, blocked, herase, rfl⟩ | ⟨-, rfl⟩⟩ := blockswapto_eq_ok.1 h
  · obtain ⟨-, rfl⟩ := MultiIndex.emplace_eq_ok.1 hadd
    refine .blocked hauth fun n hn => ?_
    simp only [MultiIndex.grow_rows, MultiIndex.store_rows, MultiIndex.put_apply]
    exact if_neg fun hk => hn hk.2
  · obtain ⟨-, rfl⟩ := MultiIndex.erase_eq_ok.1 herase
    refine .blocked hauth fun n hn => ?_
    simp only [MultiIndex.shrink_rows, MultiIndex.remove_rows, MultiIndex.put_apply]
    exact if_neg fun hk => hn hk.2
  · exact .idle rfl

theorem swapto_eq_ok {c : Ctx} {t : Tables} {sender recipient : Name} {q : Asset} {memo : Memo}
    {o : Outcome Tables} :
    swapto c t sender recipient q memo = .ok o ↔ c.has_auth sender = true ∧
      t.blocked.find c.self recipient = none ∧ ∃ symbol, t.config.find c.self () = some ⟨symbol⟩ ∧
        -(2 ^ 62 - 1) ≤ q.val ∧ q.val ≤ 2 ^ 62 - 1 ∧
        ((q.symbol = Symbol.EOS ∧ symbol.is_valid = true ∧ o = { tables := t, inline :=
            [transfer_action Name.eosio_token sender sender c.self q memo,
             transfer_action c.self sender sender recipient ⟨q.amount, symbol⟩ memo] }) ∨
          (q.symbol ≠ Symbol.EOS ∧ q.symbol = symbol ∧ o = { tables := t, inline :=
            [transfer_action c.self sender sender c.self q memo,
             transfer_action Name.eosio_token sender sender recipient ⟨q.amount, Symbol.EOS⟩ memo] })) := by
  simp only [swapto, bind_eq_ok, check_eq_ok, Ctx.require_auth_eq_ok, exists_and_left, exists_const]
  refine and_congr_right fun _ => and_congr_right fun _ => ?_
  by_cases hq : q.symbol = Symbol.EOS
  · simp only [if_pos hq, bind_eq_ok, get_token_symbol_eq_ok, Asset.make_eq_ok, pure_eq_ok, Except.ok.injEq]
    constructor
    · rintro ⟨symbol, hcfg, _, ⟨rfl, hr, hvalid⟩, rfl⟩
      exact ⟨symbol, hcfg, hr.1, hr.2, .inl ⟨hq, hvalid, rfl⟩⟩
    · rintro ⟨symbol, hcfg, hlo, hhi, ⟨-, hvalid, rfl⟩ | ⟨hne, -⟩⟩
      · exact ⟨symbol, hcfg, _, ⟨rfl, ⟨hlo, hhi⟩, hvalid⟩, rfl⟩
      · exact absurd hq hne
  · simp only [if_neg hq, bind_eq_ok, get_token_symbol_eq_ok]
    refine exists_congr fun symbol => and_congr_right fun _ => ?_
    by_cases hsym : q.symbol = symbol
    · simp only [if_pos hsym, bind_eq_ok, make_eos_eq_ok, pure_eq_ok, Except.ok.injEq]
      constructor
      · rintro ⟨_, ⟨rfl, hlo, hhi⟩, rfl⟩
        exact ⟨hlo, hhi, .inr ⟨hq, hsym, rfl⟩⟩
      · rintro ⟨hlo, hhi, ⟨he, -⟩ | ⟨-, -, rfl⟩⟩
        · exact absurd he hq
        · exact ⟨_, ⟨rfl, hlo, hhi⟩, rfl⟩
    · rw [if_neg hsym]
      constructor
      · intro h
        cases h
      · rintro ⟨-, -, ⟨he, -⟩ | ⟨-, hs, -⟩⟩
        · exact absurd he hq
        · exact absurd hs hsym

theorem swapto_effect {c : View} {t : Tables} {sender recipient : Name} {q : Asset} {memo : Memo}
    {o : Outcome Tables} (h : swapto c.toCtx t sender recipient q memo = .ok o) :
    Effect c t (.swapto sender recipient q memo) o := by
  obtain ⟨hauth, hfree, symbol, hcfg, -, -, ⟨hq, -, rfl⟩ | ⟨-, rfl, rfl⟩⟩ := swapto_eq_ok.1 h
  · exact .swapto_eos hauth hfree hq hcfg
  · exact .swapto_xyz hauth hfree hcfg

theorem enforcebal_eq_ok {c : View} {t : Tables} {account : Name} {expected_eos_balance : Asset}
    {o : Outcome Tables} : enforcebal c t account expected_eos_balance = .ok o ↔
      get_eos_balance c.eos account = expected_eos_balance ∧ o = { tables := t } := by
  simp only [enforcebal, bind_eq_ok, check_eq_ok, exists_and_left, exists_const, pure_eq_ok, Except.ok.injEq,
    eq_comm (a := o)]

theorem gt_eq_ok {a b : Asset} {r : Bool} :
    a.gt b = .ok r ↔ b.symbol = a.symbol ∧ (r = true ↔ b.val < a.val) := by
  have hlt : b.amount < a.amount ↔ b.val < a.val := Int64.lt_iff_toInt_lt
  simp only [Asset.gt, bind_eq_ok, check_eq_ok, pure_eq_ok, Except.ok.injEq, exists_and_left, exists_const]
  refine and_congr_right fun _ => ?_
  rw [← hlt]
  cases r <;> simp

theorem swapexcess_eq_ok {c : View} {t : Tables} {account : Name} {eos_before : Asset} {o : Outcome Tables} :
    swapexcess c t account eos_before = .ok o ↔ c.has_auth c.self = true ∧
      eos_before.symbol = (get_eos_balance c.eos account).symbol ∧
      ((¬ eos_before.val < (get_eos_balance c.eos account).val ∧ o = { tables := t }) ∨
        (eos_before.val < (get_eos_balance c.eos account).val ∧ ∃ excess,
          (get_eos_balance c.eos account).sub eos_before = .ok excess ∧ 0 < excess.val ∧ excess.val ≤ 2 ^ 62 - 1 ∧
          o = { tables := t, inline :=
            [transfer_action Name.eosio_token account account c.self ⟨excess.amount, Symbol.EOS⟩ []] })) := by
  simp only [swapexcess, bind_eq_ok, Ctx.require_auth_eq_ok, exists_and_left, exists_const, gt_eq_ok]
  refine and_congr_right fun _ => ?_
  constructor
  · rintro ⟨more, ⟨hsym, hmore⟩, h⟩
    refine ⟨hsym, ?_⟩
    split at h
    · rename_i htrue
      simp only [bind_eq_ok, swap_after_forwarding_eq_ok, pure_eq_ok, Except.ok.injEq] at h
      obtain ⟨excess, hsub, _, ⟨hpos, hsmall, rfl⟩, rfl⟩ := h
      exact .inr ⟨hmore.1 htrue, excess, hsub, hpos, hsmall, rfl⟩
    · rename_i hfalse
      cases h
      exact .inl ⟨fun hlt => hfalse (hmore.2 hlt), rfl⟩
  · rintro ⟨hsym, ⟨hle, rfl⟩ | ⟨hlt, excess, hsub, hpos, hsmall, rfl⟩⟩
    · exact ⟨false, ⟨hsym, by simp [hle]⟩, rfl⟩
    · refine ⟨true, ⟨hsym, by simp [hlt]⟩, ?_⟩
      simp only [if_true, bind_eq_ok, swap_after_forwarding_eq_ok, pure_eq_ok]
      exact ⟨excess, hsub, _, ⟨hpos, hsmall, rfl⟩, rfl⟩

theorem swapexcess_effect {c : View} {t : Tables} {account : Name} {eos_before : Asset}
    {o : Outcome Tables} (h : swapexcess c t account eos_before = .ok o) :
    Effect c t (.swapexcess account eos_before) o := by
  obtain ⟨hself, -, ⟨-, rfl⟩ | ⟨-, excess, -, hpos, -, rfl⟩⟩ := swapexcess_eq_ok.1 h
  · exact .idle rfl
  · exact .excess (q := ⟨excess.amount, Symbol.EOS⟩) hself hpos rfl

/-! ### The wrapper -/

section Wrapper

variable {c : View} {t : Tables} {account : Name} {o : Outcome Tables}

theorem follow_one {a : Action} (h : Follow c.toCtx account a) : ∀ x ∈ [a], Follow c.toCtx account x := by
  simpa using h

theorem follow_two {a b : Action} (ha : Follow c.toCtx account a) (hb : Follow c.toCtx account b) :
    ∀ x ∈ [a, b], Follow c.toCtx account x := by
  simpa using ⟨ha, hb⟩

theorem forward_eq_ok {c : Ctx} {call : SysCall} :
    forward c t account call = .ok o ↔
      c.has_auth account = true ∧ o = { tables := t, inline := [sys_action account call] } := by
  simp only [forward, bind_eq_ok, Ctx.require_auth_eq_ok, exists_and_left, exists_const, pure_eq_ok,
    Except.ok.injEq, eq_comm (a := o)]

theorem forward_effect {call w : SysCall} (h : forward c.toCtx t account call = .ok o) :
    Effect c t (.sys w) o := by
  obtain ⟨hauth, rfl⟩ := forward_eq_ok.1 h
  exact .passed hauth (follow_one .forward)

theorem swap_and_forward_eq_ok {c : Ctx} {quantity : Except String Asset} {call : Except String SysCall} :
    swap_and_forward c t account quantity call = .ok o ↔ c.has_auth account = true ∧ ∃ q accounts w,
      quantity = .ok q ∧ Swapped c t account q accounts ∧ call = .ok w ∧
      o = { tables := { t with accounts },
            inline := [swaptrace_action c account q, credit_action c account q, sys_action account w] } := by
  simp only [swap_and_forward, bind_eq_ok, Ctx.require_auth_eq_ok, exists_and_left, exists_const,
    swap_before_forwarding_eq_ok, pure_eq_ok, Except.ok.injEq]
  constructor
  · rintro ⟨hauth, q, hq, ⟨accounts, swap⟩, ⟨hswap, rfl⟩, w, hw, rfl⟩
    exact ⟨hauth, q, hq, accounts, hswap, w, hw, rfl⟩
  · rintro ⟨hauth, q, hq, accounts, hswap, w, hw, rfl⟩
    exact ⟨hauth, q, hq, ⟨accounts, _⟩, ⟨hswap, rfl⟩, w, hw, rfl⟩

theorem swap_and_forward_effect {quantity : Except String Asset} {call : Except String SysCall}
    {w : SysCall} (h : swap_and_forward c.toCtx t account quantity call = .ok o) :
    Effect c t (.sys w) o := by
  obtain ⟨hauth, q, accounts, call, -, hswap, -, rfl⟩ := swap_and_forward_eq_ok.1 h
  exact .swapped hauth hswap (follow_one .forward)

theorem forM_eq_ok {α : Type} {f : α → Except String Unit} {l : List α} :
    l.forM f = .ok () ↔ ∀ a ∈ l, f a = .ok () := by
  induction l with
  | nil => simp [List.forM]
  | cons a l ih =>
    change (f a >>= fun _ => l.forM f) = _ ↔ _
    rw [bind_eq_ok, List.forall_mem_cons]
    exact ⟨fun ⟨_, ha, hl⟩ => ⟨ha, ih.1 hl⟩, fun ⟨ha, hl⟩ => ⟨(), ha, ih.2 hl⟩⟩

theorem enforce_and_forward_eq_ok {c : Ctx} {quantities : List Asset} {call : Except String SysCall} :
    enforce_and_forward c t account quantities call = .ok o ↔ c.has_auth account = true ∧
      (∀ q ∈ quantities, t.config.find c.self () = some ⟨q.symbol⟩) ∧
      ∃ w, call = .ok w ∧ o = { tables := t, inline := [sys_action account w] } := by
  have henforce : ∀ u : Unit, quantities.forM (enforce_symbol c t) = .ok u ↔
      ∀ q ∈ quantities, t.config.find c.self () = some ⟨q.symbol⟩ := by
    rintro ⟨⟩
    simp only [forM_eq_ok, enforce_symbol_eq_ok]
  simp only [enforce_and_forward, bind_eq_ok, Ctx.require_auth_eq_ok, henforce, exists_and_left, exists_const,
    pure_eq_ok, Except.ok.injEq, eq_comm (a := o)]

theorem enforce_and_forward_effect {quantities : List Asset} {call : Except String SysCall}
    {w : SysCall} (h : enforce_and_forward c.toCtx t account quantities call = .ok o) :
    Effect c t (.sys w) o := by
  obtain ⟨hauth, -, call, -, rfl⟩ := enforce_and_forward_eq_ok.1 h
  exact .passed hauth (follow_one .forward)

theorem forward_and_swap_excess_eq_ok {call : SysCall} :
    forward_and_swap_excess c t account call = .ok o ↔ c.has_auth account = true ∧
      o = { tables := t, inline := [sys_action account call,
              swapexcess_action c.toCtx account (get_eos_balance c.eos account)] } := by
  simp only [forward_and_swap_excess, bind_eq_ok, Ctx.require_auth_eq_ok, exists_and_left, exists_const,
    pure_eq_ok, Except.ok.injEq, eq_comm (a := o)]

theorem forward_and_swap_excess_effect {call w : SysCall}
    (h : forward_and_swap_excess c t account call = .ok o) : Effect c t (.sys w) o := by
  obtain ⟨hauth, rfl⟩ := forward_and_swap_excess_eq_ok.1 h
  exact .passed hauth (follow_two .forward .excess)

theorem buyrambytes_eq_ok {payer receiver : Name} {bytes : UInt32} :
    buyrambytes c t payer receiver bytes = .ok o ↔ c.has_auth payer = true ∧ ∃ symbol accounts,
      Swapped c.toCtx t payer ⟨c.cost_plus_fee bytes, symbol⟩ accounts ∧ symbol.is_valid = true ∧
      o = { tables := { t with accounts },
            inline := [swaptrace_action c.toCtx payer ⟨c.cost_plus_fee bytes, symbol⟩,
              credit_action c.toCtx payer ⟨c.cost_plus_fee bytes, symbol⟩,
              sys_action payer (.buyrambytes payer receiver bytes),
              enforcebal_action c.toCtx payer (get_eos_balance c.eos payer)] } := by
  simp only [buyrambytes, bind_eq_ok, Ctx.require_auth_eq_ok, exists_and_left, exists_const,
    get_token_symbol_eq_ok, Asset.make_eq_ok, swap_before_forwarding_eq_ok, pure_eq_ok, Except.ok.injEq]
  constructor
  · rintro ⟨hauth, symbol, -, _, ⟨rfl, -, hvalid⟩, ⟨accounts, swap⟩, ⟨hswap, rfl⟩, rfl⟩
    exact ⟨hauth, symbol, accounts, hswap, hvalid, rfl⟩
  · rintro ⟨hauth, symbol, accounts, hswap, hvalid, rfl⟩
    have hpos : 0 < (c.cost_plus_fee bytes).toInt := hswap.pos
    exact ⟨hauth, symbol, hswap.symbol, _, ⟨rfl, ⟨by omega, hswap.small⟩, hvalid⟩, ⟨accounts, _⟩, ⟨hswap, rfl⟩, rfl⟩

theorem buyrambytes_effect {payer receiver : Name} {bytes : UInt32} {w : SysCall}
    (h : buyrambytes c t payer receiver bytes = .ok o) : Effect c t (.sys w) o := by
  obtain ⟨hauth, symbol, accounts, hswap, -, rfl⟩ := buyrambytes_eq_ok.1 h
  exact .swapped hauth hswap (follow_two .forward .enforce)

theorem withdraw_eq_ok {c : Ctx} {owner : Name} {amount : Asset} :
    withdraw c t owner amount = .ok o ↔ c.has_auth owner = true ∧
      t.config.find c.self () = some ⟨amount.symbol⟩ ∧ 0 < amount.val ∧ amount.val ≤ 2 ^ 62 - 1 ∧
      o = { tables := t,
            inline := [sys_action owner (.withdraw owner ⟨amount.amount, Symbol.EOS⟩),
              transfer_action Name.eosio_token owner owner c.self ⟨amount.amount, Symbol.EOS⟩ []] } := by
  simp only [withdraw, to_eos, bind_eq_ok, Ctx.require_auth_eq_ok, enforce_symbol_eq_ok, make_eos_eq_ok,
    swap_after_forwarding_eq_ok, pure_eq_ok, Except.ok.injEq, exists_and_left, exists_const]
  constructor
  · rintro ⟨hauth, hcfg, _, ⟨rfl, hr⟩, _, ⟨hpos, -, rfl⟩, rfl⟩
    exact ⟨hauth, hcfg, hpos, hr.2, rfl⟩
  · rintro ⟨hauth, hcfg, hpos, hr, rfl⟩
    have : (0 : Int) ≤ amount.amount.toInt := le_of_lt hpos
    exact ⟨hauth, hcfg, _, ⟨rfl, by omega, hr⟩, _, ⟨hpos, hr, rfl⟩, rfl⟩

theorem withdraw_effect {owner : Name} {amount : Asset} {w : SysCall}
    (h : withdraw c.toCtx t owner amount = .ok o) : Effect c t (.sys w) o := by
  obtain ⟨hauth, -, hpos, -, rfl⟩ := withdraw_eq_ok.1 h
  exact .passed hauth (follow_two .forward (.swap (q := ⟨amount.amount, Symbol.EOS⟩) hpos rfl))

theorem powerup_eq_ok {payer receiver : Name} {days : UInt32} {net_frac cpu_frac : Int64}
    {max_payment : Asset} :
    powerup c t payer receiver days net_frac cpu_frac max_payment = .ok o ↔ c.has_auth payer = true ∧
      ∃ accounts, Swapped c.toCtx t payer max_payment accounts ∧
        o = { tables := { t with accounts },
              inline := [swaptrace_action c.toCtx payer max_payment, credit_action c.toCtx payer max_payment,
                sys_action payer
                  (.powerup payer receiver days net_frac cpu_frac ⟨max_payment.amount, Symbol.EOS⟩),
                swapexcess_action c.toCtx payer (get_eos_balance c.eos payer)] } := by
  simp only [powerup, to_eos, bind_eq_ok, Ctx.require_auth_eq_ok, exists_and_left, exists_const,
    swap_before_forwarding_eq_ok, make_eos_eq_ok, pure_eq_ok, Except.ok.injEq]
  constructor
  · rintro ⟨hauth, ⟨accounts, swap⟩, ⟨hswap, rfl⟩, _, ⟨rfl, -⟩, rfl⟩
    exact ⟨hauth, accounts, hswap, rfl⟩
  · rintro ⟨hauth, accounts, hswap, rfl⟩
    have hpos : 0 < max_payment.amount.toInt := hswap.pos
    exact ⟨hauth, ⟨accounts, _⟩, ⟨hswap, rfl⟩, _, ⟨rfl, by omega, hswap.small⟩, rfl⟩

theorem powerup_effect {payer receiver : Name} {days : UInt32} {net_frac cpu_frac : Int64}
    {max_payment : Asset} {w : SysCall}
    (h : powerup c t payer receiver days net_frac cpu_frac max_payment = .ok o) :
    Effect c t (.sys w) o := by
  obtain ⟨hauth, accounts, hswap, rfl⟩ := powerup_eq_ok.1 h
  exact .swapped hauth hswap (follow_two .forward .excess)

theorem apply_sys_effect {call : SysCall} (h : apply_sys c t call = .ok o) : Effect c t (.sys call) o := by
  cases call with
  | bidname | buyram | buyramburn | buyramself | deposit | delegatebw | donatetorex =>
    exact swap_and_forward_effect h
  | bidrefund | sellram | refund | claimrewards => exact forward_and_swap_excess_effect h
  | buyrex | undelegatebw | unstaketorex => exact enforce_and_forward_effect h
  | buyrambytes => exact buyrambytes_effect h
  | withdraw => exact withdraw_effect h
  | powerup => exact powerup_effect h
  | _ => exact forward_effect h

end Wrapper

theorem apply_effect {c : View} {t : Tables} {call : Call} {o : Outcome Tables}
    (h : apply c t call = .ok o) : Effect c t call o := by
  cases call with
  | init => exact init_effect h
  | transfer =>
    obtain ⟨st, accounts, hne, hauth, hrec, hst, hvalid, hpos, hsym, hmemo, hmove, hcfg, rfl⟩ :=
      transfer_eq_ok.1 h
    exact .transfer hne hauth hrec hst hvalid hpos hsym hmemo hmove hcfg
  | open_ => exact open_effect h
  | close => exact close_effect h
  | swapto => exact swapto_effect h
  | blockswapto => exact blockswapto_effect h
  | enforcebal =>
    obtain ⟨-, rfl⟩ := enforcebal_eq_ok.1 h
    exact .idle rfl
  | swapexcess => exact swapexcess_effect h
  | swaptrace =>
    simp only [apply, swaptrace, bind_eq_ok, Ctx.require_auth_eq_ok, exists_and_left, exists_const,
      pure_eq_ok, Except.ok.injEq] at h
    obtain ⟨hself, rfl⟩ := h
    exact .traced hself
  | noop => cases h; exact .idle rfl
  | sys => exact apply_sys_effect h
  | _ => cases h

end System

/-! ## Any action -/

theorem Token.Effect.inline_eq_nil {c : Ctx} {t : Token.Tables} {call : Call} {o : Outcome Token.Tables}
    (h : Token.Effect c t call o) : o.inline = [] := by
  cases h <;> rfl

namespace Env

variable {σ : Type} (e : Env σ)

/-- A transfer that `on_transfer` answers with a payout. -/
def SwapsIn (call : Call) : Prop :=
  ∃ sender q memo, call = .transfer sender e.self q memo ∧ sender ≠ e.self ∧ ¬ System.Exempt sender

/-- One case for each contract, and one more for the EOS that comes in. -/
inductive Effect (s : State σ) (a : Action) : State σ → List Action → Prop
  | system {o : Outcome System.Tables} (hacc : a.account = e.self)
      (h : System.Effect (e.view s a.authorization) s.system a.call o) :
      Effect s a { s with system := o.tables } o.inline
  | token {o : Outcome Token.Tables} (hacc : a.account = Name.eosio_token)
      (h : Token.Effect (e.ctx s Name.eosio_token a.authorization) s.token a.call o)
      (hout : ¬ e.SwapsIn a.call) :
      Effect s a { s with token := o.tables } []
  | swap_in {o : Outcome Token.Tables} {sender : Name} {q : Asset} {memo : Memo} {symbol : Symbol}
      (hacc : a.account = Name.eosio_token) (hcall : a.call = .transfer sender e.self q memo)
      (h : Token.Effect (e.ctx s Name.eosio_token a.authorization) s.token a.call o)
      (hsender : sender ≠ e.self) (hexempt : ¬ System.Exempt sender) (hpos : 0 < q.val)
      (hq : q.symbol = Symbol.EOS) (hcfg : s.system.config.find e.self () = some ⟨symbol⟩) :
      Effect s a { s with token := o.tables }
        [System.transfer_action e.self e.self e.self sender ⟨q.amount, symbol⟩ memo]
  | eosio {call : SysCall} {x : σ} {token : Token.Tables} (hacc : a.account = Name.eosio)
      (hcall : a.call = .sys call)
      (h : e.eosio call a.authorization s.eosio s.token = .ok (x, token)) :
      Effect s a { s with eosio := x, token } []
  | nobody (hself : a.account ≠ e.self) (htoken : a.account ≠ Name.eosio_token)
      (heosio : a.account ≠ Name.eosio) : Effect s a s []

variable {e}

theorem notify_nobody (s : State σ) (a : Action) : e.notify s a [] = .ok [] := by
  unfold notify
  split <;> simp

theorem notify_transfer {s : State σ} {a : Action} {sender recipient : Name} {q : Asset} {memo : Memo}
    (h : a.call = .transfer sender recipient q memo) :
    e.notify s a [sender, recipient] =
      System.on_transfer (e.ctx s e.self a.authorization) s.system sender recipient q memo := by
  unfold notify
  simp only [h]
  split
  · rfl
  · rename_i hnot
    simp only [List.mem_cons, List.not_mem_nil, or_false, not_or] at hnot
    unfold System.on_transfer
    rw [if_pos (.inr (Ne.symm hnot.2))]
    rfl

theorem token_effect {s : State σ} {a : Action} {o : Outcome Token.Tables} {queued : List Action}
    (hacc : a.account = Name.eosio_token)
    (h : Token.Effect (e.ctx s Name.eosio_token a.authorization) s.token a.call o)
    (hn : e.notify s a o.notified = .ok queued) : e.Effect s a { s with token := o.tables } queued := by
  by_cases hcall : ∃ sender recipient q memo, a.call = .transfer sender recipient q memo
  · obtain ⟨sender, recipient, q, memo, hcall⟩ := hcall
    have hnotified : o.notified = [sender, recipient] := by
      rw [hcall] at h
      cases h with
      | transfer => rfl
      | issue hissue => cases hissue
    rw [hnotified, notify_transfer hcall] at hn
    by_cases hends : sender = e.self ∨ recipient ≠ e.self
    · rw [System.on_transfer_ignored _ _ _ hends, Except.ok.injEq] at hn
      subst hn
      refine .token hacc h ?_
      rintro ⟨_, _, _, heq, hne, -⟩
      rw [hcall] at heq
      cases heq
      rcases hends with he | he
      · exact hne he
      · exact he rfl
    · obtain ⟨hpos, ⟨hexempt, rfl⟩ | ⟨hexempt, hq, symbol, hcfg, -, -, rfl⟩⟩ :=
        (System.on_transfer_eq_ok hends).1 hn
      · refine .token hacc h ?_
        rintro ⟨_, _, _, heq, -, hne⟩
        rw [hcall] at heq
        cases heq
        exact hne hexempt
      · simp only [not_or, not_not] at hends
        obtain ⟨hsender, rfl⟩ := hends
        exact .swap_in hacc hcall h hsender hexempt hpos hq hcfg
  · have hnotified : o.notified = [] := by
      generalize a.call = call at h hcall
      cases h with
      | transfer => exact absurd ⟨_, _, _, _, rfl⟩ hcall
      | _ => rfl
    rw [hnotified, notify_nobody, Except.ok.injEq] at hn
    subst hn
    exact .token hacc h fun ⟨sender, q, memo, hc, _⟩ => hcall ⟨sender, _, q, memo, hc⟩

theorem exec_effect {s s' : State σ} {a : Action} {queued : List Action}
    (h : e.exec s a = .ok (s', queued)) : e.Effect s a s' queued := by
  unfold exec at h
  split at h
  · simp only [bind_eq_ok, pure_eq_ok, Except.ok.injEq, Prod.mk.injEq] at h
    obtain ⟨o, ho, rfl, rfl⟩ := h
    exact .system ‹_› (System.apply_effect ho)
  split at h
  · simp only [bind_eq_ok, pure_eq_ok, Except.ok.injEq, Prod.mk.injEq] at h
    obtain ⟨o, ho, inline, hn, rfl, rfl⟩ := h
    have ho := Token.apply_effect ho
    rw [ho.inline_eq_nil, List.nil_append]
    exact token_effect ‹_› ho hn
  split at h
  · split at h
    · simp only [bind_eq_ok, pure_eq_ok, Except.ok.injEq, Prod.mk.injEq] at h
      obtain ⟨⟨x, token⟩, hx, rfl, rfl⟩ := h
      exact .eosio ‹_› ‹_› hx
    · cases h
  · cases h
    exact .nobody ‹_› ‹_› ‹_›

theorem exec_own {s s' : State σ} {authorization : List PermissionLevel} {call : Call} {queued : List Action} :
    e.exec s ⟨e.self, authorization, call⟩ = .ok (s', queued) ↔
      ∃ o, System.apply (e.view s authorization) s.system call = .ok o ∧ s' = { s with system := o.tables } ∧
        queued = o.inline := by
  unfold exec
  simp only [if_true, bind_eq_ok, pure_eq_ok, Except.ok.injEq, Prod.mk.injEq, eq_comm (b := s'),
    eq_comm (b := queued)]

theorem exec_system {s s' : State σ} {a : Action} {queued : List Action} (hacc : a.account = e.self)
    (h : e.exec s a = .ok (s', queued)) :
    ∃ o, System.Effect (e.view s a.authorization) s.system a.call o ∧
      s' = { s with system := o.tables } ∧ queued = o.inline := by
  cases exec_effect h with
  | system _ heffect => exact ⟨_, heffect, rfl, rfl⟩
  | token htoken => exact absurd (hacc.symm.trans htoken) e.self_ne_token
  | swap_in htoken => exact absurd (hacc.symm.trans htoken) e.self_ne_token
  | eosio heosio => exact absurd (hacc.symm.trans heosio) e.self_ne_eosio
  | nobody hself => exact absurd hacc hself

theorem exec_token {s s' : State σ} {a : Action} {queued : List Action}
    (hacc : a.account = Name.eosio_token) (h : e.exec s a = .ok (s', queued)) :
    ∃ o, Token.Effect (e.ctx s Name.eosio_token a.authorization) s.token a.call o := by
  cases exec_effect h with
  | system hself => exact absurd (hself.symm.trans hacc) e.self_ne_token
  | token _ heffect => exact ⟨_, heffect⟩
  | swap_in _ _ heffect => exact ⟨_, heffect⟩
  | eosio heosio => exact absurd (hacc.symm.trans heosio) (by decide)
  | nobody _ htoken => exact absurd hacc htoken

end Env

end Vaulta
