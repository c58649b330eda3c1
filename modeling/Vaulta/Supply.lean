import Vaulta.Conservation
import Vaulta.TokenLedger

/-!
# The supply of a token

The token contract keeps all its tokens in one pair of tables, and takes any amount and
any symbol as an argument. Whatever it is called with, the balances of every ticker are
its supply, and the supply stays under its maximum.
-/

namespace Vaulta.Token

open Vaulta.System (InRange)

/-- What any sequence of actions can make of empty tables. -/
inductive Reachable : Tables → Prop
  | empty : Reachable .empty
  | action {c : Ctx} {t : Tables} {call : Call} {o : Outcome Tables} (h : Reachable t)
      (ho : apply c t call = .ok o) : Reachable o.tables

/-! ## The invariant -/

structure Capped (st : CurrencyStats) : Prop where
  symbol : st.max_supply.symbol = st.supply.symbol
  le : st.supply.val ≤ st.max_supply.val
  small : st.max_supply.val ≤ 2 ^ 62 - 1

structure Ledger (t : Tables) : Prop where
  sound : Sound t
  capped : ∀ k st, t.stat.find k k = some st → Capped st

theorem capped_store {t : Stats} {n : SymbolCode} {r : Stored Name CurrencyStats}
    (h : ∀ k st, t.find k k = some st → Capped st) (hr : Capped r.row) :
    ∀ k st, (t.store n r).find k k = some st → Capped st := by
  intro k st hst
  rw [MultiIndex.find_store] at hst
  split at hst
  · cases hst
    exact hr
  · exact h k st hst

namespace Ledger

variable {t : Tables} {c : Ctx} {k : SymbolCode} {st : CurrencyStats} {q : Asset}

theorem empty : Ledger .empty where
  sound := .empty
  capped k st h := by cases h

theorem supply_nonneg (h : Ledger t) (hst : t.stat.find k k = some st) : 0 ≤ st.supply.val := by
  have hbook := h.sound.backed k st hst
  rw [← hbook.total]
  exact Finset.sum_nonneg fun u _ => hbook.nonneg u

theorem supply_small (h : Ledger t) (hst : t.stat.find k k = some st) : st.supply.val ≤ 2 ^ 62 - 1 := by
  have hcap := h.capped k st hst
  exact le_trans hcap.le hcap.small

theorem issue_le (h : Ledger t) (hst : t.stat.find k k = some st)
    (hmax : q.amount ≤ st.max_supply.amount - st.supply.amount) : st.supply.val + q.val ≤ st.max_supply.val := by
  -- Nothing wraps in the check of `issue`.
  have hcap := h.capped k st hst
  have hle := hcap.le
  have hsmall := hcap.small
  have hpos := h.supply_nonneg hst
  have hsub : (st.max_supply.amount - st.supply.amount).toInt = st.max_supply.val - st.supply.val :=
    (Int64.toInt_sub _ _).trans (Asset.bmod_of_range (x := st.max_supply.val - st.supply.val) (by omega) (by omega))
  rw [Int64.le_iff_toInt_le, hsub] at hmax
  change q.val ≤ _ at hmax
  omega

theorem step (h : Ledger t) {call : Call} {o : Outcome Tables} (he : Effect c t call o) : Ledger o.tables := by
  refine ⟨h.sound.step he, ?_⟩
  cases he with
  | @create issuer maximum_supply stat _ hvalid hpos hstat =>
    obtain ⟨-, rfl⟩ := MultiIndex.emplace_eq_ok.1 hstat
    have hr := ((Asset.is_valid_iff _).1 hvalid).1
    exact capped_store h.capped ⟨rfl, le_of_lt hpos, hr.2⟩
  | issue _ _ hvalid _ hst hsym hmax hsupply =>
    have hr := ((Asset.is_valid_iff _).1 hvalid).1
    have hfind := find_of_rows hst
    have hcap := h.capped _ _ hfind
    have hle := h.issue_le hfind hmax
    obtain ⟨-, hs, hval, -⟩ := (Asset.add_eq_ok hr).1 hsupply
    refine capped_store h.capped ⟨?_, ?_, hcap.small⟩
    · exact hcap.symbol.trans hs.symm
    · exact hval ▸ hle
  | setmaxsupply _ hvalid _ hst hsym hle =>
    have hr := ((Asset.is_valid_iff _).1 hvalid).1
    exact capped_store h.capped ⟨hsym, hle, hr.2⟩
  | @retire q supply memo st p accounts _ hvalid hpos hst hsym hsupply hsub =>
    have hr := ((Asset.is_valid_iff _).1 hvalid).1
    have hcap := h.capped _ _ (find_of_rows hst)
    have hle := hcap.le
    have hval := Asset.sub_val hr hsupply
    refine capped_store h.capped ⟨?_, ?_, hcap.small⟩
    · exact hcap.symbol.trans (Asset.sub_symbol hsupply).symm
    · change supply.val ≤ st.max_supply.val
      omega
  | transfer | opened | open_idle | closed => exact h.capped

end Ledger

theorem ledger {t : Tables} (h : Reachable t) : Ledger t := by
  induction h with
  | empty => exact .empty
  | action _ ho ih => exact ih.step (apply_effect ho)

/-! ## Sums and differences stay in range -/

namespace Ledger

variable {t : Tables} {c : Ctx} {k : SymbolCode} {st : CurrencyStats} {q : Asset}

theorem sub_balance_in_range (h : Ledger t) (hst : t.stat.find k k = some st) (hpos : 0 < q.val)
    (hsym : q.symbol = st.supply.symbol) (u : Name) : InRange (sub_balance t.accounts u q) := by
  intro msg he
  have hd : (book t.accounts).debit u q = .error msg := by rw [← sub_balance_book, he]; rfl
  rcases (h.sound.backed k st hst).debit_error (h.supply_small hst) hpos hsym hd with rfl | rfl <;> decide

theorem add_balance_in_range {accounts : Accounts} {sym : Symbol} {n : Int}
    (h : (book accounts).Sound sym n) (hsmall : n + q.val ≤ 2 ^ 62 - 1) (hpos : 0 < q.val) (hsym : q.symbol = sym)
    (u p : Name) : InRange (add_balance accounts u q p) := by
  obtain ⟨b, hb⟩ := h.credit_ok hsmall (le_of_lt hpos) hsym u
  obtain ⟨accounts', ha, -⟩ := add_balance_of_credit accounts u p q hb
  rw [ha]
  exact .ok _

theorem issue_in_range (h : Ledger t) (recipient : Name) (q : Asset) (memo : Memo) :
    InRange (issue c t recipient q memo) := by
  refine .bind (.check (by decide)) fun _ _ => .bind (.check (by decide)) fun _ _ =>
    .bind (.get (by decide)) fun st hst => .bind (.check (by decide)) fun _ _ =>
    .bind (.require_auth _ _) fun _ _ => .bind (.check (by decide)) fun _ _ =>
    .bind (.check (by decide)) fun _ hpos => .bind (.check (by decide)) fun _ hsym =>
    .bind (.check (by decide)) fun _ hmax => ?_
  rw [MultiIndex.get_eq_ok] at hst
  rw [check_eq_ok, Asset.amount_pos_iff] at hpos
  rw [check_eq_ok] at hsym hmax
  have hnonneg := h.supply_nonneg hst
  have hle := h.issue_le hst hmax
  have hsmall := (h.capped _ st hst).small
  refine .bind (.modify _ fun row hrow => ?_) fun _ _ => .bind ?_ fun _ _ => .ok _
  · rw [hst] at hrow
    cases hrow
    obtain ⟨supply, hsupply⟩ := Asset.add_ok hsym (by omega) (by omega)
    rw [hsupply]
    exact .ok _
  · exact add_balance_in_range (h.sound.backed _ st hst) (by omega) hpos hsym _ _

theorem retire_in_range (h : Ledger t) (q : Asset) (memo : Memo) : InRange (retire c t q memo) := by
  -- The supply is lowered before the balance is checked, below zero even, but not out of range.
  refine .bind (.check (by decide)) fun _ _ => .bind (.check (by decide)) fun _ _ =>
    .bind (.get (by decide)) fun st hst => .bind (.require_auth _ _) fun _ _ =>
    .bind (.check (by decide)) fun _ hvalid => .bind (.check (by decide)) fun _ hpos =>
    .bind (.check (by decide)) fun _ hsym => ?_
  rw [MultiIndex.get_eq_ok] at hst
  rw [check_eq_ok, Asset.is_valid_iff] at hvalid
  rw [check_eq_ok, Asset.amount_pos_iff] at hpos
  rw [check_eq_ok] at hsym
  have hnonneg := h.supply_nonneg hst
  have hsmall := h.supply_small hst
  refine .bind (.modify _ fun row hrow => ?_) fun _ _ => .bind ?_ fun _ _ => .ok _
  · rw [hst] at hrow
    cases hrow
    obtain ⟨supply, hsupply⟩ := Asset.sub_ok hsym (by omega) (by omega)
    rw [hsupply]
    exact .ok _
  · exact h.sub_balance_in_range hst hpos hsym _

theorem transfer_in_range (h : Ledger t) (u w : Name) (q : Asset) (memo : Memo) :
    InRange (transfer c t u w q memo) := by
  refine .bind (.check (by decide)) fun _ _ => .bind (.require_auth _ _) fun _ _ =>
    .bind (.check (by decide)) fun _ _ => .bind (.get (by decide)) fun st hst =>
    .bind (.check (by decide)) fun _ _ => .bind (.check (by decide)) fun _ hpos =>
    .bind (.check (by decide)) fun _ hsym => .bind (.check (by decide)) fun _ _ => ?_
  rw [MultiIndex.get_eq_ok] at hst
  rw [check_eq_ok, Asset.amount_pos_iff] at hpos
  rw [check_eq_ok] at hsym
  have hsmall := h.supply_small hst
  refine .bind (h.sub_balance_in_range hst hpos hsym u) fun accounts hsub => .bind ?_ fun _ _ => .ok _
  have hbook := (h.sound.backed _ st hst).debit (by omega) (debit_of_sub_balance hsub)
  have hof : q.of st.supply.symbol.code = q.val := by rw [← hsym, Asset.of_self]
  rw [hof] at hbook
  exact add_balance_in_range hbook (by omega) hpos hsym _ _

theorem apply_in_range (h : Ledger t) {call : Call} (hcall : ∀ w T memo, call ≠ .issuefixed w T memo) :
    InRange (apply c t call) := by
  cases call with
  | create =>
    refine .bind (.require_auth _ _) fun _ _ => .bind (.check (by decide)) fun _ _ =>
      .bind (.check (by decide)) fun _ _ => .bind (.check (by decide)) fun _ _ => ?_
    exact .bind (.emplace _ _ _ _) fun _ _ => .ok _
  | issue w q memo => exact h.issue_in_range w q memo
  | issuefixed => exact absurd rfl (hcall _ _ _)
  | setmaxsupply =>
    refine .bind (.check (by decide)) fun _ _ => .bind (.check (by decide)) fun _ _ =>
      .bind (.get (by decide)) fun _ _ => .bind (.check (by decide)) fun _ _ =>
      .bind (.require_auth _ _) fun _ _ => .bind (.check (by decide)) fun _ _ =>
      .bind (.check (by decide)) fun _ _ => ?_
    exact .bind (.modify _ fun _ _ => .ok _) fun _ _ => .ok _
  | retire q memo => exact h.retire_in_range q memo
  | transfer u w q memo => exact h.transfer_in_range u w q memo
  | open_ owner symbol =>
    refine .bind (.require_auth _ _) fun _ _ => .bind (.check (by decide)) fun _ _ =>
      .bind (.get (by decide)) fun _ _ => .bind (.check (by decide)) fun _ _ => ?_
    cases t.accounts.find owner symbol.code with
    | none => exact .bind (.emplace _ _ _ _) fun _ _ => .ok _
    | some => exact .ok _
  | close =>
    refine .bind (.require_auth _ _) fun _ _ => .bind (.get (by decide)) fun _ _ =>
      .bind (.check (by decide)) fun _ _ => .bind ?_ fun _ _ => .ok _
    exact .bind (.check (by decide)) fun _ _ => .ok _
  | _ => exact .error (by decide)

theorem issuefixed_supply (h : Ledger t) {w : Name} {T : Asset} {memo : Memo} {o : Outcome Tables}
    (ho : issuefixed c t w T memo = .ok o) :
    ∃ st, o.tables.stat.find T.symbol.code T.symbol.code = some st ∧ st.supply = T := by
  -- The difference that `issuefixed` forms may wrap, but then it fails.
  simp only [issuefixed, get_supply, bind_eq_ok, check_eq_ok, MultiIndex.get_eq_ok, pure_eq_ok,
    Except.ok.injEq] at ho
  obtain ⟨_, ⟨st, hst, rfl⟩, _, hsym, q, hq, ho⟩ := ho
  have hnonneg := h.supply_nonneg hst
  have hsmall := h.supply_small hst
  have hval := Asset.sub_val ⟨by omega, hsmall⟩ hq
  have hqsym := Asset.sub_symbol hq
  obtain ⟨st', p, supply, accounts, -, hvalid, -, hst', -, -, hsupply, -, rfl⟩ := issue_ok ho
  have hr := ((Asset.is_valid_iff _).1 hvalid).1
  have hfind := find_of_rows hst'
  rw [hqsym, hst] at hfind
  cases hfind
  obtain ⟨-, hs, hsum, -⟩ := (Asset.add_eq_ok hr).1 hsupply
  have hcode : supply.symbol.code = T.symbol.code := by rw [hs, hsym]
  refine ⟨{ st with supply }, ?_, Asset.ext_val (show supply.val = T.val by omega) (hs.trans hsym)⟩
  rw [hqsym, MultiIndex.find_store, if_pos ⟨rfl, hcode.symm⟩]

end Ledger

/-- **The ledger of a token contract.** However its tables came about: for every ticker
the balances are the supply, and the supply is between zero and its maximum. No balance is
negative or of another symbol, and no balance or supply leaves the range of an amount. And
`issuefixed` makes the supply what it is asked to, for every asset that it accepts. -/
theorem ledger_sound {t : Tables} (h : Reachable t) :
    (∀ k st, t.stat.find k k = some st →
      ∑ u, (book t.accounts).amount k u = st.supply.val ∧
      0 ≤ st.supply.val ∧ st.supply.val ≤ st.max_supply.val ∧ st.max_supply.val ≤ 2 ^ 62 - 1 ∧
      st.max_supply.symbol = st.supply.symbol ∧
      ∀ u row, t.accounts.find u k = some row → 0 ≤ row.balance.val ∧ row.balance.symbol = st.supply.symbol) ∧
    (∀ k, t.stat.find k k = none → ∀ u, t.accounts.find u k = none) ∧
    (∀ c call, (∀ w T memo, call ≠ .issuefixed w T memo) → InRange (apply c t call)) ∧
    (∀ c w q memo, InRange (issue c t w q memo)) ∧
    ∀ c w T memo o, apply c t (.issuefixed w T memo) = .ok o →
      ∃ st, o.tables.stat.find T.symbol.code T.symbol.code = some st ∧ st.supply = T := by
  have hl := ledger h
  refine ⟨fun k st hst => ?_, fun k hst u => ?_, fun c call hcall => hl.apply_in_range hcall,
    fun c w q memo => hl.issue_in_range w q memo, fun c w T memo o ho => hl.issuefixed_supply ho⟩
  · have hbook := hl.sound.backed k st hst
    have hcap := hl.capped k st hst
    have hcode := stat_code hst
    refine ⟨hcode ▸ hbook.total, hl.supply_nonneg hst, hcap.le, hcap.small, hcap.symbol, fun u row hrow => ?_⟩
    have hfind := book_of_find hrow
    have hpos := hl.sound.nonneg k u
    rw [Book.amount_eq hfind] at hpos
    exact ⟨hpos, hbook.symbol u _ (hcode.symm ▸ hfind)⟩
  · have hnone := hl.sound.blank k hst u
    unfold book at hnone
    exact Option.map_eq_none_iff.1 hnone

theorem ledger_sound_alice : ∃ o st,
    apply (Tiny.env.ctx Tiny.funded Name.eosio_token (System.active Tiny.alice)) Tiny.funded.token
      (.issuefixed Tiny.alice ⟨3000, Symbol.EOS⟩ []) = .ok o ∧
    o.tables.stat.find Symbol.EOS.code Symbol.EOS.code = some st ∧ st.supply = ⟨3000, Symbol.EOS⟩ := by
  have hreach : Reachable Tiny.funded.token :=
    @Reachable.action (Tiny.env.ctx Tiny.genesis Name.eosio_token (System.active Tiny.alice)) _
      (.issue Tiny.alice ⟨1000, Symbol.EOS⟩ []) _
      (@Reachable.action (Tiny.env.ctx Tiny.genesis Name.eosio_token (System.active Name.eosio_token)) _
        (.create Tiny.alice ⟨5000, Symbol.EOS⟩) _ .empty rfl) rfl
  obtain ⟨o, ho⟩ : ∃ o, apply (Tiny.env.ctx Tiny.funded Name.eosio_token (System.active Tiny.alice))
      Tiny.funded.token (.issuefixed Tiny.alice ⟨3000, Symbol.EOS⟩ []) = .ok o := ⟨_, rfl⟩
  obtain ⟨st, hst, hsupply⟩ := (ledger_sound hreach).2.2.2.2 _ _ _ _ _ ho
  exact ⟨o, st, ho, hst, hsupply⟩

end Vaulta.Token
