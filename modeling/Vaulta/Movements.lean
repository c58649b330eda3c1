import Vaulta.Effects

/-!
# How tokens move

What each action does to the balances alone. Tokens appear when they are issued,
disappear when they are retired, and otherwise go from one account to another.
-/

namespace Vaulta

theorem State.eos_eq {σ : Type} (s : State σ) (u : Name) :
    s.eos u = (book s.token.accounts).amount Symbol.EOS.code u := by
  unfold State.eos Book.amount book
  cases s.token.accounts.find u Symbol.EOS.code <;> rfl

theorem State.xyz_eq {σ : Type} (s : State σ) (k : SymbolCode) (u : Name) :
    s.xyz k u = (book s.system.accounts).amount k u := by
  unfold State.xyz Book.amount book
  cases s.system.accounts.find u k <;> rfl

/-! ## Rows that come and go empty -/

section Empty

variable {ρ : Type} [PrimaryKey ρ SymbolCode] [Holding ρ] {t t' : MultiIndex Name Name SymbolCode ρ}

theorem book_of_emplace {u p : Name} {row : ρ} (h : t.emplace u p row = .ok t') :
    book t u (Holding.balance row).symbol.code = none ∧
      book t' = (book t).set u (Holding.balance row).symbol.code (some (Holding.balance row)) := by
  obtain ⟨hnone, rfl⟩ := MultiIndex.emplace_eq_ok.1 h
  rw [← MultiIndex.find_eq_none, Holding.key_eq] at hnone
  exact ⟨book_of_none hnone, by rw [book_grow, book_store]⟩

theorem book_of_erase {u : Name} {k : SymbolCode} (h : t.erase u k = .ok t') :
    book t' = (book t).set u k none := by
  obtain ⟨-, rfl⟩ := MultiIndex.erase_eq_ok.1 h
  rw [book_shrink, book_remove]

theorem amount_of_emplace {u p : Name} {row : ρ} (h : t.emplace u p row = .ok t')
    (hzero : (Holding.balance row).val = 0) (k : SymbolCode) : (book t').amount k = (book t).amount k := by
  obtain ⟨hnone, hbook⟩ := book_of_emplace h
  rw [hbook]
  exact Book.amount_set_zero (by rw [Option.elim_some, hzero, Book.amount_none hnone]) k

theorem amount_of_erase {u : Name} {k : SymbolCode} {row : ρ} (h : t.erase u k = .ok t')
    (hrow : t.find u k = some row) (hzero : (Holding.balance row).val = 0) (k' : SymbolCode) :
    (book t').amount k' = (book t).amount k' := by
  rw [book_of_erase h]
  exact Book.amount_set_zero (by rw [Option.elim_none, Book.amount_eq (book_of_find hrow), hzero]) k'

end Empty

/-! ## `eosio.token` -/

namespace Token

inductive Flow (c : Ctx) (t t' : Accounts) : Call → Prop
  | issued {call : Call} {issuer : Name} {q : Asset} (hcall : call.issues = true)
      (hauth : c.has_auth issuer = true)
      (h : ∀ k, (book t').amount k = gained ((book t).amount k) issuer (q.of k)) : Flow c t t' call
  | retired {issuer : Name} {q : Asset} {memo : Memo} (hauth : c.has_auth issuer = true)
      (h : ∀ k, (book t').amount k = gained ((book t).amount k) issuer (-q.of k)) :
      Flow c t t' (.retire q memo)
  | transferred {u w : Name} {q : Asset} {memo : Memo} (hne : u ≠ w) (hauth : c.has_auth u = true)
      (hpos : 0 < q.val) (h : ∀ k, (book t').amount k = moved ((book t).amount k) u w (q.of k)) :
      Flow c t t' (.transfer u w q memo)
  | still {call : Call} (hcall : ∀ u w q memo, call ≠ .transfer u w q memo)
      (h : ∀ k, (book t').amount k = (book t).amount k) : Flow c t t' call

theorem Effect.flow {c : Ctx} {t : Tables} {call : Call} {o : Outcome Tables} (h : Effect c t call o) :
    Flow c t.accounts o.tables.accounts call := by
  cases h with
  | create => exact .still (by simp) fun _ => rfl
  | issue hcall hauth hvalid hpos _ _ _ _ hadd =>
    have hr := ((Asset.is_valid_iff _).1 hvalid).1
    exact .issued hcall hauth (Book.amount_credit ⟨by omega, hr.2⟩ (credit_of_add_balance hadd))
  | setmaxsupply => exact .still (by simp) fun _ => rfl
  | retire hauth _ hpos _ _ _ hsub =>
    exact .retired hauth (Book.amount_debit (by omega) (debit_of_sub_balance hsub))
  | transfer hne hauth _ _ hvalid hpos _ _ hmove =>
    have hr := ((Asset.is_valid_iff _).1 hvalid).1
    exact .transferred hne hauth hpos (hmove.amount hpos hr.2)
  | opened _ _ _ _ hadd => exact .still (by simp) (amount_of_emplace hadd rfl)
  | open_idle => exact .still (by simp) fun _ => rfl
  | closed _ hrow hzero herase => exact .still (by simp) (amount_of_erase herase hrow hzero)

end Token

/-! ## The system contract -/

/-- A note that somebody's tokens were swapped on the way. -/
def Action.Traces (a : Action) : Prop := ∃ account quantity, a.call = .swaptrace account quantity

namespace System

/-- The balances, and the payout and the note that go with the change. -/
inductive Flow (c : Ctx) (t : Tables) (t' : Accounts) : Call → List Action → Prop
  | minted {m : Asset} (h : ∀ k, (book t').amount k = gained ((book t.accounts).amount k) c.self (m.of k)) :
      Flow c t t' (.init m) []
  | transferred {u w : Name} {q : Asset} {memo : Memo} {st : CurrencyStats} (hne : u ≠ w)
      (hauth : c.has_auth u = true) (hst : t.stat.find q.symbol.code q.symbol.code = some st)
      (hsym : q.symbol = st.supply.symbol) (hpos : 0 < q.val)
      (h : ∀ k, (book t').amount k = moved ((book t.accounts).amount k) u w (q.of k)) :
      Flow c t t' (.transfer u w q memo) (if w = c.self then [credit_action c u q] else [])
  | swapped {call : SysCall} {account : Name} {q : Asset} {rest : List Action}
      (hauth : c.has_auth account = true) (hcfg : t.config.find c.self () = some ⟨q.symbol⟩)
      (hpos : 0 < q.val)
      (h : ∀ k, (book t').amount k = moved ((book t.accounts).amount k) account c.self (q.of k))
      (hrest : ∀ a ∈ rest, ¬ a.Traces) :
      Flow c t t' (.sys call) (swaptrace_action c account q :: credit_action c account q :: rest)
  | still {call : Call} {inline : List Action} (hinit : ∀ m, call ≠ .init m)
      (hcall : ∀ u w q memo, call ≠ .transfer u w q memo)
      (h : ∀ k, (book t').amount k = (book t.accounts).amount k) (hrest : ∀ a ∈ inline, ¬ a.Traces) :
      Flow c t t' call inline

theorem Follow.not_traces {c : Ctx} {account : Name} {a : Action} (h : Follow c account a) : ¬ a.Traces := by
  rintro ⟨_, _, hcall⟩
  cases h <;> cases hcall

theorem not_traces_transfer (code auth u w : Name) (q : Asset) (memo : Memo) :
    ¬ (transfer_action code auth u w q memo).Traces := by
  rintro ⟨_, _, hcall⟩
  cases hcall

theorem Effect.flow {c : View} {t : Tables} {call : Call} {o : Outcome Tables} (h : Effect c t call o) :
    Flow c.toCtx t o.tables.accounts call o.inline := by
  cases h with
  | init _ _ hvalid hpos _ _ hadd =>
    have hr := ((Asset.is_valid_iff _).1 hvalid).1
    exact .minted (Book.amount_credit ⟨by omega, hr.2⟩ (credit_of_add_balance hadd))
  | transfer hne hauth _ hst hvalid hpos hsym _ hmove =>
    have hr := ((Asset.is_valid_iff _).1 hvalid).1
    exact .transferred hne hauth hst hsym hpos (hmove.amount hpos hr.2)
  | opened _ _ _ _ hadd => exact .still (by simp) (by simp) (amount_of_emplace hadd rfl) (by simp)
  | closed _ hrow hzero herase =>
    exact .still (by simp) (by simp) (amount_of_erase herase hrow hzero) (by simp)
  | blocked => exact .still (by simp) (by simp) (fun _ => rfl) (by simp)
  | swapto_eos => exact .still (by simp) (by simp) (fun _ => rfl) (by simp [not_traces_transfer])
  | swapto_xyz => exact .still (by simp) (by simp) (fun _ => rfl) (by simp [not_traces_transfer])
  | excess => exact .still (by simp) (by simp) (fun _ => rfl) (by simp [not_traces_transfer])
  | traced => exact .still (by simp) (by simp) (fun _ => rfl) (by simp)
  | idle hcall =>
    refine .still ?_ ?_ (fun _ => rfl) (by simp)
    · rintro m rfl; cases hcall
    · rintro u w q memo rfl; cases hcall
  | swapped hauth hswap hrest =>
    exact .swapped hauth hswap.symbol hswap.pos (hswap.moved.amount hswap.pos hswap.small)
      fun a ha => (hrest a ha).not_traces
  | passed hauth hrest =>
    exact .still (by simp) (by simp) (fun _ => rfl) fun a ha => (hrest a ha).not_traces

end System

end Vaulta
