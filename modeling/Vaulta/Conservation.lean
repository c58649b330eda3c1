import Vaulta.Movements

/-!
# The XYZ ledger

Before `init` there is nothing. After it there is one token, all of it was issued at
once, and it only goes from one account to another.
-/

namespace Vaulta

namespace System

/-- Before `init`. The table of blocked recipients is in use already. -/
structure Blank (t : Tables) : Prop where
  config : t.config = .empty
  stat : t.stat = .empty
  accounts : t.accounts = .empty

/-- After `init` with `m`. -/
structure Minted (contract : Name) (m : Asset) (t : Tables) : Prop where
  valid : m.is_valid = true
  pos : 0 < m.val
  config : ∀ n k r, t.config.rows n k = some r ↔ n = contract ∧ r = ⟨⟨m.symbol⟩, contract⟩
  stat : ∀ n k r, t.stat.rows n k = some r ↔
    n = m.symbol.code ∧ k = m.symbol.code ∧ r = ⟨⟨m, m, contract⟩, contract⟩
  only : (book t.accounts).Only m.symbol
  sound : (book t.accounts).Sound m.symbol m.val

namespace Blank

variable {t : Tables}

theorem no_config (h : Blank t) (n : Name) (k : Unit) : t.config.find n k = none := by rw [h.config]; rfl

theorem no_stat (h : Blank t) (n k : SymbolCode) : t.stat.find n k = none := by rw [h.stat]; rfl

theorem no_account (h : Blank t) (u : Name) (k : SymbolCode) : t.accounts.find u k = none := by
  rw [h.accounts]; rfl

end Blank

namespace Minted

variable {contract : Name} {m : Asset} {t : Tables}

theorem small (h : Minted contract m t) : m.val ≤ 2 ^ 62 - 1 := ((Asset.is_valid_iff m).1 h.valid).1.2

theorem symbol_valid (h : Minted contract m t) : m.symbol.is_valid = true := ((Asset.is_valid_iff m).1 h.valid).2

theorem find_config (h : Minted contract m t) : t.config.find contract () = some ⟨m.symbol⟩ :=
  MultiIndex.find_eq_some.2 ⟨contract, (h.config _ _ _).2 ⟨rfl, rfl⟩⟩

theorem find_stat (h : Minted contract m t) :
    t.stat.find m.symbol.code m.symbol.code = some ⟨m, m, contract⟩ :=
  MultiIndex.find_eq_some.2 ⟨contract, (h.stat _ _ _).2 ⟨rfl, rfl, rfl⟩⟩

theorem config_eq (h : Minted contract m t) {symbol : Symbol} (hc : t.config.find contract () = some ⟨symbol⟩) :
    symbol = m.symbol := by
  rw [h.find_config, Option.some.injEq, Config.mk.injEq] at hc
  exact hc.symm

theorem stat_eq (h : Minted contract m t) {n k : SymbolCode} {st : CurrencyStats} (hs : t.stat.find n k = some st) :
    st = ⟨m, m, contract⟩ := by
  obtain ⟨p, hp⟩ := MultiIndex.find_eq_some.1 hs
  obtain ⟨-, -, hr⟩ := (h.stat _ _ _).1 hp
  exact congrArg Stored.row hr

end Minted

/-! ## One action -/

theorem minted_of_init {c : View} {t : Tables} {m : Asset} {o : Outcome Tables} (hb : Blank t)
    (h : Effect c t (.init m) o) : Minted c.self m o.tables := by
  cases h with
  | idle hcall => cases hcall
  | init _ _ hvalid hpos hconfig hstat hadd =>
    have hr := ((Asset.is_valid_iff m).1 hvalid).1
    obtain ⟨-, rfl⟩ := MultiIndex.emplace_eq_ok.1 hconfig
    obtain ⟨-, rfl⟩ := MultiIndex.emplace_eq_ok.1 hstat
    have hbook := credit_of_add_balance hadd
    have hnone : ∀ u k, book t.accounts u k = none := fun u k => book_of_none (hb.no_account u k)
    have hset := (Book.credit_eq_ok ⟨by omega, hr.2⟩).1 hbook
    refine ⟨hvalid, hpos, ?_, ?_, ?_, ?_⟩
    · intro n k r
      rw [MultiIndex.grow_rows, hb.config, MultiIndex.store_empty_rows]
      exact and_congr_right fun _ => and_iff_right rfl
    · intro n k r
      rw [MultiIndex.grow_rows, hb.stat, MultiIndex.store_empty_rows]
      rfl
    · obtain ⟨a', -, hs, -, -, -, hset⟩ := hset
      rw [hset]
      have hempty : (book t.accounts).Only m.symbol := fun u k a ha => by rw [hnone] at ha; cases ha
      exact hempty.set _ _ (by simp [hs])
    · have hzero : (book t.accounts).Sound m.symbol 0 := .of_none fun u => hnone u _
      have := hzero.credit (by omega) hr.2 (fun _ => rfl) hbook
      rwa [zero_add, Asset.of_self] at this

theorem amount_of_init {c : View} {t : Tables} {m : Asset} {o : Outcome Tables} (hb : Blank t)
    (h : Effect c t (.init m) o) (k : SymbolCode) (u : Name) :
    (book o.tables.accounts).amount k u = if u = c.self then m.of k else 0 := by
  cases h with
  | idle hcall => cases hcall
  | init _ _ hvalid hpos _ _ hadd =>
    have hr := ((Asset.is_valid_iff m).1 hvalid).1
    rw [Book.amount_credit ⟨by omega, hr.2⟩ (credit_of_add_balance hadd), gained,
      Book.amount_none (book_of_none (hb.no_account u k)), zero_add]

theorem blank_step {c : View} {t : Tables} {call : Call} {o : Outcome Tables} (hb : Blank t)
    (h : Effect c t call o) (hinit : ∀ m, call ≠ .init m) : Blank o.tables := by
  cases h with
  | init => exact absurd rfl (hinit _)
  | transfer _ _ _ hst => rw [hb.no_stat] at hst; cases hst
  | opened _ hst => rw [hb.no_stat] at hst; cases hst
  | closed _ hrow => rw [hb.no_account] at hrow; cases hrow
  | blocked => exact ⟨hb.config, hb.stat, hb.accounts⟩
  | swapped _ hswap => have := hswap.symbol; rw [hb.no_config] at this; cases this
  | swapto_eos | swapto_xyz | excess | traced | idle | passed => exact hb

theorem Minted.accounts {contract : Name} {m : Asset} {t : Tables} (h : Minted contract m t) {accounts : Accounts}
    (honly : (book accounts).Only m.symbol) (hsound : (book accounts).Sound m.symbol m.val) :
    Minted contract m { t with accounts } :=
  ⟨h.valid, h.pos, h.config, h.stat, honly, hsound⟩

theorem Minted.moved {contract : Name} {m q : Asset} {t : Tables} (h : Minted contract m t) {c : Ctx}
    {accounts : Accounts} {u w p : Name} (hpos : 0 < q.val) (hle : q.val ≤ 2 ^ 62 - 1)
    (hm : Moved c t.accounts accounts u w q p) : Minted contract m { t with accounts } :=
  h.accounts (h.only.move hpos hle hm.book) (h.sound.move hpos hle hm.book)

theorem Minted.no_init {c : View} {t : Tables} {m : Asset} (h : Minted c.self m t) (m' : Asset)
    {o : Outcome Tables} : ¬ Effect c t (.init m') o := by
  intro he
  cases he with
  | init _ hnew => rw [h.find_config] at hnew; cases hnew
  | idle hidle => cases hidle

/-- Whatever happens afterwards, the token stays as it was issued. -/
theorem minted_step {c : View} {t : Tables} {m : Asset} {call : Call} {o : Outcome Tables}
    (h : Minted c.self m t) (he : Effect c t call o) : Minted c.self m o.tables := by
  cases he with
  | init _ hnew => rw [h.find_config] at hnew; cases hnew
  | transfer _ _ _ _ hvalid hpos _ _ hmove =>
    exact h.moved hpos ((Asset.is_valid_iff _).1 hvalid).1.2 hmove
  | @opened owner ram_payer symbol st accounts _ hst hsym _ hadd =>
    obtain ⟨hnone, hbook⟩ := book_of_emplace hadd
    have hs : symbol = m.symbol := by rw [← hsym, h.stat_eq hst]
    simp only [holding] at hbook hnone
    refine h.accounts ?_ ?_ <;> rw [hbook]
    · exact h.only.set _ _ (by simp [hs])
    · exact h.sound.set_zero _ (by simp [hs]) rfl (Book.amount_none hnone)
  | closed _ hrow hzero herase =>
    have hbook := book_of_erase herase
    refine h.accounts ?_ ?_ <;> rw [hbook]
    · exact h.only.set _ _ (by simp)
    · exact h.sound.set_zero _ (by simp) rfl (by rw [Book.amount_eq (book_of_find hrow)]; exact hzero)
  | blocked => exact ⟨h.valid, h.pos, h.config, h.stat, h.only, h.sound⟩
  | swapped _ hswap => exact h.moved hswap.pos hswap.small hswap.moved
  | swapto_eos | swapto_xyz | excess | traced | idle | passed => exact h

/-! ## Sums and differences stay in range -/

/-- The messages of a sum or a difference that is no amount any more. -/
def RangeError (msg : String) : Prop :=
  msg ∈ ["addition underflow", "addition overflow", "subtraction underflow", "subtraction overflow"]

instance (msg : String) : Decidable (RangeError msg) := inferInstanceAs (Decidable (_ ∈ _))

/-- Whatever makes `x` fail, it is not that. -/
def InRange {α : Type} (x : Except String α) : Prop := ∀ msg, x = .error msg → ¬ RangeError msg

namespace InRange

variable {α β : Type}

theorem ok (a : α) : InRange (.ok a : Except String α) := by
  rintro msg ⟨⟩

theorem error {msg : String} (h : ¬ RangeError msg) : InRange (.error msg : Except String α) := by
  rintro _ ⟨⟩
  exact h

theorem bind {x : Except String α} {f : α → Except String β} (hx : InRange x)
    (hf : ∀ a, x = .ok a → InRange (f a)) : InRange (x >>= f) := by
  intro msg h
  rcases bind_eq_error.1 h with h | ⟨a, ha, h⟩
  · exact hx msg h
  · exact hf a ha msg h

theorem check {p : Prop} [Decidable p] {msg : String} (h : ¬ RangeError msg) : InRange (check p msg) := by
  intro msg' he
  rw [(check_eq_error.1 he).2]
  exact h

theorem require_auth (c : Ctx) (n : Name) : InRange (c.require_auth n) := by
  refine InRange.check fun h => ?_
  -- The messages begin with different letters.
  have hlist : ∀ msg : String, "missing authority of " ++ n.to_string = msg →
      "missing authority of ".toList ++ n.to_string.toList = msg.toList := by
    rintro _ rfl
    exact String.toList_append.symm
  simp only [RangeError, List.mem_cons, List.not_mem_nil, or_false] at h
  rcases h with h | h | h | h <;> cases hlist _ h

theorem get {π σ κ ρ : Type} [PrimaryKey ρ κ] {t : MultiIndex π σ κ ρ} {s : σ} {k : κ} {msg : String}
    (h : ¬ RangeError msg) : InRange (t.get s k msg) := by
  unfold MultiIndex.get
  split
  · exact .ok _
  · exact .error h

theorem emplace {π σ κ ρ : Type} [PrimaryKey ρ κ] [DecidableEq σ] [DecidableEq κ]
    (t : MultiIndex π σ κ ρ) (s : σ) (p : π) (row : ρ) : InRange (t.emplace s p row) :=
  .bind (.check (by decide)) fun _ _ => .ok _

theorem modify {π σ κ ρ : Type} [PrimaryKey ρ κ] [DecidableEq σ] [DecidableEq κ]
    {t : MultiIndex π σ κ ρ} {s : σ} {k : κ} (p : Option π) {f : ρ → Except String ρ}
    (h : ∀ row, t.find s k = some row → InRange (f row)) : InRange (t.modify s k p f) := by
  unfold MultiIndex.modify
  split
  · exact .error (by decide)
  · rename_i r hr
    refine .bind (h r.row (MultiIndex.find_eq_some.2 ⟨r.payer, hr⟩)) fun _ _ => ?_
    exact .bind (.check (by decide)) fun _ _ => .ok _

end InRange

theorem get_token_symbol_in_range (c : Ctx) (t : Tables) : InRange (get_token_symbol c t) :=
  .bind (.get (by decide)) fun _ _ => .ok _

theorem credit_eos_to_in_range (c : Ctx) (account : Name) (q : Asset) :
    InRange (credit_eos_to c account q) := by
  refine .bind (.check (by decide)) fun _ _ => .bind ?_ fun _ _ => .ok _
  exact .bind (.check (by decide)) fun _ _ => .bind (.check (by decide)) fun _ _ => .ok _

section Minted

variable {m q : Asset} {t : Tables} {c : Ctx}

theorem sub_balance_in_range (h : Minted c.self m t) (hpos : 0 < q.val) (hsym : q.symbol = m.symbol)
    (u : Name) : InRange (sub_balance t.accounts u q) := by
  intro msg he
  have hd : (book t.accounts).debit u q = .error msg := by rw [← sub_balance_book, he]; rfl
  rcases h.sound.debit_error h.small hpos hsym hd with rfl | rfl <;> decide

theorem add_balance_ok (h : Minted c.self m t) (hpos : 0 < q.val) (hsym : q.symbol = m.symbol)
    {u : Name} {accounts : Accounts} (hsub : sub_balance t.accounts u q = .ok accounts) (w p : Name) :
    ∃ accounts', add_balance c accounts w q p = .ok accounts' := by
  -- Together all balances are the supply, so there is room for what was just taken away.
  have hs := h.sound.debit (by omega) (debit_of_sub_balance hsub)
  have hof : q.of m.symbol.code = q.val := by rw [← hsym, Asset.of_self]
  have hsmall := h.small
  rw [hof] at hs
  obtain ⟨b, hb⟩ := hs.credit_ok (by omega) (by omega) hsym w
  obtain ⟨accounts', ha, -⟩ := add_balance_of_credit c accounts w p q hb
  exact ⟨accounts', ha⟩

theorem add_balance_in_range (h : Minted c.self m t) (hpos : 0 < q.val) (hsym : q.symbol = m.symbol)
    {u : Name} {accounts : Accounts} (hsub : sub_balance t.accounts u q = .ok accounts) (w p : Name) :
    InRange (add_balance c accounts w q p) := by
  obtain ⟨accounts', ha⟩ := add_balance_ok h hpos hsym hsub w p
  rw [ha]
  exact .ok _

end Minted

def Kept (contract : Name) (t : Tables) : Prop := Blank t ∨ ∃ m, Minted contract m t

section Callers

variable {c : Ctx} {t : Tables}

theorem Kept.moves_in_range (h : Kept c.self t) {q : Asset} (hpos : 0 < q.val)
    (hsym : ∀ m, Minted c.self m t → q.symbol = m.symbol) (hblank : ¬ Blank t) (u w p : Name)
    {α : Type} {f : Accounts → Except String α} (hf : ∀ a, InRange (f a)) :
    InRange (sub_balance t.accounts u q >>= fun a => add_balance c a w q p >>= f) := by
  obtain ⟨m, hm⟩ := h.resolve_left hblank
  refine .bind (sub_balance_in_range hm hpos (hsym m hm) u) fun _ hsub => ?_
  exact .bind (add_balance_in_range hm hpos (hsym m hm) hsub w p) fun _ _ => hf _

theorem Kept.transfer_in_range (h : Kept c.self t) (u w : Name) (q : Asset) (memo : Memo) :
    InRange (transfer c t u w q memo) := by
  refine .bind (.check (by decide)) fun _ _ => .bind (.require_auth _ _) fun _ _ =>
    .bind (.check (by decide)) fun _ _ => .bind (.get (by decide)) fun st hst =>
    .bind (.check (by decide)) fun _ _ => .bind (.check (by decide)) fun _ hpos =>
    .bind (.check (by decide)) fun _ hsym => .bind (.check (by decide)) fun _ _ => ?_
  rw [check_eq_ok, Asset.amount_pos_iff] at hpos
  rw [check_eq_ok] at hsym
  rw [MultiIndex.get_eq_ok] at hst
  refine h.moves_in_range hpos (fun m hm => ?_) (fun hb => ?_) _ _ _ fun accounts => ?_
  · rw [hsym, hm.stat_eq hst]
  · rw [hb.no_stat] at hst
    cases hst
  · dsimp only
    split
    · refine .bind (get_token_symbol_in_range _ _) fun _ _ => .bind (.check (by decide)) fun _ _ => ?_
      exact .bind (credit_eos_to_in_range _ _ _) fun _ _ => .ok _
    · exact .ok _

theorem Kept.swap_before_forwarding_in_range (h : Kept c.self t) (u : Name) (q : Asset) :
    InRange (swap_before_forwarding c t u q) := by
  refine .bind (get_token_symbol_in_range _ _) fun symbol hcfg => .bind (.check (by decide)) fun _ hsym =>
    .bind (.check (by decide)) fun _ hpos => ?_
  rw [check_eq_ok, Asset.amount_pos_iff] at hpos
  rw [check_eq_ok] at hsym
  rw [get_token_symbol_eq_ok] at hcfg
  refine h.moves_in_range hpos (fun m hm => ?_) (fun hb => ?_) _ _ _ fun accounts => ?_
  · rw [hsym, hm.config_eq hcfg]
  · rw [hb.no_config] at hcfg
    cases hcfg
  · exact .bind (credit_eos_to_in_range _ _ _) fun _ _ => .ok _

theorem Kept.init_in_range (h : Kept c.self t) (m : Asset) : InRange (init c t m) := by
  refine .bind (.require_auth _ _) fun _ _ => .bind (.check (by decide)) fun _ hnew =>
    .bind (.check (by decide)) fun _ _ => .bind (.check (by decide)) fun _ _ => ?_
  rw [check_eq_ok] at hnew
  rcases h with hb | ⟨m', hm⟩
  · refine .bind ?_ fun _ _ => .bind (.emplace _ _ _ _) fun _ _ => .bind ?_ fun _ _ => .ok _
    · unfold MultiIndex.set
      rw [show t.config.find c.self (primary_key (⟨m.symbol⟩ : Config)) = none from hnew]
      exact .emplace _ _ _ _
    · unfold add_balance
      rw [hb.no_account]
      exact .emplace _ _ _ _
  · rw [hm.find_config] at hnew
    cases hnew

end Callers

end System

/-! ## Any run -/

namespace Env

variable {σ : Type} (e : Env σ)

def inits (trace : List Queued) : List Asset :=
  trace.filterMap fun q =>
    match q.act.call with
    | .init m => if q.act.account = e.self then some m else none
    | _ => none

variable {e}

theorem inits_cons_init {q : Queued} {m : Asset} (hacc : q.act.account = e.self) (hcall : q.act.call = .init m)
    (trace : List Queued) : e.inits (q :: trace) = m :: e.inits trace := by
  simp [inits, hcall, hacc]

theorem inits_cons {q : Queued} (h : q.act.account = e.self → ∀ m, q.act.call ≠ .init m)
    (trace : List Queued) : e.inits (q :: trace) = e.inits trace := by
  unfold inits
  refine List.filterMap_cons_none ?_
  split
  · rename_i m hcall
    rw [if_neg fun hacc => h hacc m hcall]
  · rfl

theorem minted_exec {s s' : State σ} {a : Action} {queued : List Action} {m : Asset}
    (h : e.exec s a = .ok (s', queued)) (hm : System.Minted e.self m s.system) :
    System.Minted e.self m s'.system := by
  cases exec_effect h with
  | system _ heffect => exact System.minted_step hm heffect
  | token | swap_in | eosio | nobody => exact hm

theorem minted_commits {s s' : State σ} {acts : List Action} {m : Asset} (h : e.Commits s acts s')
    (hm : System.Minted e.self m s.system) : System.Minted e.self m s'.system :=
  h.kept (fun _ _ _ _ hexec hs => minted_exec hexec hs) hm

/-- What `init` did is all that ever happens to the token. -/
def Conserved (c : Config σ) : Prop :=
  (e.inits c.trace = [] ∧ System.Blank c.state.system) ∨
    ∃ m, e.inits c.trace = [m] ∧ System.Minted e.self m c.state.system

theorem conserved {c : Config σ} (h : e.Reachable c) : e.Conserved c := by
  refine h.invariant e.Conserved ?_ ?_ ?_
  · rintro s ⟨hs, -⟩
    exact .inl ⟨rfl, by rw [hs]; exact ⟨rfl, rfl, rfl⟩⟩
  · exact fun _ _ _ h _ => h
  · intro s s' q rest trace queued h hexec
    by_cases hinit : q.act.account = e.self ∧ ∃ m, q.act.call = .init m
    · obtain ⟨hacc, m, hcall⟩ := hinit
      obtain ⟨o, heffect, rfl, -⟩ := exec_system hacc hexec
      rw [hcall] at heffect
      rcases h with ⟨htrace, hb⟩ | ⟨m', -, hm⟩
      · refine .inr ⟨m, ?_, System.minted_of_init hb heffect⟩
        rw [inits_cons_init hacc hcall, htrace]
      · exact absurd heffect (hm.no_init m)
    · have hne : q.act.account = e.self → ∀ m, q.act.call ≠ .init m :=
        fun hacc m hcall => hinit ⟨hacc, m, hcall⟩
      unfold Conserved
      rw [inits_cons hne]
      rcases h with ⟨htrace, hb⟩ | ⟨m, htrace, hm⟩
      · refine .inl ⟨htrace, ?_⟩
        cases exec_effect hexec with
        | system hacc heffect => exact System.blank_step hb heffect (hne hacc)
        | token | swap_in | eosio | nobody => exact hb
      · exact .inr ⟨m, htrace, minted_exec hexec hm⟩

theorem Initialised.blank {m : Asset} {s : State σ} (h : e.Initialised m s) :
    ∃ s₀ authorization o, System.Blank s₀.system ∧
      System.Effect (e.view s₀ authorization) s₀.system (.init m) o ∧ s = { s₀ with system := o.tables } := by
  obtain ⟨s₀, trace, authorization, hreach, hexec⟩ := h
  obtain ⟨o, heffect, rfl, -⟩ := exec_system rfl hexec
  rcases conserved hreach with ⟨-, hb⟩ | ⟨m', -, hm⟩
  · exact ⟨s₀, authorization, o, hb, heffect, rfl⟩
  · exact absurd heffect (hm.no_init m)

theorem Initialised.minted {m : Asset} {s : State σ} (h : e.Initialised m s) :
    System.Minted e.self m s.system := by
  obtain ⟨s₀, authorization, o, hb, heffect, rfl⟩ := h.blank
  exact System.minted_of_init hb heffect

theorem Initialised.xyz {m : Asset} {s : State σ} (h : e.Initialised m s) (u : Name) :
    s.xyz m.symbol.code u = if u = e.self then m.val else 0 := by
  obtain ⟨s₀, authorization, o, hb, heffect, rfl⟩ := h.blank
  rw [State.xyz_eq, System.amount_of_init hb heffect, Asset.of_self]
  rfl

theorem later_minted {m : Asset} {s₀ : State σ} {c : Config σ} (hinit : e.Initialised m s₀)
    (h : e.Later s₀ c) : System.Minted e.self m c.state.system := by
  refine h.kept (fun _ _ _ _ hexec hs => minted_exec hexec hs) ?_
  rintro s rfl
  exact hinit.minted

theorem after_minted {m : Asset} {s₀ : State σ} {c : Config σ} (hinit : e.Initialised m s₀)
    (h : e.After s₀ c) : System.Minted e.self m c.state.system := later_minted hinit h.later

/-- **The ledger is conserved.** Before `init` all its tables are empty. Afterwards there
is one symbol and one `stat` row, every balance is of that symbol and none is negative,
and all of them together are what `init` issued. So no sum or difference of balances
ever leaves the range of an amount. -/
theorem xyz_conserved {c : Config σ} (h : e.Reachable c) :
    ((e.inits c.trace = [] ∧ c.state.system.config = .empty ∧ c.state.system.stat = .empty ∧
        c.state.system.accounts = .empty) ∨
      ∃ m, e.inits c.trace = [m] ∧
        (∀ n k r, c.state.system.config.rows n k = some r ↔ n = e.self ∧ r = ⟨⟨m.symbol⟩, e.self⟩) ∧
        (∀ n k r, c.state.system.stat.rows n k = some r ↔
          n = m.symbol.code ∧ k = m.symbol.code ∧ r = ⟨⟨m, m, e.self⟩, e.self⟩) ∧
        (∀ u k r, c.state.system.accounts.rows u k = some r →
          k = m.symbol.code ∧ r.row.balance.symbol = m.symbol ∧ 0 ≤ r.row.balance.val) ∧
        ∑ u, c.state.xyz m.symbol.code u = m.val) ∧
    ∀ ctx : Ctx, ctx.self = e.self →
      (∀ u w q memo, System.InRange (System.transfer ctx c.state.system u w q memo)) ∧
      (∀ u q, System.InRange (System.swap_before_forwarding ctx c.state.system u q)) ∧
      ∀ m, System.InRange (System.init ctx c.state.system m) := by
  have hc := conserved h
  constructor
  · rcases hc with ⟨htrace, hb⟩ | ⟨m, htrace, hm⟩
    · exact .inl ⟨htrace, hb.config, hb.stat, hb.accounts⟩
    · refine .inr ⟨m, htrace, hm.config, hm.stat, fun u k r hr => ?_, ?_⟩
      · have hbook := book_of_find (MultiIndex.find_eq_some.2 ⟨r.payer, hr⟩)
        have hsym := hm.only u k _ hbook
        have hk : k = m.symbol.code := by rw [← hsym]; exact (book_code hbook).symm
        refine ⟨hk, hsym, ?_⟩
        have := hm.sound.nonneg u
        rwa [← hk, Book.amount_eq hbook] at this
      · simp only [State.xyz_eq]
        exact hm.sound.total
  · rintro ctx hself
    have hkept : System.Kept ctx.self c.state.system := by
      rw [hself]
      rcases hc with ⟨-, hb⟩ | ⟨m, -, hm⟩
      · exact .inl hb
      · exact .inr ⟨m, hm⟩
    exact ⟨hkept.transfer_in_range, hkept.swap_before_forwarding_in_range, hkept.init_in_range⟩

/-- `alice` has swapped 100 units, and `bob` has 30 of them. -/
theorem xyz_conserved_both : ∃ s trace, Tiny.env.Reachable ⟨s, [], trace⟩ ∧
    Tiny.env.inits trace = [Tiny.max_supply] ∧ s.xyz Tiny.XYZ.code Tiny.alice = 70 ∧ s.xyz Tiny.XYZ.code Tiny.bob = 30 ∧
    ∑ u, s.xyz Tiny.XYZ.code u = 1000000 ∧
    System.InRange (System.transfer (Tiny.env.ctx s Tiny.env.self (System.active Tiny.bob)) s.system Tiny.bob Tiny.alice
      ⟨30, Tiny.XYZ⟩ []) := by
  have hinit : Tiny.env.Commits Tiny.funded [Tiny.init] Tiny.start := @Machine.commits_of_transact _ _ _ _ 20 _ _ _ rfl
  have hswap : Tiny.env.Commits Tiny.start [Tiny.swap] (Tiny.run Tiny.start [Tiny.swap]) :=
    @Machine.commits_of_transact _ _ _ _ 20 _ _ _ rfl
  have hgive : Tiny.env.Commits (Tiny.run Tiny.start [Tiny.swap]) [Tiny.give] Tiny.both :=
    @Machine.commits_of_transact _ _ _ _ 20 _ _ _ rfl
  obtain ⟨_, hreach⟩ := Tiny.reach_genesis.commit trivial Tiny.commits_fund
  obtain ⟨_, hreach⟩ := hreach.commit trivial hinit
  obtain ⟨_, hreach⟩ := hreach.commit trivial hswap
  obtain ⟨trace, hreach⟩ := hreach.commit trivial hgive
  have hrow : Tiny.both.system.stat.rows Tiny.XYZ.code Tiny.XYZ.code =
      some ⟨⟨Tiny.max_supply, Tiny.max_supply, Tiny.env.self⟩, Tiny.env.self⟩ := rfl
  obtain ⟨⟨-, -, hnone, -⟩ | ⟨m, htrace, -, hstat, -, hsum⟩, hrange⟩ := xyz_conserved hreach
  · rw [show Tiny.both.system.stat = .empty from hnone] at hrow
    cases hrow
  · obtain ⟨-, -, hm⟩ := (hstat _ _ _).1 hrow
    obtain rfl : Tiny.max_supply = m := congrArg (fun r => r.row.supply) hm
    exact ⟨_, trace, hreach, htrace, by decide, by decide, hsum, (hrange _ rfl).1 _ _ _ _⟩

end Env

end Vaulta
