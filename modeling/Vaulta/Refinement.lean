import Vaulta.Conservation

/-!
# The plain token inside

`system.entry.cpp` has rewritten the balances of `token.entry.cpp`: an unreleased row is
erased and made again, and somebody else pays for a new one. Whoever looks at supplies
and balances only, and at which actions fail, cannot tell the two tokens apart.
-/

namespace Vaulta

/-! ## The token of both -/

/-- The calls that both contracts take from everybody. -/
def Call.plain : Call → Bool
  | .transfer .. | .open_ .. | .close .. => true
  | _ => false

def Call.notified : Call → List Name
  | .transfer sender recipient _ _ => [sender, recipient]
  | _ => []

/-- What a token is to its users: its supplies, and which rows there are with how much in
them. -/
structure Plain where
  stat : SymbolCode → Option CurrencyStats
  book : Book Name

namespace Plain

inductive Step (has_auth is_account : Name → Bool) (p : Plain) : Call → Plain → Prop
  | transfer {sender recipient : Name} {q : Asset} {memo : Memo} {st : CurrencyStats} {b : Book Name}
      (hne : sender ≠ recipient) (hauth : has_auth sender = true) (hrec : is_account recipient = true)
      (hst : p.stat q.symbol.code = some st) (hvalid : q.is_valid = true) (hpos : 0 < q.val)
      (hsym : q.symbol = st.supply.symbol) (hmemo : memo.length ≤ 256)
      (hmove : p.book.move sender recipient q = .ok b) :
      Step has_auth is_account p (.transfer sender recipient q memo) ⟨p.stat, b⟩
  | opened {owner ram_payer : Name} {symbol : Symbol} {st : CurrencyStats} (hauth : has_auth ram_payer = true)
      (howner : is_account owner = true) (hst : p.stat symbol.code = some st) (hsym : st.supply.symbol = symbol)
      (hnone : p.book owner symbol.code = none) :
      Step has_auth is_account p (.open_ owner symbol ram_payer)
        ⟨p.stat, p.book.set owner symbol.code (some ⟨0, symbol⟩)⟩
  | kept {owner ram_payer : Name} {symbol : Symbol} {st : CurrencyStats} (hauth : has_auth ram_payer = true)
      (howner : is_account owner = true) (hst : p.stat symbol.code = some st) (hsym : st.supply.symbol = symbol)
      (hsome : p.book owner symbol.code ≠ none) :
      Step has_auth is_account p (.open_ owner symbol ram_payer) p
  | closed {owner : Name} {symbol : Symbol} {a : Asset} (hauth : has_auth owner = true)
      (hrow : p.book owner symbol.code = some a) (hzero : a.val = 0) :
      Step has_auth is_account p (.close owner symbol) ⟨p.stat, p.book.set owner symbol.code none⟩

theorem Step.det {has_auth is_account : Name → Bool} {p p₁ p₂ : Plain} {call : Call}
    (h1 : Step has_auth is_account p call p₁) (h2 : Step has_auth is_account p call p₂) : p₁ = p₂ := by
  cases h1 with
  | transfer _ _ _ _ _ _ _ _ hmove =>
    cases h2 with
    | transfer _ _ _ _ _ _ _ _ hmove' =>
      rw [hmove] at hmove'
      cases hmove'
      rfl
  | opened _ _ _ _ hnone =>
    cases h2 with
    | opened => rfl
    | kept _ _ _ _ hsome => exact absurd hnone hsome
  | kept _ _ _ _ hsome =>
    cases h2 with
    | opened _ _ _ _ hnone => exact absurd hnone hsome
    | kept => rfl
  | closed => cases h2; rfl

end Plain

theorem book_eq_none {ρ : Type} [PrimaryKey ρ SymbolCode] [Holding ρ] {t : MultiIndex Name Name SymbolCode ρ}
    {u : Name} {k : SymbolCode} : book t u k = none ↔ t.find u k = none := Option.map_eq_none_iff

theorem emplace_of_none {ρ : Type} [PrimaryKey ρ SymbolCode] [Holding ρ]
    {t : MultiIndex Name Name SymbolCode ρ} {u : Name} (p : Name) {r : ρ}
    (h : book t u (Holding.balance r).symbol.code = none) :
    ∃ t', t.emplace u p r = .ok t' ∧
      book t' = (book t).set u (Holding.balance r).symbol.code (some (Holding.balance r)) := by
  rw [book_eq_none, ← Holding.key_eq, MultiIndex.find_eq_none] at h
  have he := MultiIndex.emplace_eq_ok (p := p).2 ⟨h, rfl⟩
  exact ⟨_, he, (book_of_emplace he).2⟩

theorem erase_of_some {ρ : Type} [PrimaryKey ρ SymbolCode] [Holding ρ]
    {t : MultiIndex Name Name SymbolCode ρ} {u : Name} {k : SymbolCode} {a : Asset} (h : book t u k = some a) :
    ∃ t' row, t.find u k = some row ∧ Holding.balance row = a ∧ t.erase u k = .ok t' ∧
      book t' = (book t).set u k none := by
  obtain ⟨row, hrow, ha⟩ := Option.map_eq_some_iff.1 h
  have hne : t.rows u k ≠ none := by
    rw [ne_eq, ← MultiIndex.find_eq_none, hrow]
    exact Option.some_ne_none row
  have he := MultiIndex.erase_eq_ok.2 ⟨hne, rfl⟩
  exact ⟨_, row, hrow, ha, he, book_of_erase he⟩

/-! ## `token.entry.cpp` -/

namespace Token

def Tables.plain (t : Tables) : Plain := ⟨fun k => t.stat.find k k, book t.accounts⟩

theorem plain_step {c : Ctx} {t : Tables} {call : Call} (hcall : call.plain = true) {p : Plain} :
    (∃ o, apply c t call = .ok o ∧ o.tables.plain = p) ↔ t.plain.Step c.has_auth c.is_account call p := by
  cases call with
  | transfer sender recipient q memo =>
    simp only [apply, transfer_eq_ok]
    constructor
    · rintro ⟨o, ⟨st, accounts, hne, hauth, hrec, hst, hvalid, hpos, hsym, hmemo, hmove, rfl⟩, rfl⟩
      exact .transfer hne hauth hrec hst hvalid hpos hsym hmemo hmove.book
    · intro h
      cases h with
      | transfer hne hauth hrec hst hvalid hpos hsym hmemo hmove =>
        obtain ⟨accounts, hm, rfl⟩ := moved_of_move t.accounts sender recipient
          (if c.has_auth recipient then recipient else sender) q hmove
        exact ⟨_, ⟨_, accounts, hne, hauth, hrec, hst, hvalid, hpos, hsym, hmemo, hm, rfl⟩, rfl⟩
  | open_ owner symbol ram_payer =>
    simp only [apply, open_eq_ok]
    constructor
    · rintro ⟨o, ⟨st, hauth, howner, hst, hsym, ⟨hnone, accounts, hadd, rfl⟩ | ⟨hsome, rfl⟩⟩, rfl⟩
      · have hbook : book accounts = (book t.accounts).set owner symbol.code (some ⟨0, symbol⟩) :=
          (book_of_emplace hadd).2
        simp only [Tables.plain, hbook]
        exact .opened hauth howner hst hsym (book_eq_none.2 hnone)
      · exact .kept hauth howner hst hsym (fun h => hsome (book_eq_none.1 h))
    · intro h
      cases h with
      | opened hauth howner hst hsym hnone =>
        obtain ⟨accounts, hadd, hbook⟩ := emplace_of_none ram_payer (r := (⟨⟨0, symbol⟩⟩ : Account)) hnone
        refine ⟨_, ⟨_, hauth, howner, hst, hsym, .inl ⟨book_eq_none.1 hnone, accounts, hadd, rfl⟩⟩, ?_⟩
        simp only [Tables.plain, hbook, holding]
      | kept hauth howner hst hsym hsome =>
        exact ⟨_, ⟨_, hauth, howner, hst, hsym, .inr ⟨fun h => hsome (book_eq_none.2 h), rfl⟩⟩, rfl⟩
  | close owner symbol =>
    simp only [apply, close_eq_ok]
    constructor
    · rintro ⟨o, ⟨row, accounts, hauth, hrow, hzero, herase, rfl⟩, rfl⟩
      simp only [Tables.plain, book_of_erase herase]
      exact .closed hauth (book_of_find hrow) hzero
    · intro h
      cases h with
      | closed hauth hrow hzero =>
        obtain ⟨accounts, row, hfind, rfl, herase, hbook⟩ := erase_of_some hrow
        refine ⟨_, ⟨row, accounts, hauth, hfind, hzero, herase, rfl⟩, ?_⟩
        simp only [Tables.plain, hbook]
  | _ => cases hcall

end Token

/-! ## `system.entry.cpp` -/

namespace System

def Tables.plain (t : Tables) : Plain := ⟨fun k => t.stat.find k k, book t.accounts⟩

/-- Here the flags are left out too. The check of the symbol in a transfer to the contract
cannot fail, since there is only one symbol. -/
theorem plain_step {c : View} {t : Tables} {m : Asset} {call : Call} (hm : Minted c.self m t)
    (hcall : call.plain = true) {p : Plain} :
    (∃ o, apply c t call = .ok o ∧ o.tables.plain = p) ↔ t.plain.Step c.has_auth c.is_account call p := by
  cases call with
  | transfer sender recipient q memo =>
    simp only [apply, transfer_eq_ok]
    constructor
    · rintro ⟨o, ⟨st, accounts, hne, hauth, hrec, hst, hvalid, hpos, hsym, hmemo, hmove, -, rfl⟩, rfl⟩
      exact .transfer hne hauth hrec hst hvalid hpos hsym hmemo hmove.book
    · intro h
      cases h with
      | transfer hne hauth hrec hst hvalid hpos hsym hmemo hmove =>
        obtain ⟨accounts, hmoved, rfl⟩ := moved_of_move c.toCtx t.accounts sender recipient
          (if c.has_auth recipient then recipient else sender) q hmove
        have hcfg : recipient = c.self → t.config.find c.self () = some ⟨q.symbol⟩ := fun _ => by
          rw [hsym, hm.stat_eq hst, hm.find_config]
        exact ⟨_, ⟨_, accounts, hne, hauth, hrec, hst, hvalid, hpos, hsym, hmemo, hmoved, hcfg, rfl⟩, rfl⟩
  | open_ owner symbol ram_payer =>
    simp only [apply, open_eq_ok]
    constructor
    · rintro ⟨o, ⟨st, hauth, howner, hst, hsym, ⟨hnone, accounts, hadd, rfl⟩ | ⟨hsome, rfl⟩⟩, rfl⟩
      · have hbook : book accounts = (book t.accounts).set owner symbol.code (some ⟨0, symbol⟩) :=
          (book_of_emplace hadd).2
        simp only [Tables.plain, hbook]
        exact .opened hauth howner hst hsym (book_eq_none.2 hnone)
      · exact .kept hauth howner hst hsym (fun h => hsome (book_eq_none.1 h))
    · intro h
      cases h with
      | opened hauth howner hst hsym hnone =>
        obtain ⟨accounts, hadd, hbook⟩ := emplace_of_none ram_payer (r := (⟨⟨0, symbol⟩, ram_payer = owner⟩ : Account)) hnone
        refine ⟨_, ⟨_, hauth, howner, hst, hsym, .inl ⟨book_eq_none.1 hnone, accounts, hadd, rfl⟩⟩, ?_⟩
        simp only [Tables.plain, hbook, holding]
      | kept hauth howner hst hsym hsome =>
        exact ⟨_, ⟨_, hauth, howner, hst, hsym, .inr ⟨fun h => hsome (book_eq_none.2 h), rfl⟩⟩, rfl⟩
  | close owner symbol =>
    simp only [apply, close_eq_ok]
    constructor
    · rintro ⟨o, ⟨row, accounts, hauth, hrow, hzero, herase, rfl⟩, rfl⟩
      simp only [Tables.plain, book_of_erase herase]
      exact .closed hauth (book_of_find hrow) hzero
    · intro h
      cases h with
      | closed hauth hrow hzero =>
        obtain ⟨accounts, row, hfind, rfl, herase, hbook⟩ := erase_of_some hrow
        refine ⟨_, ⟨row, accounts, hauth, hfind, hzero, herase, rfl⟩, ?_⟩
        simp only [Tables.plain, hbook]
  | _ => cases hcall

end System

/-! ## What else there is to see -/

/-- The payout of a swap, which the plain token does not have. -/
def Call.payouts (c : Ctx) : Call → List Action
  | .transfer sender recipient q _ => if recipient = c.self then [System.credit_action c sender q] else []
  | _ => []

theorem Call.plain_issues {call : Call} (h : call.plain = true) : call.issues = false := by
  cases call <;> first | rfl | cases h

theorem Call.idle_outcome (c : Ctx) {call : Call} (h : call.idle = true) :
    call.notified = [] ∧ call.payouts c = [] := by
  cases call <;> first | exact ⟨rfl, rfl⟩ | cases h

theorem Token.plain_outcome {c : Ctx} {t : Token.Tables} {call : Call} {o : Outcome Token.Tables}
    (hcall : call.plain = true) (h : Token.apply c t call = .ok o) :
    o.notified = call.notified ∧ o.inline = [] := by
  cases Token.apply_effect h with
  | transfer | opened | closed | open_idle => exact ⟨rfl, rfl⟩
  | issue hissue => rw [Call.plain_issues hcall] at hissue; cases hissue
  | create | setmaxsupply | retire => cases hcall

theorem System.plain_outcome {c : View} {t : System.Tables} {call : Call} {o : Outcome System.Tables}
    (hcall : call.plain = true) (h : System.apply c t call = .ok o) :
    o.notified = call.notified ∧ o.inline = call.payouts c.toCtx ∧ o.tables.config = t.config ∧
      o.tables.blocked = t.blocked := by
  cases System.apply_effect h with
  | transfer | opened | closed => exact ⟨rfl, rfl, rfl, rfl⟩
  | idle hidle =>
    obtain ⟨hnotified, hpayouts⟩ := Call.idle_outcome c.toCtx hidle
    exact ⟨hnotified.symm, hpayouts.symm, rfl, rfl⟩
  | init | blocked | swapto_eos | swapto_xyz | excess | traced | swapped | passed => cases hcall

/-! ## Both contracts, side by side -/

/-- The same action at both contracts: signed by the same accounts, on the same chain. -/
structure Alike (contract : Name) (c : System.View) (c' : Ctx) : Prop where
  self : c.self = contract
  authorization : c'.authorization = c.authorization
  is_account : c'.is_account = c.is_account

/-- One contract after `init`, the other one after `create` and `issue`, and both after the
same transfers, `open`s and `close`s. -/
inductive Paired (contract : Name) (m : Asset) : System.Tables → Token.Tables → Prop
  | start {c : System.View} {t : System.Tables} {o : Outcome System.Tables} {c₁ c₂ : Ctx}
      {o₁ o₂ : Outcome Token.Tables} {memo : Memo} (hself : c.self = contract) (hblank : System.Blank t)
      (hinit : System.apply c t (.init m) = .ok o)
      (hcreate : Token.apply c₁ .empty (.create contract m) = .ok o₁)
      (hissue : Token.apply c₂ o₁.tables (.issue contract m memo) = .ok o₂) :
      Paired contract m o.tables o₂.tables
  | step {t : System.Tables} {t' : Token.Tables} {c : System.View} {c' : Ctx} {call : Call}
      {o : Outcome System.Tables} {o' : Outcome Token.Tables} (h : Paired contract m t t')
      (hcall : call.plain = true) (halike : Alike contract c c') (ho : System.apply c t call = .ok o)
      (ho' : Token.apply c' t' call = .ok o') : Paired contract m o.tables o'.tables

def Plain.issued (contract : Name) (m : Asset) : Plain where
  stat k := if k = m.symbol.code then some ⟨m, m, contract⟩ else none
  book u k := if u = contract ∧ k = m.symbol.code then some m else none

theorem credit_empty {b b' : Book Name} {u : Name} {m : Asset} (hb : ∀ w k, b w k = none)
    (h : b.credit u m = .ok b') : b' = fun w k => if w = u ∧ k = m.symbol.code then some m else none := by
  unfold Book.credit at h
  rw [hb u m.symbol.code] at h
  cases h
  funext w k
  rw [Book.set_apply, hb w k]

theorem System.plain_init {c : View} {t : System.Tables} {m : Asset} {o : Outcome System.Tables}
    (hb : Blank t) (h : System.apply c t (.init m) = .ok o) : o.tables.plain = Plain.issued c.self m := by
  have heffect := System.apply_effect h
  have hm := minted_of_init hb heffect
  have hstat : (fun k => o.tables.stat.find k k) = (Plain.issued c.self m).stat := by
    funext k
    by_cases hk : k = m.symbol.code
    · rw [hk, hm.find_stat]
      exact (if_pos rfl).symm
    · rw [show (Plain.issued c.self m).stat k = none from if_neg hk, MultiIndex.find_eq_none]
      refine Option.eq_none_iff_forall_ne_some.2 fun r hr => hk ?_
      exact ((hm.stat k k r).1 hr).1
  have hbook : book o.tables.accounts = (Plain.issued c.self m).book := by
    cases heffect with
    | idle hidle => cases hidle
    | init _ _ _ _ _ _ hadd =>
      exact credit_empty (fun u k => book_of_none (hb.no_account u k)) (credit_of_add_balance hadd)
  rw [System.Tables.plain, hstat, hbook]

theorem Token.plain_issue {c₁ c₂ : Ctx} {contract : Name} {m : Asset} {memo : Memo} {o₁ o₂ : Outcome Token.Tables}
    (hcreate : Token.apply c₁ .empty (.create contract m) = .ok o₁)
    (hissue : Token.apply c₂ o₁.tables (.issue contract m memo) = .ok o₂) :
    o₂.tables.plain = Plain.issued contract m := by
  cases Token.apply_effect hcreate with
  | issue hcall => cases hcall
  | create _ _ _ hstat =>
    obtain ⟨-, rfl⟩ := MultiIndex.emplace_eq_ok.1 hstat
    obtain ⟨st, p, supply, accounts, -, hvalid, -, hst, -, -, hsupply, hadd, rfl⟩ := issue_ok hissue
    obtain ⟨rfl, rfl⟩ : st = ⟨⟨0, m.symbol⟩, m, contract⟩ ∧ p = c₁.self := by
      rw [MultiIndex.grow_rows, MultiIndex.store_rows, MultiIndex.put_apply] at hst
      rw [if_pos ⟨rfl, rfl⟩] at hst
      cases hst
      exact ⟨rfl, rfl⟩
    obtain ⟨-, hsym, hval, -⟩ := (Asset.add_eq_ok ((Asset.is_valid_iff m).1 hvalid).1).1 hsupply
    obtain rfl : supply = m := Asset.ext_val (hval.trans (zero_add _)) hsym
    have hbook : book accounts = (Plain.issued contract supply).book :=
      credit_empty (fun _ _ => rfl) (credit_of_add_balance hadd)
    rw [Token.Tables.plain, hbook]
    refine congrArg (Plain.mk · _) (funext fun k => ?_)
    rw [MultiIndex.find_store]
    by_cases hk : k = supply.symbol.code
    · rw [if_pos ⟨hk, hk⟩]
      exact (if_pos hk).symm
    · rw [if_neg fun h => hk h.1, if_neg hk, MultiIndex.find_eq_none, MultiIndex.grow_rows,
        MultiIndex.store_rows, MultiIndex.put_apply, if_neg fun h => hk h.1]
      rfl

theorem Alike.has_auth {contract : Name} {c : System.View} {c' : Ctx} (h : Alike contract c c') :
    c'.has_auth = c.has_auth := by
  funext n
  rw [Ctx.has_auth, h.authorization]
  rfl

theorem Paired.plain {contract : Name} {m : Asset} {t : System.Tables} {t' : Token.Tables}
    (h : Paired contract m t t') : System.Minted contract m t ∧ t.plain = t'.plain := by
  induction h with
  | start hself hblank hinit hcreate hissue =>
    subst hself
    refine ⟨System.minted_of_init hblank (System.apply_effect hinit), ?_⟩
    rw [System.plain_init hblank hinit, Token.plain_issue hcreate hissue]
  | step _ hcall halike ho ho' ih =>
    obtain ⟨hm, hplain⟩ := ih
    obtain rfl := halike.self
    refine ⟨System.minted_step hm (System.apply_effect ho), ?_⟩
    have h1 := (System.plain_step hm hcall).1 ⟨_, ho, rfl⟩
    have h2 := (Token.plain_step hcall).1 ⟨_, ho', rfl⟩
    rw [halike.has_auth, halike.is_account, ← hplain] at h2
    exact h1.det h2

/-- **The XYZ token refines the plain token.** After `init` here and `create` and `issue`
there, and after any transfers, `open`s and `close`s at both, the two contracts have the same
supplies, rows and balances. The next such call succeeds at both or at neither, leaves
them the same again and notifies the same accounts. All that the system contract does
besides is to pay out EOS for a transfer to itself: its symbol and its list of blocked
accounts stay as they are. -/
theorem xyz_refines_token {contract : Name} {m : Asset} {t : System.Tables} {t' : Token.Tables}
    (h : Paired contract m t t') :
    t.plain = t'.plain ∧
    ∀ c c', Alike contract c c' → ∀ call : Call, call.plain = true →
      ((∃ o, System.apply c t call = .ok o) ↔ ∃ o', Token.apply c' t' call = .ok o') ∧
      ∀ o o', System.apply c t call = .ok o → Token.apply c' t' call = .ok o' →
        o.tables.plain = o'.tables.plain ∧ o.notified = o'.notified ∧ o'.inline = [] ∧
        o.inline = call.payouts c.toCtx ∧ o.tables.config = t.config ∧ o.tables.blocked = t.blocked := by
  obtain ⟨hm, hplain⟩ := h.plain
  refine ⟨hplain, fun c c' halike call hcall => ⟨?_, fun o o' ho ho' => ?_⟩⟩
  · have hstep : ∀ p, (∃ o, System.apply c t call = .ok o ∧ o.tables.plain = p) ↔
        ∃ o', Token.apply c' t' call = .ok o' ∧ o'.tables.plain = p := fun p => by
      rw [System.plain_step (halike.self ▸ hm) hcall, Token.plain_step hcall, halike.has_auth,
        halike.is_account, hplain]
    constructor
    · rintro ⟨o, ho⟩
      obtain ⟨o', ho', -⟩ := (hstep _).1 ⟨o, ho, rfl⟩
      exact ⟨o', ho'⟩
    · rintro ⟨o', ho'⟩
      obtain ⟨o, ho, -⟩ := (hstep _).2 ⟨o', ho', rfl⟩
      exact ⟨o, ho⟩
  · obtain ⟨hn, hi⟩ := System.plain_outcome hcall ho
    obtain ⟨hn', hi'⟩ := Token.plain_outcome hcall ho'
    exact ⟨(Paired.step h hcall halike ho ho').plain.2, hn.trans hn'.symm, hi', hi⟩

theorem xyz_refines_token_send : ∃ t t', Paired Tiny.env.self Tiny.max_supply t t' ∧
    ∃ o, System.apply (Tiny.env.view Tiny.genesis (System.active Tiny.env.self)) t
      (.transfer Tiny.env.self Tiny.alice ⟨100, Tiny.XYZ⟩ []) = .ok o := by
  obtain ⟨o, o₁, o₂, o', hinit, hcreate, hissue, hsend⟩ : ∃ o o₁ o₂ o',
      System.apply (Tiny.env.view Tiny.genesis (System.active Tiny.env.self)) .empty (.init Tiny.max_supply) = .ok o ∧
      Token.apply (Tiny.env.ctx Tiny.genesis Name.eosio_token (System.active Name.eosio_token)) .empty
        (.create Tiny.env.self Tiny.max_supply) = .ok o₁ ∧
      Token.apply (Tiny.env.ctx Tiny.genesis Name.eosio_token (System.active Tiny.env.self)) o₁.tables
        (.issue Tiny.env.self Tiny.max_supply []) = .ok o₂ ∧
      Token.apply (Tiny.env.ctx Tiny.genesis Name.eosio_token (System.active Tiny.env.self)) o₂.tables
        (.transfer Tiny.env.self Tiny.alice ⟨100, Tiny.XYZ⟩ []) = .ok o' :=
    ⟨_, _, _, _, rfl, rfl, rfl, rfl⟩
  have hpaired : Paired Tiny.env.self Tiny.max_supply o.tables o₂.tables :=
    .start rfl ⟨rfl, rfl, rfl⟩ hinit hcreate hissue
  obtain ⟨-, hnext⟩ := xyz_refines_token hpaired
  exact ⟨_, _, hpaired, (hnext _ _ ⟨rfl, rfl, rfl⟩ _ rfl).1.2 ⟨o', hsend⟩⟩

end Vaulta
