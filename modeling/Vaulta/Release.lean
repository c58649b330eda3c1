import Vaulta.Conservation
import Vaulta.Sends

/-!
# Who pays for a row

The contract pays for the row of an account that never spent anything. The first debit
hands the row over to its owner, together with the scope it lies in, and it stays there.
-/

namespace Vaulta

namespace System

/-! ## What a debit and a credit write -/

theorem sub_balance_rows {t t' : Accounts} {u : Name} {v : Asset} (h : sub_balance t u v = .ok t') :
    ∃ r a, t.rows u v.symbol.code = some r ∧ a.symbol.code = v.symbol.code ∧
      v.val ≤ r.row.balance.val ∧ r.row.balance.sub v = .ok a ∧
      t'.rows = MultiIndex.put t.rows u v.symbol.code (some ⟨⟨a, true⟩, u⟩) ∧
      t'.table = if r.row.released then t.table else ((t.shrink u).grow u u).table := by
  simp only [sub_balance, bind_eq_ok, MultiIndex.get_eq_ok, check_eq_ok, exists_and_left,
    exists_const] at h
  obtain ⟨row, hrow, hle, h⟩ := h
  obtain ⟨p, hp⟩ := MultiIndex.find_eq_some.1 hrow
  have hcode : row.balance.symbol.code = v.symbol.code := t.keyed _ _ _ hp
  rw [Asset.amount_le_iff] at hle
  cases hr : row.released with
  | true =>
    simp only [hr, Bool.not_true, Bool.false_eq_true, if_false, MultiIndex.modify_eq_ok] at h
    obtain ⟨r, row', hr', hf, hk, rfl⟩ := h
    rw [hp] at hr'
    cases hr'
    simp only [bind_eq_ok, pure_eq_ok, Except.ok.injEq] at hf
    obtain ⟨a, ha, rfl⟩ := hf
    refine ⟨⟨row, p⟩, a, hp, ?_, hle, ha, ?_, by rw [MultiIndex.store_table, if_pos hr]⟩
    · rw [Asset.sub_symbol ha, hcode]
    · rw [MultiIndex.store_rows, hk, Option.getD_some, hr]
  | false =>
    simp only [hr, Bool.not_false, if_true, bind_eq_ok, MultiIndex.erase_eq_ok, MultiIndex.emplace_eq_ok] at h
    obtain ⟨_, ⟨-, rfl⟩, a, ha, -, rfl⟩ := h
    have hk : a.symbol.code = v.symbol.code := by rw [Asset.sub_symbol ha, hcode]
    refine ⟨⟨row, p⟩, a, hp, hk, hle, ha, ?_, ?_⟩
    · rw [MultiIndex.grow_rows, MultiIndex.store_rows, MultiIndex.shrink_rows, MultiIndex.remove_rows,
        show primary_key (⟨a, true⟩ : Account) = v.symbol.code from hk, MultiIndex.put_put]
    · rw [if_neg (by simp [hr])]
      rfl

theorem add_balance_rows {c : Ctx} {t t' : Accounts} {u p : Name} {v : Asset}
    (h : add_balance c t u v p = .ok t') :
    (t.rows u v.symbol.code = none ∧
      t'.rows = MultiIndex.put t.rows u v.symbol.code (some ⟨⟨v, p = u⟩, if p = u then u else c.self⟩) ∧
      t'.table = (t.grow u (if p = u then u else c.self)).table) ∨
    ∃ r a, t.rows u v.symbol.code = some r ∧ a.symbol.code = v.symbol.code ∧
      r.row.balance.add v = .ok a ∧
      t'.rows = MultiIndex.put t.rows u v.symbol.code (some ⟨⟨a, r.row.released⟩, r.payer⟩) ∧
      t'.table = t.table := by
  unfold add_balance at h
  cases hf : t.find u v.symbol.code with
  | none =>
    simp only [hf, MultiIndex.emplace_eq_ok] at h
    obtain ⟨-, rfl⟩ := h
    exact .inl ⟨MultiIndex.find_eq_none.1 hf, rfl, rfl⟩
  | some row =>
    simp only [hf, MultiIndex.modify_eq_ok] at h
    obtain ⟨r, row', hr, hf', hk, rfl⟩ := h
    simp only [bind_eq_ok, pure_eq_ok, Except.ok.injEq] at hf'
    obtain ⟨a, ha, rfl⟩ := hf'
    refine .inr ⟨r, a, hr, ?_, ha, by rw [MultiIndex.store_rows, hk]; rfl, rfl⟩
    rw [Asset.add_symbol ha]
    exact t.keyed _ _ _ hr

inductive Credited (contract u : Name) (v : Asset) (p : Name) :
    Option (Stored Name Account) → Stored Name Account → Prop
  | fresh : Credited contract u v p none ⟨⟨v, p = u⟩, if p = u then u else contract⟩
  | more {r : Stored Name Account} {a : Asset} (h : r.row.balance.add v = .ok a) :
      Credited contract u v p (some r) ⟨⟨a, r.row.released⟩, r.payer⟩

theorem Moved.rows {c : Ctx} {t t' : Accounts} {u w p : Name} {v : Asset} (hne : u ≠ w)
    (h : Moved c t t' u w v p) :
    ∃ r a r', t.rows u v.symbol.code = some r ∧ v.val ≤ r.row.balance.val ∧ r.row.balance.sub v = .ok a ∧
      Credited c.self w v p (t.rows w v.symbol.code) r' ∧
      t'.rows = MultiIndex.put (MultiIndex.put t.rows u v.symbol.code (some ⟨⟨a, true⟩, u⟩)) w v.symbol.code
        (some r') := by
  obtain ⟨m, hsub, hadd⟩ := h
  obtain ⟨r, a, hr, -, hle, ha, hm, -⟩ := sub_balance_rows hsub
  -- The debit has left the row of the recipient alone.
  have hmid : m.rows w v.symbol.code = t.rows w v.symbol.code := by
    rw [hm]
    exact if_neg fun he => hne he.1.symm
  rw [← hmid]
  rcases add_balance_rows hadd with ⟨hnone, ht', -⟩ | ⟨r₁, b, hr₁, -, hb, ht', -⟩
  · exact ⟨r, a, _, hr, hle, ha, by rw [hnone]; exact .fresh, hm ▸ ht'⟩
  · exact ⟨r, a, _, hr, hle, ha, by rw [hr₁]; exact .more hb, hm ▸ ht'⟩

theorem Moved.rows_other {c : Ctx} {t t' : Accounts} {u w p : Name} {v : Asset} (hne : u ≠ w)
    (h : Moved c t t' u w v p) {x : Name} {k : SymbolCode} (hx : x ≠ u ∧ x ≠ w ∨ k ≠ v.symbol.code) :
    t'.rows x k = t.rows x k := by
  obtain ⟨_, _, _, -, -, -, -, hrows⟩ := h.rows hne
  rw [hrows, MultiIndex.put_apply, MultiIndex.put_apply]
  rcases hx with ⟨hu, hw⟩ | hk
  · rw [if_neg fun he => hw he.1, if_neg fun he => hu he.1]
  · rw [if_neg fun he => hk he.2, if_neg fun he => hk he.2]

theorem add_balance_payer {t : Accounts} {u : Name} {v : Asset} (h : t.rows u v.symbol.code ≠ none)
    (c c' : Ctx) (p p' : Name) : add_balance c t u v p = add_balance c' t u v p' := by
  unfold add_balance
  cases hf : t.find u v.symbol.code with
  | none => exact absurd (MultiIndex.find_eq_none.1 hf) h
  | some row => rfl

theorem Moved.payer {c c' : Ctx} {t t' : Accounts} {u w p p' : Name} {v : Asset} (hne : u ≠ w)
    (hrow : t.rows w v.symbol.code ≠ none) (h : Moved c t t' u w v p) : Moved c' t t' u w v p' := by
  obtain ⟨m, hsub, hadd⟩ := h
  obtain ⟨r, a, -, -, -, -, hm, -⟩ := sub_balance_rows hsub
  have hmid : m.rows w v.symbol.code = t.rows w v.symbol.code := by
    rw [hm]
    exact if_neg fun he => hne he.1.symm
  exact ⟨m, hsub, add_balance_payer (hmid ▸ hrow) c c' p p' ▸ hadd⟩

/-! ## One owner -/

/-- What the rows of one owner look like: there is at most one, and whoever pays for it
pays for the scope too. -/
structure Tidy (contract u : Name) (k : SymbolCode) (rows : SymbolCode → Option (Stored Name Account))
    (table : Option (TableId Name)) : Prop where
  single : ∀ k' r, rows k' = some r → k' = k
  billed : ∀ r, rows k = some r → table = some ⟨r.payer, 1⟩
  unused : rows k = none → table = none
  flag : u ≠ contract → ∀ r, rows k = some r → (r.row.released = true ↔ r.payer = u)
  home : u = contract → ∃ b, rows k = some ⟨⟨b, true⟩, contract⟩

/-- What a call can do to the row of `u`. -/
inductive RowStep (c : Ctx) (call : Call) (u : Name) : Option (Stored Name Account) → Option (Stored Name Account) → Prop
  | keep {r : Option (Stored Name Account)} : RowStep c call u r r
  | debit {r : Stored Name Account} {a : Asset} : RowStep c call u (some r) (some ⟨⟨a, true⟩, u⟩)
  | credit {r : Stored Name Account} {a : Asset} (hle : r.row.balance.val ≤ a.val) :
      RowStep c call u (some r) (some ⟨⟨a, r.row.released⟩, r.payer⟩)
  | credit_own {a : Asset} : RowStep c call u none (some ⟨⟨a, true⟩, u⟩)
  | credit_new {a : Asset} : RowStep c call u none (some ⟨⟨a, false⟩, c.self⟩)
  | opened {p : Name} {a : Asset} {symbol : Symbol} (hcall : call = .open_ u symbol p)
      (hauth : c.has_auth p = true) : RowStep c call u none (some ⟨⟨a, p = u⟩, p⟩)
  | closed {r : Stored Name Account} (hauth : c.has_auth u = true) (hzero : r.row.balance.val = 0) :
      RowStep c call u (some r) none

theorem Moved.row_step {c : Ctx} {call : Call} {t t' : Accounts} {u w p : Name} {v : Asset} (hne : u ≠ w)
    (hpos : 0 < v.val) (hle : v.val ≤ 2 ^ 62 - 1) (h : Moved c t t' u w v p) (x : Name) (k : SymbolCode) :
    RowStep c call x (t.rows x k) (t'.rows x k) := by
  obtain ⟨r, a, r', hr, -, -, hcredit, hrows⟩ := h.rows hne
  rw [hrows, MultiIndex.put_apply, MultiIndex.put_apply]
  split
  · -- The recipient.
    rename_i hx
    rw [hx.1, hx.2]
    generalize t.rows w v.symbol.code = old at hcredit
    cases hcredit with
    | fresh =>
      by_cases hp : p = w
      · simp only [hp, decide_true, if_true]
        exact .credit_own
      · simp only [hp, decide_false, if_false]
        exact .credit_new
    | more ha =>
      obtain ⟨-, -, hval, -⟩ := (Asset.add_eq_ok ⟨by omega, hle⟩).1 ha
      exact .credit (by omega)
  · split
    · rename_i hx
      rw [hx.1, hx.2, hr]
      exact .debit
    · exact .keep

theorem Effect.row_step {c : View} {t : Tables} {call : Call} {o : Outcome Tables}
    (h : Effect c t call o) (hinit : ∀ m, call ≠ .init m) (hself : ∀ code, call = .sys code → c.has_auth c.self ≠ true)
    (x : Name) (k : SymbolCode) : RowStep c.toCtx call x (t.accounts.rows x k) (o.tables.accounts.rows x k) := by
  cases h with
  | init => exact absurd rfl (hinit _)
  | transfer hne _ _ _ hvalid hpos _ _ hmove =>
    exact hmove.row_step hne hpos ((Asset.is_valid_iff _).1 hvalid).1.2 x k
  | @opened owner ram_payer symbol st accounts hauth _ _ _ hadd =>
    obtain ⟨hnone, rfl⟩ := MultiIndex.emplace_eq_ok.1 hadd
    simp only [MultiIndex.grow_rows, MultiIndex.store_rows, MultiIndex.put_apply]
    split
    · rename_i he
      obtain ⟨rfl, rfl⟩ := he
      rw [hnone]
      exact .opened rfl hauth
    · exact .keep
  | @closed owner symbol row accounts hauth hrow hzero herase =>
    obtain ⟨-, rfl⟩ := MultiIndex.erase_eq_ok.1 herase
    simp only [MultiIndex.shrink_rows, MultiIndex.remove_rows, MultiIndex.put_apply]
    split
    · rename_i he
      obtain ⟨rfl, rfl⟩ := he
      obtain ⟨p, hp⟩ := MultiIndex.find_eq_some.1 hrow
      rw [hp]
      exact .closed hauth hzero
    · exact .keep
  | @swapped code account q accounts rest hauth hswap =>
    exact hswap.moved.row_step (fun he => hself code rfl (by rw [← he]; exact hauth)) hswap.pos hswap.small x k
  | blocked | swapto_eos | swapto_xyz | excess | traced | idle | passed => exact .keep

/-! ## Every owner -/

namespace Tidy

variable {contract u : Name} {k : SymbolCode} {rows : SymbolCode → Option (Stored Name Account)}
  {table : Option (TableId Name)}

theorem put (h : Tidy contract u k rows table) {r : Stored Name Account}
    (hflag : u ≠ contract → (r.row.released = true ↔ r.payer = u))
    (hhome : u = contract → ∃ b, r = ⟨⟨b, true⟩, contract⟩) :
    Tidy contract u k (fun k' => if k' = k then some r else rows k') (some ⟨r.payer, 1⟩) where
  single k' r' hr' := by
    split at hr'
    · assumption
    · exact h.single k' r' hr'
  billed r' hr' := by
    rw [if_pos rfl] at hr'
    cases hr'
    rfl
  unused hnone := by
    rw [if_pos rfl] at hnone
    cases hnone
  flag hu r' hr' := by
    rw [if_pos rfl] at hr'
    cases hr'
    exact hflag hu
  home hu := by
    obtain ⟨b, rfl⟩ := hhome hu
    exact ⟨b, if_pos rfl⟩

theorem clear (h : Tidy contract u k rows table) (hu : u ≠ contract) :
    Tidy contract u k (fun k' => if k' = k then none else rows k') none where
  single k' r' hr' := by
    split at hr'
    · assumption
    · exact h.single k' r' hr'
  billed r' hr' := by
    rw [if_pos rfl] at hr'
    cases hr'
  unused _ := rfl
  flag _ r' hr' := by
    rw [if_pos rfl] at hr'
    cases hr'
  home hc := absurd hc hu

end Tidy

def AllTidy (contract : Name) (k : SymbolCode) (t : Accounts) : Prop :=
  ∀ u, Tidy contract u k (t.rows u) (t.table u)

section Tidy

variable {contract : Name} {k : SymbolCode} {t t' : Accounts} {u : Name} {v : Asset}

theorem AllTidy.change (h : AllTidy contract k t) {r : Option (Stored Name Account)}
    (hrows : t'.rows = MultiIndex.put t.rows u k r) (htable : ∀ w, w ≠ u → t'.table w = t.table w)
    (hu : Tidy contract u k (fun k' => if k' = k then r else t.rows u k') (t'.table u)) :
    AllTidy contract k t' := by
  intro w
  by_cases hw : w = u
  · subst hw
    convert hu using 1
    funext k'
    rw [hrows, MultiIndex.put_apply]
    simp
  · have hrow : t'.rows w = t.rows w := by
      funext k'
      rw [hrows, MultiIndex.put_apply, if_neg fun he => hw he.1]
    rw [hrow, htable w hw]
    exact h w

theorem AllTidy.sub_balance (h : AllTidy contract k t) (hk : v.symbol.code = k)
    (hs : sub_balance t u v = .ok t') : AllTidy contract k t' := by
  obtain ⟨r, a, hr, -, -, -, hrows, htable⟩ := sub_balance_rows hs
  rw [hk] at hr hrows
  have hbilled := (h u).billed r hr
  refine h.change hrows (fun w hw => ?_) ?_
  · rw [htable]
    split
    · rfl
    · rw [MultiIndex.grow_table_ne _ hw, MultiIndex.shrink_table_ne hw]
  · have htab : t'.table u = some ⟨u, 1⟩ := by
      rw [htable]
      split
      · rename_i hrel
        rw [hbilled]
        by_cases hu : u = contract
        · obtain ⟨b, hb⟩ := (h u).home hu
          rw [hr] at hb
          cases hb
          rw [hu]
        · rw [((h u).flag hu r hr).1 hrel]
      · -- Without its only row the scope is given back, so the owner pays for the next one.
        exact MultiIndex.grow_table_none u (MultiIndex.shrink_table_one hbilled)
    rw [htab]
    exact (h u).put (fun _ => ⟨fun _ => rfl, fun _ => rfl⟩) fun hu => ⟨a, by rw [hu]⟩

theorem AllTidy.add_balance {c : Ctx} {p : Name} (h : AllTidy c.self k t) (hk : v.symbol.code = k)
    (ha : add_balance c t u v p = .ok t') : AllTidy c.self k t' := by
  rcases add_balance_rows ha with ⟨hnone, hrows, htable⟩ | ⟨r, a, hr, -, -, hrows, htable⟩
  · rw [hk] at hnone hrows
    have hu : u ≠ c.self := fun hu => by
      obtain ⟨b, hb⟩ := (h u).home hu
      rw [hnone] at hb
      cases hb
    refine h.change hrows (fun w hw => ?_) ?_
    · rw [htable, MultiIndex.grow_table_ne _ hw]
    · rw [htable, MultiIndex.grow_table_none _ ((h u).unused hnone)]
      refine (h u).put (fun _ => ?_) fun hc => absurd hc hu
      by_cases hp : p = u
      · simp [hp]
      · simp [hp, Ne.symm hu]
  · rw [hk] at hr hrows
    refine h.change hrows (fun w _ => by rw [htable]) ?_
    rw [htable, (h u).billed r hr]
    refine (h u).put (r := ⟨⟨a, r.row.released⟩, r.payer⟩) (fun hu => (h u).flag hu r hr) fun hu => ?_
    obtain ⟨b, hb⟩ := (h u).home hu
    rw [hr] at hb
    cases hb
    exact ⟨a, rfl⟩

theorem AllTidy.emplace (h : AllTidy contract k t) {row : Account} {p : Name} (hu : u ≠ contract)
    (hk : row.balance.symbol.code = k) (hflag : row.released = true ↔ p = u)
    (he : t.emplace u p row = .ok t') : AllTidy contract k t' := by
  subst hk
  obtain ⟨hnone, rfl⟩ := MultiIndex.emplace_eq_ok.1 he
  have htab : ((t.store u ⟨row, p⟩).grow u p).table u = some ⟨p, 1⟩ :=
    MultiIndex.grow_table_none p ((h u).unused hnone)
  refine h.change (MultiIndex.grow_rows _ _ _) (fun w hw => MultiIndex.grow_table_ne p hw) ?_
  rw [htab]
  exact (h u).put (fun _ => hflag) fun hc => absurd hc hu

theorem AllTidy.erase (h : AllTidy contract k t) (hu : u ≠ contract) {k' : SymbolCode}
    (he : t.erase u k' = .ok t') : AllTidy contract k t' := by
  obtain ⟨hsome, rfl⟩ := MultiIndex.erase_eq_ok.1 he
  obtain ⟨r, hr⟩ := Option.ne_none_iff_exists'.1 hsome
  obtain rfl := (h u).single k' r hr
  have htab : ((t.remove u k').shrink u).table u = none := MultiIndex.shrink_table_one ((h u).billed r hr)
  refine h.change (MultiIndex.shrink_rows _ _) (fun w hw => MultiIndex.shrink_table_ne hw) ?_
  rw [htab]
  exact (h u).clear hu

theorem AllTidy.moved {c : Ctx} {w p : Name} (h : AllTidy c.self k t) (hk : v.symbol.code = k)
    (hm : Moved c t t' u w v p) : AllTidy c.self k t' := by
  obtain ⟨m, hsub, hadd⟩ := hm
  exact (h.sub_balance hk hsub).add_balance hk hadd

end Tidy

theorem tidy_step {c : View} {t : Tables} {m : Asset} {call : Call} {o : Outcome Tables}
    (hm : Minted c.self m t) (h : AllTidy c.self m.symbol.code t.accounts) (he : Effect c t call o)
    (hclose : ∀ symbol, call ≠ .close c.self symbol) : AllTidy c.self m.symbol.code o.tables.accounts := by
  cases he with
  | init _ hnew => rw [hm.find_config] at hnew; cases hnew
  | transfer _ _ _ hst _ _ hsym _ hmove => exact h.moved (by rw [hsym, hm.stat_eq hst]) hmove
  | @opened owner ram_payer symbol st accounts _ hst hsym hnone hadd =>
    have hs : symbol = m.symbol := by rw [← hsym, hm.stat_eq hst]
    refine h.emplace (fun hu => ?_) (by rw [hs]) decide_eq_true_iff hadd
    obtain ⟨b, hb⟩ := (h owner).home hu
    rw [← hs, MultiIndex.find_eq_none.1 hnone] at hb
    cases hb
  | closed _ _ _ herase => exact h.erase (fun hu => hclose _ (by rw [hu])) herase
  | swapped _ hswap => exact h.moved (by rw [hm.config_eq hswap.symbol]) hswap.moved
  | blocked | swapto_eos | swapto_xyz | excess | traced | idle | passed => exact h

theorem init_rows {c : View} {t : Tables} {m : Asset} {o : Outcome Tables} (hb : Blank t)
    (h : Effect c t (.init m) o) :
    (∀ u k, o.tables.accounts.rows u k =
      if u = c.self ∧ k = m.symbol.code then some ⟨⟨m, true⟩, c.self⟩ else none) ∧
    ∀ u, o.tables.accounts.table u = if u = c.self then some ⟨c.self, 1⟩ else none := by
  cases h with
  | idle hcall => cases hcall
  | @init _ config stat accounts _ _ _ _ _ _ hadd =>
    rcases add_balance_rows hadd with ⟨-, hrows, htable⟩ | ⟨r, _, hr, -⟩
    · simp only [decide_true, if_true] at hrows htable
      constructor
      · intro u k
        rw [hrows, MultiIndex.put_apply, hb.accounts]
        rfl
      · intro u
        rw [htable, hb.accounts]
        split
        · rename_i hu
          rw [hu]
          exact MultiIndex.grow_table_none _ rfl
        · rename_i hu
          exact MultiIndex.grow_table_ne _ hu
    · rw [hb.accounts] at hr
      cases hr

theorem tidy_init {c : View} {t : Tables} {m : Asset} {o : Outcome Tables} (hb : Blank t)
    (h : Effect c t (.init m) o) : AllTidy c.self m.symbol.code o.tables.accounts := by
  obtain ⟨hrows, htable⟩ := init_rows hb h
  intro u
  by_cases hu : u = c.self
  · subst hu
    refine ⟨fun k r hr => ?_, fun r hr => ?_, fun hn => ?_, fun hne => absurd rfl hne, fun _ => ⟨m, ?_⟩⟩
    · rw [hrows] at hr
      split at hr
      · rename_i hk
        exact hk.2
      · cases hr
    · rw [hrows, if_pos ⟨rfl, rfl⟩] at hr
      cases hr
      rw [htable, if_pos rfl]
    · rw [hrows, if_pos ⟨rfl, rfl⟩] at hn
      cases hn
    · rw [hrows, if_pos ⟨rfl, rfl⟩]
  · have hrow : ∀ k, o.tables.accounts.rows u k = none := fun k => by
      rw [hrows, if_neg fun he => hu he.1]
    refine ⟨fun k r hr => ?_, fun r hr => ?_, fun _ => ?_, fun _ r hr => ?_, fun hc => absurd hc hu⟩
    · rw [hrow] at hr; cases hr
    · rw [hrow] at hr; cases hr
    · rw [htable, if_neg hu]
    · rw [hrow] at hr; cases hr

end System

/-- `bob` opens a row for `alice`, and pays for it. -/
def Tiny.host : Action := ⟨env.self, System.active bob, .open_ alice XYZ bob⟩

/-! ## Any run -/

namespace Env

variable {σ : Type} {e : Env σ} {m : Asset} {s₀ : State σ}

theorem exec_tidy {s s' : State σ} {a : Action} {queued : List Action}
    (hm : System.Minted e.self m s.system) (ha : e.Signed e.Other a) (h : e.exec s a = .ok (s', queued))
    (ht : System.AllTidy e.self m.symbol.code s.system.accounts) :
    System.AllTidy e.self m.symbol.code s'.system.accounts := by
  cases exec_effect h with
  | system _ heffect =>
    refine System.tidy_step hm ht heffect fun symbol hcall => ?_
    -- The contract does not close its own row.
    rw [hcall] at heffect
    cases heffect with
    | closed hauth =>
      have := (ha.own (mem_actors hauth)).call_own
      rw [hcall] at this
      cases this
    | idle hidle => cases hidle
  | token | swap_in | eosio | nobody => exact ht

theorem exec_row_step {s s' : State σ} {a : Action} {queued : List Action}
    (hm : System.Minted e.self m s.system) (ha : e.Signed e.Other a) (h : e.exec s a = .ok (s', queued))
    (u : Name) (k : SymbolCode) : s'.system.accounts.rows u k = s.system.accounts.rows u k ∨
      (a.account = e.self ∧ System.RowStep (e.ctx s e.self a.authorization) a.call u
        (s.system.accounts.rows u k) (s'.system.accounts.rows u k)) := by
  cases exec_effect h with
  | system hacc heffect =>
    refine .inr ⟨hacc, heffect.row_step (fun m' hcall => ?_) (fun code hcall hself => ?_) u k⟩
    · rw [hcall] at heffect
      exact hm.no_init m' heffect
    · have := (ha.own (mem_actors hself)).call_own
      rw [hcall] at this
      cases this
  | token | swap_in | eosio | nobody => exact .inl rfl

theorem after_tidy {c : Config σ} (hinit : e.Initialised m s₀) (h : e.After s₀ c) :
    System.AllTidy e.self m.symbol.code c.state.system.accounts := by
  suffices hinv : System.AllTidy e.self m.symbol.code c.state.system.accounts ∧
      System.Minted e.self m c.state.system ∧ ∀ q ∈ c.pending, e.Signed e.Other q.act from hinv.1
  refine h.invariant (fun c => System.AllTidy e.self m.symbol.code c.state.system.accounts ∧
      System.Minted e.self m c.state.system ∧ ∀ q ∈ c.pending, e.Signed e.Other q.act) ?_ ?_ ?_
  · rintro s rfl
    refine ⟨?_, hinit.minted, by simp⟩
    obtain ⟨s₁, authorization, o, hb, heffect, rfl⟩ := hinit.blank
    exact System.tidy_init hb heffect
  · rintro s trace acts ⟨ht, hm, -⟩ hforeign
    exact ⟨ht, hm, signed_begin hforeign⟩
  · rintro s s' q rest trace queued ⟨ht, hm, hs⟩ hexec
    exact ⟨exec_tidy hm (hs q (List.mem_cons_self ..)) hexec ht, minted_exec hexec hm,
      signed_queue not_other_self hs hexec⟩

theorem after_home {c : Config σ} (hinit : e.Initialised m s₀) (h : e.After s₀ c) :
    ∃ b, c.state.system.accounts.rows e.self m.symbol.code = some ⟨⟨b, true⟩, e.self⟩ :=
  (after_tidy hinit h e.self).home rfl

/-- `p` has made the row of `u` with `open`, signing for it, and it has not been released since. -/
def OpenedBy (e : Env σ) (s₀ : State σ) (k : SymbolCode) (u p : Name) (c : Config σ) : Prop :=
  Machine.Since e.exec (· = s₀) e.Foreign
    (fun c _ => ∃ q rest symbol, c.pending = q :: rest ∧ q.act.account = e.self ∧
      q.act.call = .open_ u symbol p ∧ p ∈ q.act.actors ∧ c.state.system.accounts.rows u k = none)
    (fun c => ∃ r, c.state.system.accounts.rows u k = some r ∧ r.payer = p ∧ r.row.released = false) c

theorem openedBy {c : Config σ} (hinit : e.Initialised m s₀) (h : e.After s₀ c) {u : Name}
    {r : Stored Name System.Account} (hr : c.state.system.accounts.rows u m.symbol.code = some r)
    (hrel : r.row.released = false) (hp : r.payer ≠ e.self) :
    e.OpenedBy s₀ m.symbol.code u r.payer c := by
  refine h.since ?_ ?_ ?_ ⟨r, hr, rfl, hrel⟩
  · -- At the start there is only the row of the contract, which is released.
    rintro s rfl ⟨r', hr', hp', hrel'⟩
    obtain ⟨s₁, authorization, o, hb, heffect, rfl⟩ := hinit.blank
    dsimp only at hr'
    rw [(System.init_rows hb heffect).1] at hr'
    split at hr'
    · cases hr'; cases hrel'
    · cases hr'
  · exact fun _ _ _ _ hq => hq
  · rintro c c' hc hstep ⟨r', hr', hp', hrel'⟩
    cases hstep with
    | @run s s' q rest trace queued hexec =>
      have ha := after_signed hc q (List.mem_cons_self ..)
      rcases exec_row_step (after_minted hinit hc) ha hexec u m.symbol.code with hsame | ⟨hacc, hstep⟩
      · rw [hsame] at hr'
        exact .inl ⟨r', hr', hp', hrel'⟩
      · dsimp only at hr' hstep
        rw [hr'] at hstep
        generalize hold : s.system.accounts.rows u m.symbol.code = old at hstep
        cases hstep with
        | keep => exact .inl ⟨r', rfl, hp', hrel'⟩
        | debit => cases hrel'
        | credit => exact .inl ⟨_, rfl, hp', hrel'⟩
        | credit_own => cases hrel'
        | credit_new => exact absurd hp'.symm hp
        | @opened p _ symbol hcall hauth =>
          subst hp'
          exact .inr ⟨q, rest, symbol, rfl, hacc, hcall, mem_actors hauth, rfl⟩

/-- A balance that shrinks was debited: nothing else makes it smaller. -/
theorem debited_row {c : Ctx} {call : Call} {u : Name} {old new : Option (Stored Name System.Account)}
    (h : System.RowStep c call u old new)
    (hnonneg : 0 ≤ (new.map (·.row.balance.val)).getD 0)
    (hlt : (new.map (·.row.balance.val)).getD 0 < (old.map (·.row.balance.val)).getD 0) :
    ∃ a, new = some ⟨⟨a, true⟩, u⟩ := by
  cases h with
  | keep => exact absurd hlt (lt_irrefl _)
  | debit => exact ⟨_, rfl⟩
  | credit hle => simp only [Option.map_some, Option.getD_some] at hlt; omega
  | closed _ hzero => simp only [Option.map_some, Option.getD_some, Option.map_none, Option.getD_none] at hlt; omega
  | credit_own | credit_new | opened => simp only [Option.map_none, Option.getD_none] at hlt; omega

theorem xyz_rows (s : State σ) (k : SymbolCode) (u : Name) :
    s.xyz k u = ((s.system.accounts.rows u k).map (·.row.balance.val)).getD 0 := by
  unfold State.xyz MultiIndex.find
  cases s.system.accounts.rows u k <;> rfl

theorem released_row {c : Ctx} {call : Call} {u : Name} {r r' : Stored Name System.Account}
    (h : System.RowStep c call u (some r) (some r')) (hrel : r.row.released = true) : r'.row.released = true := by
  cases h with
  | keep => exact hrel
  | debit => rfl
  | credit => exact hrel

theorem step_row {c c' : Config σ} (hinit : e.Initialised m s₀) (h : e.After s₀ c) (hstep : e.Step c c')
    (u : Name) (k : SymbolCode) : ∃ ctx call,
      System.RowStep ctx call u (c.state.system.accounts.rows u k) (c'.state.system.accounts.rows u k) := by
  cases hstep with
  | @run s s' q rest trace queued hexec =>
    have ha := after_signed h q (List.mem_cons_self ..)
    rcases exec_row_step (after_minted hinit h) ha hexec u k with hsame | ⟨-, hrow⟩
    · refine ⟨e.ctx s e.self q.act.authorization, q.act.call, ?_⟩
      dsimp only
      rw [hsame]
      exact .keep
    · exact ⟨_, _, hrow⟩

theorem after_nonneg {c : Config σ} (hinit : e.Initialised m s₀) (h : e.After s₀ c) (u : Name) (k : SymbolCode) :
    0 ≤ c.state.xyz k u := by
  by_cases hk : k = m.symbol.code
  · rw [hk, State.xyz_eq]
    exact (after_minted hinit h).sound.nonneg u
  · rw [xyz_rows]
    cases hr : c.state.system.accounts.rows u k with
    | none => exact le_refl 0
    | some r => exact absurd ((after_tidy hinit h u).single k r hr) hk

/-- **RAM is released.** At any point of a run after `init`: no scope has two rows. The flag
of a row says whether its owner pays for it. An unreleased row is paid by the contract, or by
somebody who made it with `open`. A released row stays released. A debit leaves the row
released and paid by its owner, and the scope as well. The contract always has its own row. -/
theorem ram_released {c : Config σ} (hinit : e.Initialised m s₀) (h : e.After s₀ c) :
    (∀ u k k' r r', c.state.system.accounts.rows u k = some r →
      c.state.system.accounts.rows u k' = some r' → k = k') ∧
    (∀ u k r, u ≠ e.self → c.state.system.accounts.rows u k = some r →
      (r.row.released = true ↔ r.payer = u)) ∧
    (∀ u k r, c.state.system.accounts.rows u k = some r → r.row.released = false →
      r.payer = e.self ∨ e.OpenedBy s₀ k u r.payer c) ∧
    (∀ c', e.Step c c' → ∀ u k r r', c.state.system.accounts.rows u k = some r →
      c'.state.system.accounts.rows u k = some r' → r.row.released = true → r'.row.released = true) ∧
    (∀ c', e.Step c c' → ∀ u k, c'.state.xyz k u < c.state.xyz k u →
      ∃ r, c'.state.system.accounts.rows u k = some r ∧ r.row.released = true ∧ r.payer = u ∧
        c'.state.system.accounts.table u = some ⟨u, 1⟩) ∧
    ∃ b, c.state.system.accounts.rows e.self m.symbol.code = some ⟨⟨b, true⟩, e.self⟩ := by
  have ht := after_tidy hinit h
  refine ⟨?_, ?_, ?_, ?_, ?_, (ht e.self).home rfl⟩
  · intro u k k' r r' hr hr'
    rw [(ht u).single k r hr, (ht u).single k' r' hr']
  · intro u k r hu hr
    obtain rfl := (ht u).single k r hr
    exact (ht u).flag hu r hr
  · intro u k r hr hrel
    obtain rfl := (ht u).single k r hr
    by_cases hp : r.payer = e.self
    · exact .inl hp
    · exact .inr (openedBy hinit h hr hrel hp)
  · intro c' hstep u k r r' hr hr' hrel
    obtain ⟨ctx, call, hrow⟩ := step_row hinit h hstep u k
    rw [hr, hr'] at hrow
    exact released_row hrow hrel
  · intro c' hstep u k hlt
    have h' : e.After s₀ c' := .step h hstep
    obtain ⟨ctx, call, hrow⟩ := step_row hinit h hstep u k
    have hnonneg := after_nonneg hinit h' u k
    rw [xyz_rows] at hnonneg
    rw [xyz_rows, xyz_rows] at hlt
    obtain ⟨a, hr⟩ := debited_row hrow hnonneg hlt
    have ht' := after_tidy hinit h' u
    obtain rfl := ht'.single k _ hr
    exact ⟨_, hr, rfl, rfl, ht'.billed _ hr⟩

/-- `bob` pays for the row of `alice`, until she spends some of what she has swapped. -/
theorem ram_released_alice : ∃ c c' r r', Tiny.env.After Tiny.start c ∧ Tiny.env.Step c c' ∧
    c.state.system.accounts.rows Tiny.alice Tiny.XYZ.code = some r ∧ r.row.released = false ∧
    Tiny.env.OpenedBy Tiny.start Tiny.XYZ.code Tiny.alice Tiny.bob c ∧
    c'.state.system.accounts.rows Tiny.alice Tiny.XYZ.code = some r' ∧ r'.row.released = true ∧ r'.payer = Tiny.alice ∧
    c'.state.system.accounts.table Tiny.alice = some ⟨Tiny.alice, 1⟩ := by
  have hhost : Tiny.env.Commits Tiny.start [Tiny.host] (Tiny.run Tiny.start [Tiny.host]) :=
    @Machine.commits_of_transact _ _ _ _ 20 _ _ _ rfl
  have hswap : Tiny.env.Commits (Tiny.run Tiny.start [Tiny.host]) [Tiny.swap]
      (Tiny.run (Tiny.run Tiny.start [Tiny.host]) [Tiny.swap]) := @Machine.commits_of_transact _ _ _ _ 20 _ _ _ rfl
  have hstart : Tiny.env.After Tiny.start ⟨Tiny.start, [], []⟩ := .start rfl
  obtain ⟨_, hhosted⟩ := hstart.commit (Tiny.foreign_single (by decide)) hhost
  obtain ⟨_, hswapped⟩ := hhosted.commit (Tiny.foreign_single (by decide)) hswap
  have hc := hswapped.begin (Tiny.foreign_single (a := Tiny.spend) (by decide))
  obtain ⟨s, queued, hexec⟩ : ∃ s queued,
      Tiny.env.exec (Tiny.run (Tiny.run Tiny.start [Tiny.host]) [Tiny.swap]) Tiny.spend = .ok (s, queued) := ⟨_, _, rfl⟩
  obtain ⟨r, hr, hhas, hpays⟩ : ∃ r, (Tiny.run (Tiny.run Tiny.start [Tiny.host]) [Tiny.swap]).system.accounts.rows
      Tiny.alice Tiny.XYZ.code = some r ∧ r.row.balance.val = 100 ∧ r.payer = Tiny.bob := ⟨_, rfl, rfl, rfl⟩
  have hless : s.xyz Tiny.XYZ.code Tiny.alice < (Tiny.run (Tiny.run Tiny.start [Tiny.host]) [Tiny.swap]).xyz
      Tiny.XYZ.code Tiny.alice := by
    cases hexec
    decide
  obtain ⟨-, hflag, hunreleased, -, hdebit, -⟩ := ram_released Tiny.initialised hc
  have hbob : ¬ r.row.released = true := fun hrel => by
    have hown := (hflag Tiny.alice _ r (by decide) hr).1 hrel
    rw [hpays] at hown
    exact absurd hown (by decide)
  have hopened := (hunreleased Tiny.alice _ r hr (Bool.eq_false_iff.2 hbob)).resolve_left (by rw [hpays]; decide)
  obtain ⟨r', hr', hrel', hpayer', htable'⟩ := hdebit _ (.run hexec) Tiny.alice _ hless
  exact ⟨_, _, r, r', hc, .run hexec, hr, Bool.eq_false_iff.2 hbob, hpays ▸ hopened, hr', hrel', hpayer', htable'⟩

end Env

end Vaulta
