import Vaulta.Movements

/-!
# The ledger of `eosio.token`

For every ticker, the balances are the supply. This holds whatever `eosio` does, as
long as it moves tokens the way everybody has to: by actions of `eosio.token`.
-/

namespace Vaulta

namespace Token

structure Sound (t : Tables) : Prop where
  backed : ∀ k st, t.stat.find k k = some st → (book t.accounts).Sound st.supply.symbol st.supply.val
  blank : ∀ k, t.stat.find k k = none → ∀ u, book t.accounts u k = none

theorem stat_code {t : Stats} {n k : SymbolCode} {st : CurrencyStats} (h : t.find n k = some st) :
    st.supply.symbol.code = k := by
  obtain ⟨p, hp⟩ := MultiIndex.find_eq_some.1 h
  exact t.keyed _ _ _ hp

theorem find_of_rows {t : Stats} {n k : SymbolCode} {st : CurrencyStats} {p : Name}
    (h : t.rows n k = some ⟨st, p⟩) : t.find n k = some st :=
  MultiIndex.find_eq_some.2 ⟨p, h⟩

namespace Sound

theorem empty : Sound .empty where
  backed k st h := by cases h
  blank _ _ _ := rfl

variable {t : Tables} {c : Ctx}

theorem nonneg (h : Sound t) (k : SymbolCode) (u : Name) : 0 ≤ (book t.accounts).amount k u := by
  cases hst : t.stat.find k k with
  | none => rw [Book.amount_none (h.blank k hst u)]
  | some st => exact stat_code hst ▸ (h.backed k st hst).nonneg u

theorem store (h : Sound t) {a : Accounts} {r : Stored Name CurrencyStats} {k : SymbolCode}
    (hk : r.row.supply.symbol.code = k)
    (hbook : (book a).Sound r.row.supply.symbol r.row.supply.val)
    (hne : ∀ k', k' ≠ k → ∀ u, book a u k' = book t.accounts u k') :
    Sound ⟨t.stat.store k r, a⟩ := by
  have hfind : ∀ k', k' ≠ k → (t.stat.store k r).find k' k' = t.stat.find k' k' := fun k' hk' => by
    rw [MultiIndex.find_store, if_neg fun he => hk' he.1]
  have hself : (t.stat.store k r).find k k = some r.row := by
    rw [MultiIndex.find_store, if_pos ⟨rfl, hk.symm⟩]
  constructor
  · intro k' st hst
    by_cases hk' : k' = k
    · subst hk'
      rw [hself] at hst
      cases hst
      exact hbook
    · rw [hfind k' hk'] at hst
      have hcode := stat_code hst
      refine (h.backed k' st hst).congr fun u => ?_
      rw [hcode]
      exact hne k' hk' u
  · intro k' hst u
    have hk' : k' ≠ k := by
      rintro rfl
      rw [hself] at hst
      cases hst
    rw [hne k' hk' u]
    exact h.blank k' (hfind k' hk' ▸ hst) u

theorem accounts (h : Sound t) {accounts : Accounts} {k : SymbolCode} {st : CurrencyStats}
    (hst : t.stat.find k k = some st) (hbook : (book accounts).Sound st.supply.symbol st.supply.val)
    (hne : ∀ k', k' ≠ k → ∀ u, book accounts u k' = book t.accounts u k') :
    Sound ⟨t.stat, accounts⟩ := by
  constructor
  · intro k' st' hst'
    by_cases hk' : k' = k
    · subst hk'
      rw [hst] at hst'
      cases hst'
      exact hbook
    · have hcode := stat_code hst'
      refine (h.backed k' st' hst').congr fun u => ?_
      rw [hcode]
      exact hne k' hk' u
  · intro k' hst' u
    have hk' : k' ≠ k := by
      rintro rfl
      rw [hst] at hst'
      cases hst'
    rw [hne k' hk' u]
    exact h.blank k' hst' u

theorem step (h : Sound t) {call : Call} {o : Outcome Tables} (he : Effect c t call o) :
    Sound o.tables := by
  cases he with
  | @create issuer maximum_supply stat _ _ _ hstat =>
    obtain ⟨hnone, rfl⟩ := MultiIndex.emplace_eq_ok.1 hstat
    have hblank := h.blank maximum_supply.symbol.code (MultiIndex.find_eq_none.2 hnone)
    have := h.store (a := t.accounts) (r := ⟨⟨⟨0, maximum_supply.symbol⟩, maximum_supply, issuer⟩, c.self⟩)
      rfl (Book.Sound.of_none hblank) fun _ _ _ => rfl
    exact ⟨this.backed, this.blank⟩
  | @issue call q supply st p accounts _ _ hvalid hpos hst hsym _ hsupply hadd =>
    have hr := ((Asset.is_valid_iff _).1 hvalid).1
    have hbook := credit_of_add_balance hadd
    obtain ⟨-, hs, hval, -⟩ := (Asset.add_eq_ok hr).1 hsupply
    refine h.store (by rw [hs, ← hsym]) ?_ fun k hk u => Book.credit_ne hbook hk u
    have := (h.backed _ st (find_of_rows hst)).credit (by omega) hr.2 (fun _ => hsym) hbook
    rwa [hs, hval, ← Asset.of_self q, hsym]
  | @setmaxsupply issuer maximum_supply st p _ _ _ hst hsym _ =>
    exact h.store (by rw [hsym]) (h.backed _ st (find_of_rows hst)) fun _ _ _ => rfl
  | @retire q supply memo st p accounts _ hvalid hpos hst hsym hsupply hsub =>
    have hbook := debit_of_sub_balance hsub
    have hsound := h.backed _ st (find_of_rows hst)
    -- The issuer had what it retires, so the supply is at least that.
    obtain ⟨a, a', ha, hle, -⟩ := (Book.debit_eq_ok (by omega)).1 hbook
    have hmax := hsound.amount_le st.issuer
    rw [← hsym, Book.amount_eq ha] at hmax
    obtain ⟨-, hs, hval, -⟩ := (Asset.sub_eq_ok (by omega) (by omega)).1 hsupply
    refine h.store (by rw [hs, ← hsym]) ?_ fun k hk u => Book.debit_ne hbook hk u
    have := hsound.debit (by omega) hbook
    rwa [hs, hval, ← Asset.of_self q, hsym]
  | transfer _ _ _ hst hvalid hpos _ _ hmove =>
    have hr := ((Asset.is_valid_iff _).1 hvalid).1
    exact h.accounts hst ((h.backed _ _ hst).move hpos hr.2 hmove.book) fun k hk u =>
      Book.move_ne hmove.book hk u
  | @opened owner ram_payer symbol st accounts _ hst hsym _ hadd =>
    obtain ⟨hnone, hbook⟩ := book_of_emplace hadd
    simp only [holding] at hbook hnone
    refine h.accounts hst ?_ fun k hk u => ?_
    · rw [hbook]
      exact (h.backed _ st hst).set_zero _ (by simp [hsym]) rfl (Book.amount_none hnone)
    · rw [hbook]
      exact if_neg fun hu => hk hu.2
  | open_idle => exact h
  | @closed owner symbol row accounts _ hrow hzero herase =>
    have hbook := book_of_erase herase
    have hfind := book_of_find hrow
    cases hst : t.stat.find symbol.code symbol.code with
    | none => rw [h.blank _ hst] at hfind; cases hfind
    | some st =>
      refine h.accounts hst ?_ fun k hk u => ?_
      · rw [hbook]
        exact (h.backed _ st hst).set_zero _ (by simp) rfl (by rw [Book.amount_eq hfind]; exact hzero)
      · rw [hbook]
        exact if_neg fun hu => hk hu.2

end Sound

/-- What a sequence of actions of `eosio.token` can make of its tables. -/
def Reaches (t t' : Tables) : Prop :=
  Relation.ReflTransGen (fun t t' => ∃ c call o,
    c.self = Name.eosio_token ∧ apply c t call = .ok o ∧ t' = o.tables) t t'

/-- What every action keeps. -/
def Kept (P : Tables → Prop) : Prop := ∀ c t call o, P t → Effect c t call o → P o.tables

theorem Reaches.kept {P : Tables → Prop} (hP : Kept P) {t t' : Tables} (hr : Reaches t t') (h : P t) : P t' := by
  induction hr with
  | refl => exact h
  | tail _ hs ih =>
    obtain ⟨c, call, o, -, ho, rfl⟩ := hs
    exact hP c _ call o ih (apply_effect ho)

theorem sound_kept : Kept Sound := fun _ _ _ _ h he => h.step he

end Token

namespace Env

variable {σ : Type} {e : Env σ}

/-- The tables of `eosio.token` belong to it: `eosio` too changes them by its actions. -/
def ThroughToken (e : Env σ) : Prop :=
  ∀ call authorization x x' t t', e.eosio call authorization x t = .ok (x', t') → Token.Reaches t t'

section Kept

variable {P : Token.Tables → Prop} (ht : e.ThroughToken) (hP : Token.Kept P)
include ht hP

theorem token_kept_exec {s s' : State σ} {a : Action} {queued : List Action} (h : e.exec s a = .ok (s', queued))
    (hs : P s.token) : P s'.token := by
  cases exec_effect h with
  | system => exact hs
  | token _ heffect => exact hP _ _ _ _ hs heffect
  | swap_in _ _ heffect => exact hP _ _ _ _ hs heffect
  | eosio _ _ hx => exact (ht _ _ _ _ _ _ hx).kept hP hs
  | nobody => exact hs

theorem token_kept_commits {s s' : State σ} {acts : List Action} (h : e.Commits s acts s') (hs : P s.token) :
    P s'.token :=
  h.kept (fun _ _ _ _ hexec hs => token_kept_exec ht hP hexec hs) hs

theorem token_kept (hempty : P .empty) {c : Config σ} (h : e.Reachable c) : P c.state.token := by
  refine h.kept (fun _ _ _ _ hexec hs => token_kept_exec ht hP hexec hs) ?_
  rintro s ⟨-, hs⟩
  rw [hs]
  exact hempty

theorem later_token_kept (hempty : P .empty) {m : Asset} {s₀ : State σ} {c : Config σ}
    (hinit : e.Initialised m s₀) (h : e.Later s₀ c) : P c.state.token := by
  refine h.kept (fun _ _ _ _ hexec hs => token_kept_exec ht hP hexec hs) ?_
  rintro s rfl
  obtain ⟨s₁, trace, authorization, hreach, hexec⟩ := hinit
  exact token_kept_exec ht hP hexec (token_kept ht hP hempty hreach)

end Kept

theorem after_token_sound (ht : e.ThroughToken) {m : Asset} {s₀ : State σ} {c : Config σ}
    (hinit : e.Initialised m s₀) (h : e.After s₀ c) : Token.Sound c.state.token :=
  later_token_kept ht Token.sound_kept .empty hinit h.later

theorem tiny_throughToken : Tiny.env.ThroughToken := by
  intro call authorization x x' t t' h
  cases h
  exact .refl

end Env

end Vaulta
