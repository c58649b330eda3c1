import Vaulta.Release

/-!
# Who is billed

Whose RAM an action of the contract can use. The chain would let a privileged contract
bill anybody, so it depends on the contract alone.
-/

namespace Vaulta

/-! ## Tables -/

namespace MultiIndex

variable {π σ κ ρ : Type} [PrimaryKey ρ κ]

/-- Whoever pays for a row or a scope and did not before is one of `ok`. -/
structure Billed (ok : π → Prop) (t t' : MultiIndex π σ κ ρ) : Prop where
  rows : ∀ s k r', t'.rows s k = some r' → (∃ r, t.rows s k = some r ∧ r.payer = r'.payer) ∨ ok r'.payer
  scopes : ∀ s i', t'.table s = some i' → (∃ i, t.table s = some i ∧ i.payer = i'.payer) ∨ ok i'.payer

namespace Billed

variable {ok ok' : π → Prop} {t t' t'' : MultiIndex π σ κ ρ}

theorem mono (h : Billed ok t t') (hok : ∀ n, ok n → ok' n) : Billed ok' t t' where
  rows s k r' hr' := (h.rows s k r' hr').imp_right (hok _)
  scopes s i' hi' := (h.scopes s i' hi').imp_right (hok _)

theorem refl (t : MultiIndex π σ κ ρ) : Billed ok t t where
  rows _ _ r' h := .inl ⟨r', h, rfl⟩
  scopes _ i' h := .inl ⟨i', h, rfl⟩

theorem trans (h : Billed ok t t') (h' : Billed ok t' t'') : Billed ok t t'' where
  rows s k r'' hr'' := by
    rcases h'.rows s k r'' hr'' with ⟨r', hr', hp⟩ | hok
    · exact hp ▸ h.rows s k r' hr'
    · exact .inr hok
  scopes s i'' hi'' := by
    rcases h'.scopes s i'' hi'' with ⟨i', hi', hp⟩ | hok
    · exact hp ▸ h.scopes s i' hi'
    · exact .inr hok

variable [DecidableEq σ]

theorem grow (t : MultiIndex π σ κ ρ) (s : σ) {p : π} (hp : ok p) : Billed ok t (t.grow s p) where
  rows _ _ r' h := .inl ⟨r', h, rfl⟩
  scopes s' i' h := by
    by_cases hs : s' = s
    · subst hs
      cases ht : t.table s' with
      | none =>
        rw [grow_table_none p ht] at h
        cases h
        exact .inr hp
      | some i =>
        simp only [MultiIndex.grow, ht, ne_eq, not_true_eq_false, if_false, Option.some.injEq] at h
        exact .inl ⟨i, rfl, by rw [← h]⟩
    · rw [grow_table_ne p hs] at h
      exact .inl ⟨i', h, rfl⟩

theorem shrink (t : MultiIndex π σ κ ρ) (s : σ) : Billed ok t (t.shrink s) where
  rows _ _ r' h := .inl ⟨r', h, rfl⟩
  scopes s' i' h := by
    by_cases hs : s' = s
    · subst hs
      cases ht : t.table s' with
      | none => simp [MultiIndex.shrink, ht] at h
      | some i =>
        simp only [MultiIndex.shrink, ht, ne_eq, not_true_eq_false, if_false] at h
        split at h
        · cases h
        · cases h
          exact .inl ⟨i, rfl, rfl⟩
    · rw [shrink_table_ne hs] at h
      exact .inl ⟨i', h, rfl⟩

variable [DecidableEq κ]

theorem put {s : σ} {k : κ} {r : Option (Stored π ρ)} (hrows : t'.rows = MultiIndex.put t.rows s k r)
    (htable : t'.table = t.table)
    (hr : ∀ r' ∈ r, (∃ r₀, t.rows s k = some r₀ ∧ r₀.payer = r'.payer) ∨ ok r'.payer) : Billed ok t t' where
  rows s' k' r' h := by
    rw [hrows, put_apply] at h
    split at h
    · obtain ⟨rfl, rfl⟩ := ‹_ ∧ _›
      exact hr r' h
    · exact .inl ⟨r', h, rfl⟩
  scopes s' i' h := by
    rw [htable] at h
    exact .inl ⟨i', h, rfl⟩

theorem emplace {s : σ} {p : π} {row : ρ} (h : t.emplace s p row = .ok t') (hp : ok p) : Billed ok t t' := by
  obtain ⟨-, rfl⟩ := emplace_eq_ok.1 h
  have hstore : Billed ok t (t.store s ⟨row, p⟩) := put (store_rows _ _ _) rfl (by simpa using .inr hp)
  exact hstore.trans (grow _ s hp)

theorem erase {s : σ} {k : κ} (h : t.erase s k = .ok t') : Billed ok t t' := by
  obtain ⟨-, rfl⟩ := erase_eq_ok.1 h
  have hremove : Billed ok t (t.remove s k) := put (remove_rows _ _ _) rfl (by simp)
  exact hremove.trans (shrink _ s)

end Billed

end MultiIndex

/-! ## The contract -/

namespace System

structure Billed (ok : Name → Prop) (t t' : Tables) : Prop where
  config : t.config.Billed ok t'.config
  stat : t.stat.Billed ok t'.stat
  accounts : t.accounts.Billed ok t'.accounts
  blocked : t.blocked.Billed ok t'.blocked

variable {ok : Name → Prop}

namespace Billed

variable {ok' : Name → Prop} {t t' t'' : Tables}

theorem refl (t : Tables) : Billed ok t t := ⟨.refl _, .refl _, .refl _, .refl _⟩

theorem mono (h : Billed ok t t') (hok : ∀ n, ok n → ok' n) : Billed ok' t t' :=
  ⟨h.config.mono hok, h.stat.mono hok, h.accounts.mono hok, h.blocked.mono hok⟩

theorem trans (h : Billed ok t t') (h' : Billed ok t' t'') : Billed ok t t'' :=
  ⟨h.config.trans h'.config, h.stat.trans h'.stat, h.accounts.trans h'.accounts, h.blocked.trans h'.blocked⟩

end Billed

theorem billed_accounts {t : Tables} {accounts : Accounts} (h : t.accounts.Billed ok accounts) :
    Billed ok t { t with accounts } := ⟨.refl _, .refl _, h, .refl _⟩

theorem sub_balance_billed {t t' : Accounts} {u : Name} {v : Asset} (h : sub_balance t u v = .ok t') (hu : ok u) :
    t.Billed ok t' := by
  obtain ⟨r, a, -, -, -, -, hrows, htable⟩ := sub_balance_rows h
  have hscope : t.Billed ok ((t.shrink u).grow u u) := (MultiIndex.Billed.shrink t u).trans (.grow _ u hu)
  constructor
  · intro s k r' hr'
    rw [hrows, MultiIndex.put_apply] at hr'
    split at hr'
    · cases hr'
      exact .inr hu
    · exact .inl ⟨r', hr', rfl⟩
  · intro s i' hi'
    rw [htable] at hi'
    split at hi'
    · exact .inl ⟨i', hi', rfl⟩
    · exact hscope.scopes s i' hi'

theorem add_balance_billed {c : Ctx} {t t' : Accounts} {u p : Name} {v : Asset}
    (h : add_balance c t u v p = .ok t') (hself : ok c.self) (hu : p = u → ok u) : t.Billed ok t' := by
  have hp : ok (if p = u then u else c.self) := by
    split
    · exact hu ‹_›
    · exact hself
  rcases add_balance_rows h with ⟨-, hrows, htable⟩ | ⟨r, a, hr, -, -, hrows, htable⟩
  · constructor
    · intro s k r' hr'
      rw [hrows, MultiIndex.put_apply] at hr'
      split at hr'
      · cases hr'
        exact .inr hp
      · exact .inl ⟨r', hr', rfl⟩
    · intro s i' hi'
      rw [htable] at hi'
      exact (MultiIndex.Billed.grow t u hp).scopes s i' hi'
  · exact .put hrows htable (by simpa using .inl ⟨r, hr, rfl⟩)

theorem Moved.billed {c : Ctx} {t t' : Accounts} {u w p : Name} {v : Asset} (h : Moved c t t' u w v p)
    (hself : ok c.self) (hu : ok u) (hw : p = w → ok w) : t.Billed ok t' := by
  obtain ⟨m, hsub, hadd⟩ := h
  exact (sub_balance_billed hsub hu).trans (add_balance_billed hadd hself hw)

theorem Effect.billed {c : View} {t : Tables} {call : Call} {o : Outcome Tables} (h : Effect c t call o)
    (hcall : ∀ account block, call ≠ .blockswapto account block) :
    Billed (fun n => n = c.self ∨ c.has_auth n = true) t o.tables := by
  cases h with
  | init _ _ _ _ hconfig hstat hadd =>
    refine ⟨.emplace hconfig (.inl rfl), .emplace hstat (.inl rfl), ?_, .refl _⟩
    exact add_balance_billed hadd (.inl rfl) fun _ => .inl rfl
  | @transfer sender recipient q memo st accounts hne hauth _ _ _ _ _ _ hmove =>
    refine billed_accounts (hmove.billed (.inl rfl) (.inr hauth) fun hp => ?_)
    -- The recipient pays only if it has signed, for the sender is another account.
    split at hp
    · exact .inr ‹_›
    · exact absurd hp hne
  | opened hauth _ _ _ hadd => exact billed_accounts (.emplace hadd (.inr hauth))
  | closed _ _ _ herase => exact billed_accounts (.erase herase)
  | blocked => exact absurd rfl (hcall _ _)
  | swapped hauth hswap =>
    exact billed_accounts (hswap.moved.billed (.inl rfl) (.inr hauth) fun _ => .inl rfl)
  | swapto_eos | swapto_xyz | excess | traced | idle | passed => exact .refl t

theorem blockswapto_billed {c : Ctx} {t : Tables} {account : Name} {block : Bool} {o : Outcome Tables}
    (h : blockswapto c t account block = .ok o) :
    Billed ok t o.tables ↔ (block = true → t.blocked.find c.self account = none → ok account) := by
  obtain ⟨-, ⟨hblock, hnone, blocked, hadd, rfl⟩ | ⟨hblock, -, blocked, herase, rfl⟩ | ⟨hblock, rfl⟩⟩ :=
    blockswapto_eq_ok.1 h
  · constructor
    · rintro hb - -
      obtain ⟨hrows, rfl⟩ := MultiIndex.emplace_eq_ok.1 hadd
      rcases hb.blocked.rows c.self account ⟨⟨account⟩, account⟩ (MultiIndex.put_self _ _ _ _) with ⟨r, hr, -⟩ | hok
      · rw [MultiIndex.find_eq_none] at hnone
        rw [hnone] at hr
        cases hr
      · exact hok
    · intro hok
      exact ⟨.refl _, .refl _, .refl _, .emplace hadd (hok hblock hnone)⟩
  · rw [hblock]
    simp only [Bool.false_eq_true, false_implies, iff_true]
    exact ⟨.refl _, .refl _, .refl _, .erase herase⟩
  · constructor
    · intro _ htrue hnone
      exact absurd hnone (hblock.1 htrue)
    · exact fun _ => .refl t

end System

namespace Tiny

def block_bob : Action := ⟨env.self, System.active env.self, .blockswapto bob true⟩

end Tiny

namespace Env

variable {σ : Type} (e : Env σ)

/-- The contract, and who has signed the action. -/
def Consents (a : Action) (n : Name) : Prop := n = e.self ∨ n ∈ a.actors

/-- The contract blocks an account that has not asked for it. -/
def BlocksOther (s : State σ) (a : Action) : Prop :=
  ∃ account, a.account = e.self ∧ a.call = .blockswapto account true ∧
    s.system.blocked.find e.self account = none ∧ ¬ e.Consents a account

variable {e}

theorem exec_blockswapto {s s' : State σ} {a : Action} {queued : List Action} {account : Name} {block : Bool}
    (hacc : a.account = e.self) (hcall : a.call = .blockswapto account block)
    (h : e.exec s a = .ok (s', queued)) :
    ∃ o, System.blockswapto (e.ctx s e.self a.authorization) s.system account block = .ok o ∧
      s' = { s with system := o.tables } := by
  unfold exec at h
  rw [if_pos hacc, hcall] at h
  simp only [bind_eq_ok, pure_eq_ok, Except.ok.injEq, Prod.mk.injEq] at h
  obtain ⟨o, ho, rfl, -⟩ := h
  exact ⟨o, ho, rfl⟩

theorem exec_elsewhere {s s' : State σ} {a : Action} {queued : List Action} (hacc : a.account ≠ e.self)
    (h : e.exec s a = .ok (s', queued)) : s'.system = s.system := by
  cases exec_effect h with
  | system hself => exact absurd hself hacc
  | token | swap_in | eosio | nobody => rfl

/-- Nothing but `blockswapto` can bill somebody who has not consented. -/
theorem exec_billed {s s' : State σ} {a : Action} {queued : List Action} {ok : Name → Prop}
    (hok : ∀ n, e.Consents a n → ok n) (h : e.exec s a = .ok (s', queued)) :
    System.Billed ok s.system s'.system ↔ ∀ account, a.account = e.self → a.call = .blockswapto account true →
      s.system.blocked.find e.self account = none → ok account := by
  by_cases hacc : a.account = e.self
  · by_cases hcall : ∃ account block, a.call = .blockswapto account block
    · obtain ⟨account, block, hcall⟩ := hcall
      obtain ⟨o, ho, rfl⟩ := exec_blockswapto hacc hcall h
      rw [System.blockswapto_billed ho]
      constructor
      · rintro h account' - hcall' hnone
        rw [hcall] at hcall'
        cases hcall'
        exact h rfl hnone
      · rintro h rfl hnone
        exact h account hacc hcall hnone
    · obtain ⟨o, heffect, rfl, -⟩ := exec_system hacc h
      refine iff_of_true ?_ fun account _ hc => absurd ⟨account, true, hc⟩ hcall
      refine (heffect.billed fun account block hc => hcall ⟨account, block, hc⟩).mono fun n hn => hok n ?_
      exact hn.imp_right mem_actors
  · rw [exec_elsewhere hacc h]
    exact iff_of_true (.refl _) fun _ hself => absurd hself hacc

/-! ## Any run -/

/-- Who has signed for the contract so far, or was blocked by it. -/
def Paying (e : Env σ) (trace : List Queued) (n : Name) : Prop :=
  ∃ q ∈ trace, q.act.account = e.self ∧
    (e.Consents q.act n ∨ q.act.call = .blockswapto n true ∧ e.self ∈ q.act.actors)

theorem reachable_billed {c : Config σ} (h : e.Reachable c) :
    System.Billed (e.Paying c.trace) .empty c.state.system := by
  refine h.invariant (fun c => System.Billed (e.Paying c.trace) .empty c.state.system) ?_ ?_ ?_
  · rintro s ⟨hs, -⟩
    dsimp only
    rw [hs]
    exact .refl _
  · exact fun _ _ _ h _ => h
  · intro s s' q rest trace queued hinv hexec
    have hold : System.Billed (e.Paying (q :: trace)) .empty s.system :=
      hinv.mono fun n ⟨p, hp, hpay⟩ => ⟨p, List.mem_cons_of_mem _ hp, hpay⟩
    by_cases hacc : q.act.account = e.self
    · have hsigned : ∀ n, e.Consents q.act n → e.Paying (q :: trace) n :=
        fun n hn => ⟨q, List.mem_cons_self .., hacc, .inl hn⟩
      refine hold.trans ((exec_billed hsigned hexec).2 fun account _ hcall _ => ?_)
      refine ⟨q, List.mem_cons_self .., hacc, ?_⟩
      obtain ⟨o, ho, -⟩ := exec_blockswapto hacc hcall hexec
      rcases (System.blockswapto_eq_ok.1 ho).1 with hself | hn
      · exact .inr ⟨hcall, mem_actors hself⟩
      · exact .inl (.inr (mem_actors hn))
    · dsimp only
      rw [exec_elsewhere hacc hexec]
      exact hold

/-- **RAM is used with consent, but for one action.** In every step of every run, whoever
pays for a row of the contract, or for a scope, and did not before is the contract or has
signed the action, if and only if the contract does not block an account without it. So
everybody who pays has signed for the contract once, or was blocked by it. -/
theorem ram_with_consent {c : Config σ} (h : e.Reachable c) :
    (∀ c', e.Step c c' → ∃ q rest, c.pending = q :: rest ∧
      (System.Billed (e.Consents q.act) c.state.system c'.state.system ↔ ¬ e.BlocksOther c.state q.act)) ∧
    System.Billed (e.Paying c.trace) .empty c.state.system := by
  refine ⟨fun c' hs => ?_, reachable_billed h⟩
  cases hs with
  | @run s s' q rest trace queued hexec =>
    refine ⟨q, rest, rfl, ?_⟩
    rw [exec_billed (fun _ hn => hn) hexec]
    constructor
    · rintro hok ⟨account, hacc, hcall, hnone, hnot⟩
      exact hnot (hok account hacc hcall hnone)
    · intro hnot account hacc hcall hnone
      by_contra hcon
      exact hnot ⟨account, hacc, hcall, hnone, hcon⟩

theorem ram_with_consent_bob : ∃ c c', Tiny.env.Reachable c ∧ Tiny.env.Step c c' ∧
    System.Billed (Tiny.env.Consents Tiny.block) c.state.system c'.state.system := by
  obtain ⟨s, queued, hexec⟩ : ∃ s queued, Tiny.env.exec Tiny.genesis Tiny.block = .ok (s, queued) := ⟨_, _, rfl⟩
  have hreach : Tiny.env.Reachable ⟨Tiny.genesis, [Tiny.block].map Machine.Queued.top, []⟩ :=
    .begin Tiny.reach_genesis trivial
  have hstep : Tiny.env.Step ⟨Tiny.genesis, [Tiny.block].map Machine.Queued.top, []⟩ _ := .run hexec
  refine ⟨_, _, hreach, hstep, ?_⟩
  obtain ⟨q, rest, hq, hiff⟩ := (ram_with_consent hreach).1 _ hstep
  cases hq
  refine hiff.2 ?_
  rintro ⟨account, -, hcall, -, hnot⟩
  cases hcall
  exact hnot (.inr (by decide))

/-- The contract blocks `bob`, and `bob` pays for that. -/
theorem block_bills_bob : ∃ c c', Tiny.env.Reachable c ∧ Tiny.env.Step c c' ∧
    c.pending.map (·.act) = [Tiny.block_bob] ∧ c.state.system.blocked.rows Tiny.env.self Tiny.bob = none ∧
    c'.state.system.blocked.rows Tiny.env.self Tiny.bob = some ⟨⟨Tiny.bob⟩, Tiny.bob⟩ ∧
    ¬ Tiny.env.Consents Tiny.block_bob Tiny.bob := by
  obtain ⟨s, queued, hexec, hrow⟩ : ∃ s queued, Tiny.env.exec Tiny.genesis Tiny.block_bob = .ok (s, queued) ∧
      s.system.blocked.rows Tiny.env.self Tiny.bob = some ⟨⟨Tiny.bob⟩, Tiny.bob⟩ := ⟨_, _, rfl, rfl⟩
  refine ⟨⟨Tiny.genesis, [Tiny.block_bob].map Machine.Queued.top, []⟩, _, .begin Tiny.reach_genesis trivial,
    .run hexec, rfl, rfl, hrow, ?_⟩
  simp only [Consents]
  decide

end Env

end Vaulta
