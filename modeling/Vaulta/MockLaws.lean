import Vaulta.Bystanders
import Vaulta.Excess
import Vaulta.MockChain

/-!
# What the calls of `mocksys` keep

A call moves EOS between its account, `eosio` and `eosio.ramfee`, and leaves everybody else
alone. So this chain is one of those that the results about the contract are about.
-/

namespace Vaulta.Mocksys.Site

variable {site : Site} {u w : Name} {x x' : Tables} {t t' : Token.Tables} {call : SysCall} {l : List PermissionLevel}

/-! ## One step of a call -/

/-- The ways that EOS takes in a call for `u`. -/
def Route (u v w : Name) : Prop :=
  (v = u ∧ w = Name.eosio) ∨ (v = Name.eosio ∧ w = u) ∨ (v = u ∧ w = Name.eosio_ramfee)

inductive InnerStep (u : Name) (p : Tables × Token.Tables) : Tables × Token.Tables → Prop
  | pays {c : Ctx} {v w : Name} {q : Asset} {memo : Memo} {o : Outcome Token.Tables} (hroute : Route u v w)
      (hc : c.self = Name.eosio_token) (h : Token.apply c p.2 (.transfer v w q memo) = .ok o) :
      InnerStep u p (p.1, o.tables)
  | calls {c : Ctx} {call : SysCall} {o : Outcome Tables} (hc : c.self = Name.eosio) (hu : call.account = u)
      (h : Effect c p.1 call o) : InnerStep u p (o.tables, p.2)

theorem inner_step {p p' : Tables × Token.Tables} {a : Action} {queued : List Action} (ha : Inner u a)
    (h : site.inner p a = .ok (p', queued)) : InnerStep u p p' := by
  have htoken : Name.eosio_token ≠ Name.eosio := by decide
  have hpays : ∀ {l v w q memo}, Route u v w →
      site.inner p ⟨Name.eosio_token, l, .transfer v w q memo⟩ = .ok (p', queued) → InnerStep u p p' := by
    intro l v w q memo hroute h
    unfold inner at h
    rw [if_neg htoken] at h
    simp only [bind_eq_ok, pure_eq_ok, Except.ok.injEq, Prod.mk.injEq] at h
    obtain ⟨o, ho, rfl, -⟩ := h
    exact .pays hroute rfl ho
  cases ha with
  | pay_in => exact hpays (.inl ⟨rfl, rfl⟩) h
  | pay_out => exact hpays (.inr (.inl ⟨rfl, rfl⟩)) h
  | fee => exact hpays (.inr (.inr ⟨rfl, rfl⟩)) h
  | call hu =>
    unfold inner at h
    simp only [if_true, bind_eq_ok, pure_eq_ok, Except.ok.injEq, Prod.mk.injEq] at h
    obtain ⟨o, ho, rfl, -⟩ := h
    exact .calls rfl hu (apply_effect ho)

theorem inner_queue {p p' : Tables × Token.Tables} {a : Action} {queued : List Action} (ha : Inner u a)
    (h : site.inner p a = .ok (p', queued)) : ∀ b ∈ queued, Inner u b := by
  have htoken : Name.eosio_token ≠ Name.eosio := by decide
  have hnone : ∀ {l call}, site.inner p ⟨Name.eosio_token, l, call⟩ = .ok (p', queued) → queued = [] := by
    intro l call h
    unfold inner at h
    rw [if_neg htoken] at h
    simp only [bind_eq_ok, pure_eq_ok, Except.ok.injEq, Prod.mk.injEq] at h
    obtain ⟨o, -, -, rfl⟩ := h
    rfl
  cases ha with
  | pay_in | pay_out | fee => simp [hnone h]
  | call hu =>
    unfold inner at h
    simp only [if_true, bind_eq_ok, pure_eq_ok, Except.ok.injEq, Prod.mk.injEq] at h
    obtain ⟨o, ho, -, rfl⟩ := h
    exact hu ▸ (apply_effect ho).sends rfl

theorem call_kept {P : Tables × Token.Tables → Prop} (hP : ∀ p p', InnerStep call.account p p' → P p → P p')
    (h : site.eosio call l x t = .ok (x', t')) (hs : P (x, t)) : P (x', t') := by
  obtain ⟨-, hc⟩ := eosio_eq_ok.1 h
  refine hc.kept_on (Q := Inner call.account) (fun _ _ _ _ ha hexec => inner_queue ha hexec)
    (fun _ _ _ _ ha hexec => hP _ _ (inner_step ha hexec)) (fun a ha => ?_) hs
  rw [List.mem_singleton.1 ha]
  exact .call rfl

/-! ## Everybody else -/

theorem throughToken : site.env.ThroughToken := by
  intro call l x x' t t' h
  refine call_kept (P := fun p => Token.Reaches t p.2) (fun p p' hstep hp => ?_) h .refl
  cases hstep with
  | pays _ hc ho => exact hp.tail ⟨_, _, _, hc, ho, rfl⟩
  | calls => exact hp

theorem keepsAccounts : site.env.KeepsAccounts := fun _ _ _ _ _ _ _ _ h => h

theorem call_debited (hu : w ≠ call.account) (hw : w ≠ Name.eosio) (h : site.eosio call l x t = .ok (x', t')) :
    (book t.accounts).amount Symbol.EOS.code w ≤ (book t'.accounts).amount Symbol.EOS.code w := by
  refine call_kept (P := fun p => (book t.accounts).amount Symbol.EOS.code w ≤
    (book p.2.accounts).amount Symbol.EOS.code w) (fun p p' hstep hp => ?_) h (le_refl _)
  cases hstep with
  | calls => exact hp
  | @pays c v v' q memo o hroute _ ho =>
    cases (Token.apply_effect ho).flow with
    | issued hcall => cases hcall
    | still hcall => exact absurd rfl (hcall _ _ _ _)
    | transferred _ _ hpos hbook =>
      have hv : w ≠ v := by
        rintro rfl
        rcases hroute with ⟨rfl, -⟩ | ⟨rfl, -⟩ | ⟨rfl, -⟩
        · exact hu rfl
        · exact hw rfl
        · exact hu rfl
      refine le_trans hp ?_
      rw [hbook]
      exact le_moved hv (Asset.of_nonneg (le_of_lt hpos) _)

theorem call_credited (hu : w ≠ call.account) (hw : w ≠ Name.eosio) (hw' : w ≠ Name.eosio_ramfee)
    (h : site.eosio call l x t = .ok (x', t')) :
    (book t'.accounts).amount Symbol.EOS.code w ≤ (book t.accounts).amount Symbol.EOS.code w := by
  refine call_kept (P := fun p => (book p.2.accounts).amount Symbol.EOS.code w ≤
    (book t.accounts).amount Symbol.EOS.code w) (fun p p' hstep hp => ?_) h (le_refl _)
  cases hstep with
  | calls => exact hp
  | @pays c v v' q memo o hroute _ ho =>
    cases (Token.apply_effect ho).flow with
    | issued hcall => cases hcall
    | still hcall => exact absurd rfl (hcall _ _ _ _)
    | transferred _ _ hpos hbook =>
      have hv : w ≠ v' := by
        rintro rfl
        rcases hroute with ⟨-, rfl⟩ | ⟨-, rfl⟩ | ⟨-, rfl⟩
        · exact hw rfl
        · exact hu rfl
        · exact hw' rfl
      refine le_trans ?_ hp
      rw [hbook]
      exact moved_le hv (Asset.of_nonneg (le_of_lt hpos) _)

theorem eosio_account (h : site.eosio call l x t = .ok (x', t')) : call.account ∈ l.map (·.actor) :=
  (eosio_eq_ok.1 h).1

theorem undebited (hu : u ≠ Name.eosio) : site.env.Undebited u := by
  intro call l x x' t t' _ hout h
  exact call_debited (fun he => hout (he ▸ eosio_account h)) hu h

theorem uncredited (hu : u ≠ Name.eosio) (hu' : u ≠ Name.eosio_ramfee) : site.env.Uncredited u := by
  intro call l x x' t t' _ hout h
  exact call_credited (fun he => hout (he ▸ eosio_account h)) hu hu' h

theorem keepsSelf : site.env.KeepsSelf := by
  intro call l x x' t t' hself h
  have hne : site.self ≠ call.account := by
    intro he
    rw [env_self, he] at hself
    exact hself (eosio_account h)
  exact le_antisymm (call_credited hne site.self_ne_eosio site.self_ne_ramfee h) (call_debited hne site.self_ne_eosio h)

/-! ## What is staked -/

theorem call_fits (h : site.eosio call l x t = .ok (x', t')) (hx : x.Fits) : x'.Fits := by
  refine call_kept (P := fun p => p.1.Fits) (fun p p' hstep hp => ?_) h hx
  cases hstep with
  | pays => exact hp
  | calls hc _ heffect => exact (heffect.held hc hp).1

theorem call_held (hu : w ≠ call.account) (h : site.eosio call l x t = .ok (x', t')) (hx : x.Fits) :
    held x' w = held x w := by
  refine (call_kept (P := fun p => p.1.Fits ∧ held p.1 w = held x w) (fun p p' hstep hp => ?_) h ⟨hx, rfl⟩).2
  obtain ⟨hfits, hsame⟩ := hp
  cases hstep with
  | pays => exact ⟨hfits, hsame⟩
  | calls hc hcall heffect =>
    obtain ⟨hfits', d, hheld, -⟩ := heffect.held hc hfits
    refine ⟨hfits', ?_⟩
    rw [hheld, gained_ne _ _ (hcall ▸ hu)]
    exact hsame

/-! ## One transfer, one call -/

theorem commits_inner_transfer {p p' : Tables × Token.Tables} {v w : Name} {q : Asset} {memo : Memo} :
    Machine.Commits site.inner p [⟨Name.eosio_token, l, .transfer v w q memo⟩] p' ↔
      ∃ o, Token.transfer ⟨Name.eosio_token, l, site.is_account⟩ p.2 v w q memo = .ok o ∧ p' = (p.1, o.tables) := by
  have htoken : Name.eosio_token ≠ Name.eosio := by decide
  rw [Machine.commits_cons]
  unfold inner
  simp only [if_neg htoken, bind_eq_ok, pure_eq_ok, Except.ok.injEq, Prod.mk.injEq]
  constructor
  · rintro ⟨_, _, ⟨o, ho, rfl, rfl⟩, hrest⟩
    exact ⟨o, ho, Machine.commits_nil.1 hrest⟩
  · rintro ⟨o, ho, rfl⟩
    exact ⟨_, _, ⟨o, ho, rfl, rfl⟩, .nil⟩

theorem inner_transfer {p p' : Tables × Token.Tables} {v w : Name} {q : Asset} {memo : Memo}
    (hq : q.symbol = Symbol.EOS)
    (h : Machine.Commits site.inner p [⟨Name.eosio_token, l, .transfer v w q memo⟩] p') :
    p'.1 = p.1 ∧ (-(2 ^ 62 - 1) ≤ q.val ∧ q.val ≤ 2 ^ 62 - 1) ∧
      (book p'.2.accounts).amount Symbol.EOS.code = moved ((book p.2.accounts).amount Symbol.EOS.code) v w q.val := by
  obtain ⟨o, ho, rfl⟩ := commits_inner_transfer.1 h
  obtain ⟨st, accounts, -, -, -, -, hvalid, hpos, -, -, hmove, rfl⟩ := Token.transfer_eq_ok.1 ho
  have hr := ((Asset.is_valid_iff _).1 hvalid).1
  refine ⟨rfl, hr, (hmove.amount hpos hr.2 _).trans ?_⟩
  rw [← hq, Asset.of_self]

theorem inner_paid {p p' : Tables × Token.Tables} {v w : Name} {q : Asset} {memo : Memo} {st : CurrencyStats}
    (heos : Token.Eos p.2 st) (hq : q.symbol = Symbol.EOS)
    (h : Machine.Commits site.inner p [⟨Name.eosio_token, l, .transfer v w q memo⟩] p') :
    0 < q.val ∧ q.val ≤ (book p.2.accounts).amount Symbol.EOS.code v ∧ Token.Eos p'.2 st := by
  obtain ⟨o, ho, rfl⟩ := commits_inner_transfer.1 h
  have happly : Token.apply ⟨Name.eosio_token, l, site.is_account⟩ p.2 (.transfer v w q memo) = .ok o := ho
  have hledger := Token.ledger_kept _ _ _ _ heos.ledger (Token.apply_effect happly)
  obtain ⟨_, accounts, -, -, -, -, -, hpos, -, -, hmove, rfl⟩ := Token.transfer_eq_ok.1 ho
  exact ⟨hpos, hq ▸ Book.move_le hpos hmove.book, hledger, heos.stat, heos.symbol⟩

theorem inner_transfer_ok {st : CurrencyStats} {v w : Name} {n : Int64} {memo : Memo} (heos : Token.Eos t st)
    (hpos : 0 < n.toInt) (hle : n.toInt ≤ (book t.accounts).amount Symbol.EOS.code v) (hv : v ≠ w)
    (hacc : site.is_account w = true) (hmemo : memo.length ≤ 256) : ∃ p', Machine.Commits site.inner (x, t)
      [⟨Name.eosio_token, System.active v, .transfer v w ⟨n, Symbol.EOS⟩ memo⟩] p' := by
  have hsmall := heos.small
  have hmax := heos.sound.amount_le v
  have hauth : (⟨Name.eosio_token, System.active v, site.is_account⟩ : Ctx).has_auth v = true := by
    simp [Ctx.has_auth, System.active]
  have hvalid : (⟨n, Symbol.EOS⟩ : Asset).is_valid = true :=
    (Asset.is_valid_iff _).2 ⟨⟨by change _ ≤ n.toInt; omega, by change n.toInt ≤ _; omega⟩, System.eos_is_valid⟩
  obtain ⟨b, hb⟩ := heos.sound.move_ok hsmall (show 0 < Asset.val ⟨n, Symbol.EOS⟩ from hpos) rfl hle w
  obtain ⟨accounts, hmove, -⟩ := Token.moved_of_move _ _ _ (if (⟨Name.eosio_token, System.active v,
    site.is_account⟩ : Ctx).has_auth w then w else v) _ hb
  exact ⟨_, commits_inner_transfer.2 ⟨_, Token.transfer_eq_ok.2 ⟨st, accounts, hv, hauth, hacc, heos.stat, hvalid, hpos,
    heos.symbol.symm, hmemo, hmove, rfl⟩, rfl⟩⟩

theorem commits_inner_call {p p' : Tables × Token.Tables} {call : SysCall} :
    Machine.Commits site.inner p [⟨Name.eosio, l, .sys call⟩] p' ↔
      ∃ o, apply site.datastream ⟨Name.eosio, l, site.is_account⟩ p.1 call = .ok o ∧
        Machine.Commits site.inner (o.tables, p.2) o.inline p' := by
  rw [Machine.commits_cons]
  unfold inner
  simp only [if_true, bind_eq_ok, pure_eq_ok, Except.ok.injEq, Prod.mk.injEq, List.append_nil]
  constructor
  · rintro ⟨_, _, ⟨o, ho, rfl, rfl⟩, hrest⟩
    exact ⟨o, ho, hrest⟩
  · rintro ⟨o, ho, hrest⟩
    exact ⟨_, _, ⟨o, ho, rfl, rfl⟩, hrest⟩

theorem call_stakes (hstakes : call.stakes = true) (hx : x.Fits) (h : site.eosio call l x t = .ok (x', t'))
    (hw : w ≠ Name.eosio) :
    (book t'.accounts).amount Symbol.EOS.code w + held x' w =
      (book t.accounts).amount Symbol.EOS.code w + held x w := by
  obtain ⟨-, hc⟩ := eosio_eq_ok.1 h
  obtain ⟨o, ho, hrest⟩ := commits_inner_call.1 hc
  obtain ⟨-, d, hheld, hsettles⟩ := (apply_effect ho).held rfl hx
  have hsettles := hsettles hstakes
  generalize o.inline = inline at hrest hsettles
  cases hsettles with
  | still =>
    obtain ⟨rfl, rfl⟩ := Prod.mk.inj (Machine.commits_nil.1 hrest)
    rw [hheld, gained_zero]
  | pay_in hsym hd =>
    obtain ⟨rfl, hr, hamount⟩ := inner_transfer hsym hrest
    dsimp only at hamount
    rw [hheld, hamount, hd hr, moved_apply]
    by_cases hu : w = call.account
    · subst hu
      rw [if_pos rfl, if_neg hw, gained_self]
      omega
    · rw [if_neg hu, if_neg hw, gained_ne _ _ hu]
      omega
  | pay_out hsym hd =>
    obtain ⟨rfl, hr, hamount⟩ := inner_transfer hsym hrest
    dsimp only at hamount
    rw [hheld, hamount, hd hr, moved_apply]
    by_cases hu : w = call.account
    · subst hu
      rw [if_neg hw, if_pos rfl, gained_self]
      omega
    · rw [if_neg hw, if_neg hu, gained_ne _ _ hu]
      omega

end Vaulta.Mocksys.Site
