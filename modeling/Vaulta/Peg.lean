import Vaulta.Conservation
import Vaulta.Sends
import Vaulta.TokenLedger

/-!
# The peg

Every XYZ in circulation is backed by EOS of the contract. A swap takes one token at
once and pays the other one later, by an action that it queues, so the books balance
only with the payouts that are still in the queue.
-/

namespace Vaulta.Env

variable {σ : Type} (e : Env σ)

/-- What the action will pay out of the contract's own tokens. -/
def payout (a : Action) : Int :=
  match a.call with
  | .transfer sender _ q _ =>
    if e.self ∈ a.actors ∧ sender = e.self ∧ (a.account = e.self ∨ a.account = Name.eosio_token) then q.val
    else 0
  | _ => 0

/-- The EOS that the action brings to the contract and that nobody is paid for. -/
def deposit (a : Action) : Int :=
  match a.call with
  | .transfer sender recipient q _ =>
    if a.account = Name.eosio_token ∧ System.Exempt sender ∧ recipient = e.self then q.of Symbol.EOS.code
    else 0
  | _ => 0

def owed (pending : List Queued) : Int := (pending.map fun q => e.payout q.act).sum

/-- All that has come from `eosio.ram` and `eosio.stake`. -/
def received (trace : List Queued) : Int := (trace.map fun q => e.deposit q.act).sum

/-- What others make `eosio` do leaves the contract its EOS. -/
def KeepsSelf : Prop :=
  ∀ call authorization x x' t t', e.self ∉ authorization.map (·.actor) →
    e.eosio call authorization x t = .ok (x', t') →
    (book t'.accounts).amount Symbol.EOS.code e.self = (book t.accounts).amount Symbol.EOS.code e.self

variable {e}

/-! ## Payouts -/

theorem payout_eq_zero {a : Action} (h : ∀ w q memo, a.call ≠ .transfer e.self w q memo) : e.payout a = 0 := by
  unfold payout
  split
  · rename_i sender w q memo hcall
    refine if_neg ?_
    rintro ⟨-, rfl, -⟩
    exact h w q memo hcall
  · rfl

theorem payout_unsigned {a : Action} (h : e.self ∉ a.actors) : e.payout a = 0 := by
  unfold payout
  split
  · exact if_neg fun hc => h hc.1
  · rfl

theorem payout_own {code w : Name} {q : Asset} {memo : Memo} (hcode : code = e.self ∨ code = Name.eosio_token) :
    e.payout ⟨code, System.active e.self, .transfer e.self w q memo⟩ = q.val :=
  if_pos ⟨List.mem_singleton_self _, rfl, hcode⟩

theorem payout_transfer {code u w : Name} {l : List PermissionLevel} {q : Asset} {memo : Memo}
    (hcode : code = e.self ∨ code = Name.eosio_token) (hu : u ∈ l.map (·.actor)) :
    e.payout ⟨code, l, .transfer u w q memo⟩ = if e.self = u then q.val else 0 := by
  by_cases hself : e.self = u
  · subst hself
    rw [if_pos rfl]
    exact if_pos ⟨hu, rfl, hcode⟩
  · rw [if_neg hself]
    exact if_neg fun hc => hself hc.2.1.symm

theorem payout_nonneg {a : Action} (ha : e.Signed e.Other a) : 0 ≤ e.payout a := by
  by_cases hs : e.self ∈ a.actors
  · cases ha.own hs with
    | pay_xyz _ hpos => rw [payout_own (.inl rfl)]; omega
    | pay_eos _ hpos => rw [payout_own (.inr rfl)]; omega
    | trace => exact le_refl 0
    | excess => exact le_refl 0
  · rw [payout_unsigned hs]

theorem payout_follow {c : Ctx} {account : Name} {b : Action} (h : System.Follow c account b)
    (hne : account ≠ e.self) : e.payout b = 0 := by
  refine payout_eq_zero fun w q memo hcall => ?_
  cases h <;> cases hcall
  exact hne rfl

theorem payout_send {code x w : Name} {q : Asset} {memo : Memo} (hne : x ≠ e.self) :
    e.payout (System.transfer_action code x x w q memo) = 0 := by
  refine payout_eq_zero fun w q memo hcall => ?_
  cases hcall
  exact hne rfl

theorem owed_queue (q : Queued) (queued : List Action) (rest : List Queued) :
    e.owed (queued.map q.child ++ rest) = (queued.map e.payout).sum + e.owed rest :=
  Machine.sum_queue _ _ _ _

theorem owed_cons (q : Queued) (rest : List Queued) : e.owed (q :: rest) = e.payout q.act + e.owed rest := rfl

theorem received_cons (q : Queued) (trace : List Queued) :
    e.received (q :: trace) = e.deposit q.act + e.received trace := rfl

/-! ## One action -/

theorem peg_system {s : State σ} {a : Action} {m : Asset} {o : Outcome System.Tables}
    (hm : System.Minted e.self m s.system) (ha : e.Signed e.Other a) (hacc : a.account = e.self)
    (h : System.Effect (e.view s a.authorization) s.system a.call o) :
    (book o.tables.accounts).amount m.symbol.code e.self + e.payout a =
      (book s.system.accounts).amount m.symbol.code e.self + (o.inline.map e.payout).sum := by
  obtain ⟨account, authorization, call⟩ := a
  simp only at hacc h
  subst hacc
  -- Only transfers out of the contract pay anything.
  have hpay : (∀ u w q memo, call ≠ .transfer u w q memo) → e.payout ⟨e.self, authorization, call⟩ = 0 :=
    fun hcall => payout_eq_zero fun w q memo => hcall _ w q memo
  cases h with
  | init hself hnew hvalid hpos hconfig hstat hadd =>
    exact absurd (.init hself hnew hvalid hpos hconfig hstat hadd) (System.Minted.no_init hm _)
  | @transfer u w q memo st accounts hne hauth _ hst hvalid hpos hsym _ hmove =>
    have hr := ((Asset.is_valid_iff _).1 hvalid).1
    have hq : q.of m.symbol.code = q.val := by rw [← Asset.of_self q, hsym, hm.stat_eq hst]
    -- What comes in is swapped.
    have hswap : ((if w = e.self then [System.credit_action (e.view s authorization).toCtx u q] else []).map
        e.payout).sum = if e.self = w then q.val else 0 := by
      by_cases hw : w = e.self
      · rw [if_pos hw, if_pos hw.symm, List.map_singleton, List.sum_singleton]
        exact payout_own (.inr rfl)
      · rw [if_neg hw, if_neg (Ne.symm hw), List.map_nil, List.sum_nil]
    rw [payout_transfer (.inl rfl) (mem_actors hauth), hmove.amount hpos hr.2, moved_apply, hq]
    refine Eq.trans ?_ (congrArg _ hswap).symm
    omega
  | opened _ _ _ _ hadd =>
    rw [hpay (by simp), amount_of_emplace hadd rfl]
    rfl
  | closed _ hrow hzero herase =>
    rw [hpay (by simp), amount_of_erase herase hrow hzero]
    rfl
  | blocked => rw [hpay (by simp)]; rfl
  | swapto_eos hauth =>
    have hx := ha.signer (mem_actors hauth) rfl
    rw [hpay (by simp), Machine.sum_map_eq_zero (by simp [payout_send hx])]
  | swapto_xyz hauth =>
    have hx := ha.signer (mem_actors hauth) rfl
    rw [hpay (by simp), Machine.sum_map_eq_zero (by simp [payout_send hx])]
  | excess hself =>
    have hx := (ha.own (mem_actors hself)).serves rfl
    rw [hpay (by simp), Machine.sum_map_eq_zero (by simp [payout_send hx])]
  | traced => rw [hpay (by simp)]; rfl
  | idle hcall =>
    rw [hpay]
    · rfl
    · rintro u w q memo rfl; cases hcall
  | @swapped call account q accounts rest hauth hswap hrest =>
    have hx : account ≠ e.self := ha.signer (mem_actors hauth) rfl
    have hq : q.of m.symbol.code = q.val := by
      rw [← Asset.of_self q, System.Minted.config_eq hm hswap.symbol]
    have hcredit : e.payout (System.credit_action (e.view s authorization).toCtx account q) = q.val :=
      payout_own (.inr rfl)
    have htrace : e.payout (System.swaptrace_action (e.view s authorization).toCtx account q) = 0 := rfl
    have hzero := Machine.sum_map_eq_zero fun b hb => payout_follow (hrest b hb) hx
    rw [hpay (by simp), hswap.moved.amount hswap.pos hswap.small, moved_apply, hq,
      if_neg (Ne.symm hx), if_pos (by rfl), List.map_cons, List.map_cons, List.sum_cons, List.sum_cons,
      htrace, hcredit, hzero]
    omega
  | passed hauth hrest =>
    have hx := ha.signer (mem_actors hauth) rfl
    rw [hpay (by simp), Machine.sum_map_eq_zero fun b hb => payout_follow (hrest b hb) hx]

theorem peg_token {s : State σ} {a : Action} {o : Outcome Token.Tables} (ha : e.Signed e.Other a)
    (hacc : a.account = Name.eosio_token)
    (h : Token.Effect (e.ctx s Name.eosio_token a.authorization) s.token a.call o)
    (hout : ¬ e.SwapsIn a.call) :
    (book o.tables.accounts).amount Symbol.EOS.code e.self + e.payout a =
      (book s.token.accounts).amount Symbol.EOS.code e.self + e.deposit a := by
  obtain ⟨account, authorization, call⟩ := a
  simp only at hacc h hout
  subst hacc
  have hzero : (∀ u w q memo, call ≠ .transfer u w q memo) →
      e.payout ⟨Name.eosio_token, authorization, call⟩ = 0 ∧
        e.deposit ⟨Name.eosio_token, authorization, call⟩ = 0 := by
    refine fun hcall => ⟨payout_eq_zero fun w q memo => hcall _ w q memo, ?_⟩
    unfold deposit
    split
    · exact absurd ‹_› (hcall _ _ _ _)
    · rfl
  cases h.flow with
  | @issued call issuer q hcall hauth hbook =>
    have hx : issuer ≠ e.self := ha.signer (mem_actors hauth) (by cases call <;> first | rfl | cases hcall)
    obtain ⟨hp, hd⟩ := hzero (by rintro u w q memo rfl; cases hcall)
    rw [hp, hd, hbook, gained_ne _ _ (Ne.symm hx)]
  | @retired issuer q memo hauth hbook =>
    have hx : issuer ≠ e.self := ha.signer (mem_actors hauth) rfl
    obtain ⟨hp, hd⟩ := hzero (by simp)
    rw [hp, hd, hbook, gained_ne _ _ (Ne.symm hx)]
  | @transferred u w q memo hne hauth hpos hbook =>
    -- What comes in without a swap comes from an exempt account.
    have hexempt : u ≠ e.self → w = e.self → System.Exempt u := by
      rintro hu rfl
      by_contra hn
      exact hout ⟨u, q, memo, rfl, hu, hn⟩
    have hd : e.deposit ⟨Name.eosio_token, authorization, .transfer u w q memo⟩ =
        if e.self = w then q.of Symbol.EOS.code else 0 := by
      by_cases hw : e.self = w
      · rw [if_pos hw]
        exact if_pos ⟨rfl, hexempt (fun hu => hne (hu.trans hw)) hw.symm, hw.symm⟩
      · rw [if_neg hw]
        exact if_neg fun hc => hw hc.2.2.symm
    rw [payout_transfer (.inr rfl) (mem_actors hauth), hd, hbook, moved_apply]
    by_cases hu : e.self = u
    · -- The contract pays in EOS.
      subst hu
      rw [← (ha.own (mem_actors hauth)).eos rfl rfl, Asset.of_self]
      omega
    · rw [if_neg hu, if_neg hu]
      omega
  | still hcall hbook =>
    obtain ⟨hp, hd⟩ := hzero hcall
    rw [hp, hd, hbook]

/-- What one action changes: every payout that it queues is matched by tokens that came
in, and every payout that it makes takes tokens away. -/
theorem peg_exec (hkeeps : e.KeepsSelf) {s s' : State σ} {a : Action} {queued : List Action} {m : Asset}
    (hm : System.Minted e.self m s.system) (ha : e.Signed e.Other a)
    (h : e.exec s a = .ok (s', queued)) :
    s'.eos e.self + s'.xyz m.symbol.code e.self + e.payout a =
      s.eos e.self + s.xyz m.symbol.code e.self + e.deposit a + (queued.map e.payout).sum := by
  simp only [State.eos_eq, State.xyz_eq]
  have hdeposit : a.account ≠ Name.eosio_token → e.deposit a = 0 := by
    intro hacc
    unfold deposit
    split
    · exact if_neg fun hc => hacc hc.1
    · rfl
  cases exec_effect h with
  | system hacc heffect =>
    have := peg_system hm ha hacc heffect
    rw [hdeposit (hacc ▸ e.self_ne_token)]
    dsimp only
    omega
  | token hacc heffect hout =>
    have := peg_token ha hacc heffect hout
    simp only [List.map_nil, List.sum_nil]
    omega
  | @swap_in o sender q memo symbol hacc hcall heffect hsender hexempt hpos hq hcfg =>
    have hflow := heffect.flow
    rw [hcall] at hflow
    have hof : q.of Symbol.EOS.code = q.val := by rw [← Asset.of_self q, hq]
    have hp : e.payout a = 0 := payout_eq_zero fun _ _ _ hc => by
      rw [hcall] at hc
      cases hc
      exact hsender rfl
    have hd : e.deposit a = 0 := by
      unfold deposit
      rw [hcall]
      exact if_neg fun hc => hexempt hc.2.1
    have hpay : e.payout (System.transfer_action e.self e.self e.self sender ⟨q.amount, symbol⟩ memo) = q.val :=
      payout_own (.inl rfl)
    cases hflow with
    | issued hissue => cases hissue
    | transferred _ _ _ hbook =>
      rw [hbook, moved_apply, hp, hd, hof, if_neg (Ne.symm hsender), if_pos rfl, List.map_singleton,
        List.sum_singleton, hpay]
      dsimp only
      omega
    | still hne => exact absurd rfl (hne _ _ _ _)
  | @eosio call x token hacc hcall hx =>
    have hself : e.self ∉ a.actors := fun hs => by
      have := (ha.own hs).call_own
      rw [hcall] at this
      cases this
    have hp := payout_unsigned hself
    rw [hp, hdeposit (by rw [hacc]; decide)]
    dsimp only
    rw [hkeeps call a.authorization _ _ _ _ hself hx]
    simp
  | nobody hself htoken =>
    have hp : e.payout a = 0 := by
      unfold payout
      split
      · exact if_neg fun hc => hc.2.2.elim hself htoken
      · rfl
    rw [hp, hdeposit htoken]
    simp

theorem deposit_nonneg {s s' : State σ} {a : Action} {queued : List Action}
    (h : e.exec s a = .ok (s', queued)) : 0 ≤ e.deposit a := by
  unfold deposit
  split
  · rename_i sender recipient q memo hcall
    split
    · rename_i hc
      obtain ⟨o, heffect⟩ := exec_token hc.1 h
      rw [hcall] at heffect
      cases heffect with
      | issue hissue => cases hissue
      | transfer _ _ _ _ _ hpos => exact Asset.of_nonneg (le_of_lt hpos) _
    · exact le_refl 0
  · exact le_refl 0

/-! ## Any run -/

structure PegInv (m : Asset) (eos_before : Int) (c : Config σ) : Prop where
  minted : System.Minted e.self m c.state.system
  signed : ∀ q ∈ c.pending, e.Signed e.Other q.act
  received : 0 ≤ e.received c.trace
  peg : c.state.eos e.self + c.state.xyz m.symbol.code e.self =
    m.val + eos_before + e.received c.trace + e.owed c.pending

theorem pegInv_start {m : Asset} {s₀ : State σ} (hinit : e.Initialised m s₀) :
    e.PegInv m (s₀.eos e.self) ⟨s₀, [], []⟩ where
  minted := hinit.minted
  signed := by simp
  received := le_refl 0
  peg := by
    rw [hinit.xyz, if_pos rfl]
    simp only [received, owed, List.map_nil, List.sum_nil]
    omega

theorem pegInv_step (hkeeps : e.KeepsSelf) {m : Asset} {n : Int} {s s' : State σ} {q : Queued}
    {rest trace : List Queued} {queued : List Action} (h : e.PegInv m n ⟨s, q :: rest, trace⟩)
    (hexec : e.exec s q.act = .ok (s', queued)) :
    e.PegInv m n ⟨s', queued.map q.child ++ rest, q :: trace⟩ where
  minted := minted_exec hexec h.minted
  signed := signed_queue not_other_self h.signed hexec
  received := by
    have := deposit_nonneg hexec
    have := h.received
    simp only [received_cons] at *
    omega
  peg := by
    have hchange := peg_exec hkeeps h.minted (h.signed q (List.mem_cons_self ..)) hexec
    have hpeg := h.peg
    simp only [received_cons, owed_cons, owed_queue] at *
    omega

theorem pegInv (hkeeps : e.KeepsSelf) {m : Asset} {s₀ : State σ} {c : Config σ}
    (hinit : e.Initialised m s₀) (h : e.After s₀ c) : e.PegInv m (s₀.eos e.self) c := by
  refine h.invariant (e.PegInv m (s₀.eos e.self)) ?_ ?_ ?_
  · rintro s rfl
    exact pegInv_start hinit
  · intro s trace acts hinv hforeign
    -- Nobody else's signature pays anything out.
    have howed : e.owed (acts.map Machine.Queued.top) = 0 :=
      (Machine.sum_top _ _).trans (Machine.sum_map_eq_zero fun a ha => payout_unsigned (hforeign a ha))
    exact ⟨hinv.minted, signed_begin hforeign, hinv.received, by rw [howed]; exact hinv.peg⟩
  · exact fun _ _ _ _ _ _ hinv hexec => pegInv_step hkeeps hinv hexec

/-- **The peg.** In the middle of a transaction too, the contract has, in both tokens
together, what `init` issued, what it had then, what the exempt accounts sent it, and
what it still has to pay out. So its EOS covers all the XYZ that is not its own. -/
theorem peg (hkeeps : e.KeepsSelf) (ht : e.ThroughToken) {m : Asset} {s₀ : State σ} {c : Config σ}
    (hinit : e.Initialised m s₀) (h : e.After s₀ c) :
    c.state.eos e.self + c.state.xyz m.symbol.code e.self =
        m.val + s₀.eos e.self + e.received c.trace + e.owed c.pending ∧
      m.val - c.state.xyz m.symbol.code e.self ≤ c.state.eos e.self := by
  have hinv := pegInv hkeeps hinit h
  have hbefore : 0 ≤ s₀.eos e.self := by
    rw [State.eos_eq]
    exact (after_token_sound ht hinit (.start rfl)).nonneg _ _
  have howed : 0 ≤ e.owed c.pending := List.sum_nonneg fun x hx => by
    obtain ⟨q, hq, rfl⟩ := List.mem_map.1 hx
    exact payout_nonneg (hinv.signed q hq)
  have hreceived := hinv.received
  have hpeg := hinv.peg
  exact ⟨hpeg, by omega⟩

theorem tiny_keepsSelf : Tiny.env.KeepsSelf := by
  rintro call authorization x x' t t' - h
  cases h
  rfl

/-- Half a swap: the EOS is there, the XYZ are still to be paid. -/
theorem peg_half_swap : ∃ c, Tiny.env.After Tiny.start c ∧ Tiny.env.owed c.pending = 100 ∧
    c.state.eos Tiny.env.self + c.state.xyz Tiny.XYZ.code Tiny.env.self = 1000000 + 100 := by
  obtain ⟨s, queued, hexec, howed⟩ : ∃ s queued, Tiny.env.exec Tiny.start Tiny.swap = .ok (s, queued) ∧
      (queued.map Tiny.env.payout).sum = 100 := ⟨_, _, rfl, by decide⟩
  have hafter : Tiny.env.After Tiny.start _ :=
    .step (.begin (.start rfl) (Tiny.foreign_single (by decide))) (.run hexec)
  obtain ⟨hpeg, -⟩ := peg tiny_keepsSelf tiny_throughToken Tiny.initialised hafter
  refine ⟨_, hafter, ?_, ?_⟩
  · rw [owed_queue, howed]; rfl
  · rw [owed_queue, howed] at hpeg
    exact hpeg

end Vaulta.Env
