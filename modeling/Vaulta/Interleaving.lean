import Vaulta.Calls
import Vaulta.Swapto
import Vaulta.Trace
import Vaulta.Weave

/-!
# Others in the middle of a swap

A swap takes one token, and pays with the other one in a later action. Between the two,
contracts on other accounts can act. Whatever they do, without the contract's own
authority, every payout in the queue stays covered, and the books stay right.
-/

namespace Vaulta.Env

variable {σ : Type} (e : Env σ)

/-- What can happen after `s₀` when others may act at any time. -/
def Woven (s₀ : State σ) (c : Config σ) : Prop :=
  Machine.Weaves e.exec (fun a => e.self ∉ a.actors) ⟨s₀, [], []⟩ c

variable {e} {m : Asset} {s₀ : State σ} {c : Config σ}

theorem After.woven (h : e.After s₀ c) : e.Woven s₀ c := by
  obtain ⟨s, rfl, hw⟩ := Machine.Reach.weaves (fun acts (hacts : e.Foreign acts) => hacts) h
  exact hw

/-! ## What goes on holding -/

theorem signed_slip {s : State σ} {pending trace : List Queued} {a : Action}
    (hs : ∀ q ∈ (⟨s, pending, trace⟩ : Config σ).pending, e.Signed e.Other q.act) (ha : e.self ∉ a.actors) :
    ∀ q ∈ Machine.Queued.top a :: pending, e.Signed e.Other q.act := by
  intro q hq
  rcases List.mem_cons.1 hq with rfl | hq
  · exact signed_of_foreign ha fun n hn hne => ha (hne ▸ hn)
  · exact hs q hq

theorem woven_signed (h : e.Woven s₀ c) : ∀ q ∈ c.pending, e.Signed e.Other q.act := by
  refine h.invariant (fun c => ∀ q ∈ c.pending, e.Signed e.Other q.act) ?_ ?_ (by simp)
  · exact fun s s' q rest trace queued hq hexec => signed_queue not_other_self hq hexec
  · exact fun s pending trace a hs ha => signed_slip hs ha

theorem woven_minted (hinit : e.Initialised m s₀) (h : e.Woven s₀ c) : System.Minted e.self m c.state.system :=
  h.kept (P := fun s => System.Minted e.self m s.system) (fun _ _ _ _ hexec hs => minted_exec hexec hs) hinit.minted

theorem woven_token_kept {P : Token.Tables → Prop} (ht : e.ThroughToken) (hP : Token.Kept P) (hempty : P .empty)
    (hinit : e.Initialised m s₀) (h : e.Woven s₀ c) : P c.state.token :=
  h.kept (P := fun s => P s.token) (fun _ _ _ _ hexec hs => token_kept_exec ht hP hexec hs)
    (later_token_kept ht hP hempty hinit (.start rfl))

theorem woven_pegInv (hkeeps : e.KeepsSelf) (hinit : e.Initialised m s₀) (h : e.Woven s₀ c) :
    e.PegInv m (s₀.eos e.self) c := by
  refine h.invariant (e.PegInv m (s₀.eos e.self)) ?_ ?_ (pegInv_start hinit)
  · exact fun _ _ _ _ _ _ hinv hexec => pegInv_step hkeeps hinv hexec
  · intro s pending trace a hinv ha
    refine ⟨hinv.minted, signed_slip hinv.signed ha, hinv.received, ?_⟩
    -- Nobody else's signature pays anything out.
    have howed : e.owed (.top a :: pending) = e.payout a + e.owed pending := owed_cons _ _
    rw [payout_unsigned ha, zero_add] at howed
    rw [howed]
    exact hinv.peg

/-! ## Payouts -/

/-- A payout that passes every check but those of the balance and of the account. -/
inductive Payout (e : Env σ) (m : Asset) : Name → Action → Prop
  | xyz {u : Name} {n : Int64} {memo : Memo} (hu : u ≠ e.self) (hpos : 0 < n.toInt) (hmemo : memo.length ≤ 256) :
      Payout e m u (System.transfer_action e.self e.self e.self u ⟨n, m.symbol⟩ memo)
  | eos {u : Name} {n : Int64} (hu : u ≠ e.self) (hpos : 0 < n.toInt) :
      Payout e m u (System.transfer_action Name.eosio_token e.self e.self u ⟨n, Symbol.EOS⟩ [])

/-- All that the contract has signed a transfer for is a payout. -/
def PaysOut (e : Env σ) (m : Asset) (a : Action) : Prop :=
  e.self ∈ a.actors → ∀ u w q memo, a.call = .transfer u w q memo → e.Payout m w a

theorem paysOut_unsigned {a : Action} (h : e.self ∉ a.actors) : e.PaysOut m a := fun hself => absurd hself h

theorem paysOut_active {x code : Name} (hx : x ≠ e.self) (call : Call) :
    e.PaysOut m ⟨code, System.active x, call⟩ :=
  paysOut_unsigned fun hself => hx (List.mem_singleton.1 hself).symm

theorem paysOut_follow {c : Ctx} {account : Name} {b : Action} (h : System.Follow c account b)
    (hx : account ≠ e.self) : e.PaysOut m b := by
  cases h with
  | forward | enforce | swap => exact paysOut_active hx _
  | excess => exact fun _ u w q memo hcall => by cases hcall

theorem paysOut_credit {c : Ctx} (hc : c.self = e.self) {u : Name} (hu : u ≠ e.self) {q : Asset} (hpos : 0 < q.val) :
    e.PaysOut m (System.credit_action c u q) := by
  intro _ x w v memo hcall
  cases hcall
  unfold System.credit_action
  rw [hc]
  exact .eos hu hpos

theorem system_paysOut {s : State σ} {a : Action} {o : Outcome System.Tables} (ha : e.Signed e.Other a)
    (hacc : a.account = e.self) (h : System.Effect (e.view s a.authorization) s.system a.call o) :
    ∀ b ∈ o.inline, e.PaysOut m b := by
  obtain ⟨account, authorization, call⟩ := a
  simp only at hacc h
  subst hacc
  cases h with
  | init | opened | closed | blocked | traced | idle => simp
  | transfer hne _ _ _ _ hpos =>
    split
    · rename_i hrec
      simp only [List.mem_singleton, forall_eq]
      exact paysOut_credit rfl (fun hu => hne (hu.trans hrec.symm)) hpos
    · simp
  | swapto_eos hauth =>
    have hx := ha.signer (mem_actors hauth) rfl
    simp only [List.mem_cons, List.not_mem_nil, or_false, forall_eq_or_imp, forall_eq]
    exact ⟨paysOut_active hx _, paysOut_active hx _⟩
  | swapto_xyz hauth =>
    have hx := ha.signer (mem_actors hauth) rfl
    simp only [List.mem_cons, List.not_mem_nil, or_false, forall_eq_or_imp, forall_eq]
    exact ⟨paysOut_active hx _, paysOut_active hx _⟩
  | excess hself =>
    simp only [List.mem_singleton, forall_eq]
    exact paysOut_active ((ha.own (mem_actors hself)).serves rfl) _
  | swapped hauth hswap hrest =>
    have hx := ha.signer (mem_actors hauth) rfl
    simp only [List.mem_cons, forall_eq_or_imp]
    refine ⟨fun _ u w q memo hcall => ?_, paysOut_credit rfl hx hswap.pos, fun b hb => paysOut_follow (hrest b hb) hx⟩
    cases hcall
  | passed hauth hrest =>
    have hx := ha.signer (mem_actors hauth) rfl
    exact fun b hb => paysOut_follow (hrest b hb) hx

theorem exec_paysOut {s s' : State σ} {a : Action} {queued : List Action} (hm : System.Minted e.self m s.system)
    (ha : e.Signed e.Other a) (h : e.exec s a = .ok (s', queued)) : ∀ b ∈ queued, e.PaysOut m b := by
  cases exec_effect h with
  | system hacc heffect => exact system_paysOut ha hacc heffect
  | swap_in hacc hcall heffect hsender _ hpos _ hcfg =>
    simp only [List.mem_singleton, forall_eq]
    rw [hcall] at heffect
    rintro - u w q memo hpay
    cases hpay
    obtain rfl := hm.config_eq hcfg
    cases heffect with
    | issue hissue => cases hissue
    | transfer _ _ _ _ _ _ _ hmemo => exact .xyz hsender hpos hmemo
  | token | eosio | nobody => simp

theorem woven_paysOut (hinit : e.Initialised m s₀) (h : e.Woven s₀ c) : ∀ q ∈ c.pending, e.PaysOut m q.act := by
  suffices hinv : System.Minted e.self m c.state.system ∧
      ∀ q ∈ c.pending, e.Signed e.Other q.act ∧ e.PaysOut m q.act from fun q hq => (hinv.2 q hq).2
  refine h.invariant (fun c => System.Minted e.self m c.state.system ∧
      ∀ q ∈ c.pending, e.Signed e.Other q.act ∧ e.PaysOut m q.act) ?_ ?_ ⟨hinit.minted, by simp⟩
  · rintro s s' q rest trace queued ⟨hm, hs⟩ hexec
    refine ⟨minted_exec hexec hm, fun p hp => ?_⟩
    have hq := (hs q (List.mem_cons_self ..)).1
    rcases List.mem_append.1 hp with hp | hp
    · obtain ⟨b, hb, rfl⟩ := List.mem_map.1 hp
      exact ⟨exec_signed not_other_self hq hexec b hb, exec_paysOut hm hq hexec b hb⟩
    · exact hs p (List.mem_cons_of_mem _ hp)
  · rintro s pending trace a ⟨hm, hs⟩ ha
    refine ⟨hm, fun q hq => ?_⟩
    rcases List.mem_cons.1 hq with rfl | hq
    · exact ⟨signed_of_foreign ha fun n hn hne => ha (hne ▸ hn), paysOut_unsigned ha⟩
    · exact hs q hq

theorem owed_nonneg {pending : List Queued} (h : ∀ q ∈ pending, e.Signed e.Other q.act) : 0 ≤ e.owed pending :=
  List.sum_nonneg fun x hx => by
    obtain ⟨q, hq, rfl⟩ := List.mem_map.1 hx
    exact payout_nonneg (h q hq)

/-- Where the contract can pay all that it owes, it can pay what it owes first. -/
theorem Payout.commits {s : State σ} {a : Action} {w : Name} (h : e.Payout m w a)
    (hm : System.Minted e.self m s.system) {st : CurrencyStats} (heos : Token.Eos s.token st)
    (hacc : e.is_account s.eosio w = true) (hle : e.payout a ≤ s.eos e.self)
    (hle' : e.payout a ≤ s.xyz m.symbol.code e.self) : ∃ s', e.Commits s [a] s' := by
  cases h with
  | @xyz n memo hu hpos hmemo =>
    have hpay : e.payout (System.transfer_action e.self e.self e.self w ⟨n, m.symbol⟩ memo) = n.toInt :=
      payout_own (.inl rfl)
    exact send_xyz_ok hm (Ne.symm hu) hu hacc hmemo hpos (hpay ▸ hle')
  | @eos n hu hpos =>
    have hpay : e.payout (System.transfer_action Name.eosio_token e.self e.self w ⟨n, Symbol.EOS⟩ []) = n.toInt :=
      payout_own (.inr rfl)
    exact send_eos_ok heos.stat heos.symbol heos.sound heos.small (Ne.symm hu) hu hacc (by decide) hpos (hpay ▸ hle)

/-- **Payouts stay covered.** At any point of a run in which nobody signs for the contract,
and with anybody else's actions between any two actions of a transaction, the peg holds, and
the EOS of the contract covers all that it has queued to pay, in both tokens together. So
does its XYZ, if there is no more EOS than was issued of XYZ. Then the payout that comes next
goes through, if only its account exists. -/
theorem payouts_covered (hkeeps : e.KeepsSelf) (ht : e.ThroughToken) (hinit : e.Initialised m s₀)
    (h : e.Woven s₀ c) :
    c.state.eos e.self + c.state.xyz m.symbol.code e.self =
        m.val + s₀.eos e.self + e.received c.trace + e.owed c.pending ∧
      e.owed c.pending ≤ c.state.eos e.self ∧
      ∀ st, c.state.token.stat.find Symbol.EOS.code Symbol.EOS.code = some st → st.supply.symbol = Symbol.EOS →
        st.supply.val ≤ m.val →
        e.owed c.pending ≤ c.state.xyz m.symbol.code e.self ∧
          ∀ q rest u w v memo, c.pending = q :: rest → e.self ∈ q.act.actors → q.act.call = .transfer u w v memo →
            e.is_account c.state.eosio w = true → ∃ s', e.Commits c.state [q.act] s' := by
  have hinv := woven_pegInv hkeeps hinit h
  have hpeg := hinv.peg
  have hreceived := hinv.received
  have hm := woven_minted hinit h
  have hmax := hm.sound.amount_le e.self
  rw [← State.xyz_eq] at hmax
  have hbefore : 0 ≤ s₀.eos e.self := by
    rw [State.eos_eq]
    exact (after_token_sound ht hinit (.start rfl)).nonneg _ _
  have heos : e.owed c.pending ≤ c.state.eos e.self := by omega
  refine ⟨hpeg, heos, fun st hst hsym hsupply => ?_⟩
  have htoken : Token.Eos c.state.token st := ⟨woven_token_kept ht Token.ledger_kept .empty hinit h, hst, hsym⟩
  have hsupplied := htoken.sound.amount_le e.self
  rw [← State.eos_eq] at hsupplied
  have hxyz : e.owed c.pending ≤ c.state.xyz m.symbol.code e.self := by omega
  refine ⟨hxyz, fun q rest u w v memo hpending hself hcall hacc => ?_⟩
  have hpays := woven_paysOut hinit h q (by rw [hpending]; exact List.mem_cons_self ..) hself u w v memo hcall
  have hrest := owed_nonneg fun p hp => woven_signed h p (by rw [hpending]; exact List.mem_cons_of_mem _ hp)
  rw [hpending, owed_cons] at heos hxyz
  exact hpays.commits hm htoken hacc (by omega) (by omega)

/-- Between the halves of a swap `alice` makes another one, and then both are owed. -/
theorem payouts_covered_alice : ∃ c, Tiny.env.Woven Tiny.start c ∧ Tiny.env.owed c.pending = 200 ∧
    200 ≤ c.state.xyz Tiny.XYZ.code Tiny.env.self ∧ ∃ q rest s', c.pending = q :: rest ∧
      Tiny.env.Commits c.state [q.act] s' := by
  have hswap : Tiny.env.self ∉ Tiny.swap.actors := by decide
  obtain ⟨s₁, queued₁, hexec₁, hs₁⟩ : ∃ s₁ queued₁, Tiny.env.exec Tiny.start Tiny.swap = .ok (s₁, queued₁) ∧
      ∃ s₂ queued₂, Tiny.env.exec s₁ Tiny.swap = .ok (s₂, queued₂) ∧ (queued₁.map Tiny.env.payout).sum = 100 ∧
        (queued₂.map Tiny.env.payout).sum = 100 ∧
        s₂.token.stat.find Symbol.EOS.code Symbol.EOS.code =
          some ⟨⟨1000, Symbol.EOS⟩, ⟨5000, Symbol.EOS⟩, Tiny.alice⟩ ∧
        queued₂ = [System.transfer_action Tiny.env.self Tiny.env.self Tiny.env.self Tiny.alice ⟨100, Tiny.XYZ⟩ []] :=
    ⟨_, _, rfl, _, _, rfl, by decide, by decide, rfl, rfl⟩
  obtain ⟨s₂, queued₂, hexec₂, howed₁, howed₂, hstat, hqueued⟩ := hs₁
  have hwoven : Tiny.env.Woven Tiny.start _ :=
    (((Relation.ReflTransGen.refl.tail (.slip hswap)).tail (.act (.run hexec₁))).tail (.slip hswap)).tail
      (.act (.run hexec₂))
  obtain ⟨-, -, hcovered⟩ := payouts_covered tiny_keepsSelf tiny_throughToken Tiny.initialised hwoven
  obtain ⟨hxyz, hnext⟩ := hcovered _ hstat rfl (by decide)
  have howed : Tiny.env.owed (queued₂.map (Machine.Queued.top Tiny.swap).child ++
      (queued₁.map (Machine.Queued.top Tiny.swap).child ++ [])) = 200 := by
    rw [owed_queue, owed_queue, howed₁, howed₂]
    rfl
  refine ⟨_, hwoven, howed, howed ▸ hxyz, ?_⟩
  subst hqueued
  obtain ⟨s', hs'⟩ := hnext _ _ _ _ _ _ rfl (by decide) rfl rfl
  exact ⟨_, _, s', rfl, hs'⟩

/-! ## The books -/

theorem woven_tidy (hinit : e.Initialised m s₀) (h : e.Woven s₀ c) :
    System.AllTidy e.self m.symbol.code c.state.system.accounts := by
  suffices hinv : System.AllTidy e.self m.symbol.code c.state.system.accounts ∧
      System.Minted e.self m c.state.system ∧ ∀ q ∈ c.pending, e.Signed e.Other q.act from hinv.1
  refine h.invariant (fun c => System.AllTidy e.self m.symbol.code c.state.system.accounts ∧
      System.Minted e.self m c.state.system ∧ ∀ q ∈ c.pending, e.Signed e.Other q.act) ?_ ?_ ?_
  · rintro s s' q rest trace queued ⟨ht, hm, hs⟩ hexec
    exact ⟨exec_tidy hm (hs q (List.mem_cons_self ..)) hexec ht, minted_exec hexec hm,
      signed_queue not_other_self hs hexec⟩
  · rintro s pending trace a ⟨ht, hm, hs⟩ ha
    exact ⟨ht, hm, signed_slip hs ha⟩
  · exact ⟨after_tidy hinit (.start rfl), hinit.minted, by simp⟩

theorem woven_total (hinit : e.Initialised m s₀) (h : e.Woven s₀ c) (n : Name) :
    c.state.xyz m.symbol.code n =
      s₀.xyz m.symbol.code n + total (e.change n) c.trace + total (e.due n) c.pending := by
  suffices hinv : System.Minted e.self m c.state.system ∧ c.state.xyz m.symbol.code n =
      s₀.xyz m.symbol.code n + total (e.change n) c.trace + total (e.due n) c.pending from hinv.2
  refine h.invariant (fun c => System.Minted e.self m c.state.system ∧ c.state.xyz m.symbol.code n =
      s₀.xyz m.symbol.code n + total (e.change n) c.trace + total (e.due n) c.pending) ?_ ?_ ?_
  · rintro s s' q rest trace queued ⟨hm, hs⟩ hexec
    refine ⟨minted_exec hexec hm, ?_⟩
    have hchange := xyz_change hm hexec n
    simp only [total_cons, total_queue] at *
    omega
  · rintro s pending trace a ⟨hm, hs⟩ ha
    -- A note without the contract's signature is never recorded.
    have hdue : e.due n a = 0 := if_neg ha
    have hcons : total (e.due n) (.top a :: pending) = e.due n a + total (e.due n) pending := total_cons _ _ _
    rw [hdue, zero_add] at hcons
    exact ⟨hm, by rw [hcons]; exact hs⟩
  · exact ⟨hinit.minted, by simp [total]⟩

/-- **The books stay right.** At any point of a run in which nobody signs for the contract,
and whoever else has acted in the middle of whose transaction: no balance is negative and all
of them are what `init` issued. Every row is the only one of its scope, its payer pays for the
scope too, and the flag says whether that is its owner. Between transactions the trace tells
every balance. -/
theorem books_woven (hinit : e.Initialised m s₀) (h : e.Woven s₀ c) :
    (∀ u, 0 ≤ c.state.xyz m.symbol.code u) ∧ ∑ u, c.state.xyz m.symbol.code u = m.val ∧
      (∀ u k r, c.state.system.accounts.rows u k = some r → k = m.symbol.code ∧
        c.state.system.accounts.table u = some ⟨r.payer, 1⟩ ∧
        (u ≠ e.self → (r.row.released = true ↔ r.payer = u))) ∧
      (c.pending = [] → ∀ n, n ≠ e.self → c.state.xyz m.symbol.code n =
        total (e.incoming n) c.trace - total (e.outgoing n) c.trace - total (e.traced n) c.trace) := by
  have hm := woven_minted hinit h
  have ht := woven_tidy hinit h
  refine ⟨fun u => ?_, ?_, fun u k r hr => ?_, fun hdone n hn => ?_⟩
  · rw [State.xyz_eq]
    exact hm.sound.nonneg u
  · simp only [State.xyz_eq]
    exact hm.sound.total
  · obtain rfl := (ht u).single k r hr
    exact ⟨rfl, (ht u).billed r hr, fun hu => (ht u).flag hu r hr⟩
  · have htotal := woven_total hinit h n
    rw [hinit.xyz, if_neg hn, hdone, total_change, if_neg hn] at htotal
    simp only [total, List.map_nil, List.sum_nil] at htotal
    simp only [total]
    omega

theorem books_woven_alice : ∃ c, Tiny.env.Woven Tiny.start c ∧ c.pending.length = 1 ∧
    ∑ u, c.state.xyz Tiny.XYZ.code u = 1000000 := by
  obtain ⟨s, queued, hexec, hlength⟩ : ∃ s queued, Tiny.env.exec Tiny.start Tiny.swap = .ok (s, queued) ∧
      queued.length = 1 := ⟨_, _, rfl, rfl⟩
  have hswap : Tiny.env.self ∉ Tiny.swap.actors := by decide
  have hwoven : Tiny.env.Woven Tiny.start _ :=
    (Relation.ReflTransGen.refl.tail (.slip hswap)).tail (.act (.run hexec))
  exact ⟨_, hwoven, by simp [hlength], (books_woven Tiny.initialised hwoven).2.1⟩

end Vaulta.Env
