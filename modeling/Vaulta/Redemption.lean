import Vaulta.Excess

/-!
# Everybody can leave

The XYZ of an account can be swapped for EOS to the last unit, and then its row can be
closed. Any number of accounts can do that one after the other, and all of them too.
-/

namespace Vaulta.Env

variable {σ : Type} (e : Env σ)

def close_action (m : Asset) (u : Name) : Action := ⟨e.self, System.active u, .close u m.symbol⟩

/-- A transaction that swaps all that `u` has, and closes his row. -/
def leave (m : Asset) (s : State σ) (u : Name) : List Action :=
  match s.system.accounts.rows u m.symbol.code with
  | none => []
  | some r =>
    if 0 < r.row.balance.val then [e.xyz_in m u r.row.balance.amount [], e.close_action m u]
    else [e.close_action m u]

/-- They leave one after the other. -/
inductive Leaving (m : Asset) : List Name → State σ → State σ → Prop
  | nil {s : State σ} : Leaving m [] s s
  | cons {u : Name} {us : List Name} {s s₁ s' : State σ} (h : e.Commits s (e.leave m s u) s₁)
      (ht : Leaving m us s₁ s') : Leaving m (u :: us) s s'

/-- What `us` leave behind. -/
structure Left (m : Asset) (us : List Name) (s s' : State σ) : Prop where
  paid : ∀ u ∈ us, s'.eos u = s.eos u + s.xyz m.symbol.code u
  gone : ∀ u ∈ us, s'.system.accounts.rows u m.symbol.code = none
  others : ∀ w, w ∉ us → w ≠ e.self →
    s'.eos w = s.eos w ∧ s'.system.accounts.rows w = s.system.accounts.rows w
  peg : s'.eos e.self + s'.xyz m.symbol.code e.self = s.eos e.self + s.xyz m.symbol.code e.self
  stat : s'.token.stat = s.token.stat
  eosio : s'.eosio = s.eosio

variable {e} {m : Asset} {s s₁ s' : State σ} {u : Name} {us : List Name}

theorem Left.xyz_others (h : e.Left m us s s') {w : Name} (hw : w ∉ us) (hself : w ≠ e.self) (k : SymbolCode) :
    s'.xyz k w = s.xyz k w := by
  rw [xyz_rows, xyz_rows, (h.others w hw hself).2]

theorem Left.nil : e.Left m [] s s where
  paid := by simp
  gone := by simp
  others _ _ _ := ⟨rfl, rfl⟩
  peg := rfl
  stat := rfl
  eosio := rfl

theorem Left.cons (hself : ∀ w ∈ u :: us, w ≠ e.self) (hu : u ∉ us) (h1 : e.Left m [u] s s₁)
    (h2 : e.Left m us s₁ s') : e.Left m (u :: us) s s' where
  paid w hw := by
    rcases List.mem_cons.1 hw with rfl | hw
    · rw [(h2.others w hu (hself w (List.mem_cons_self ..))).1]
      exact h1.paid w (List.mem_singleton_self w)
    · have hne : w ∉ [u] := fun he => hu (List.mem_singleton.1 he ▸ hw)
      have hw' := hself w (List.mem_cons_of_mem _ hw)
      rw [h2.paid w hw, (h1.others w hne hw').1, h1.xyz_others hne hw']
  gone w hw := by
    rcases List.mem_cons.1 hw with rfl | hw
    · rw [(h2.others w hu (hself w (List.mem_cons_self ..))).2]
      exact h1.gone w (List.mem_singleton_self w)
    · exact h2.gone w hw
  others w hw hw' := by
    simp only [List.mem_cons, not_or] at hw
    obtain ⟨heos, hrows⟩ := h1.others w (by simp [hw.1]) hw'
    obtain ⟨heos', hrows'⟩ := h2.others w hw.2 hw'
    exact ⟨heos'.trans heos, hrows'.trans hrows⟩
  peg := h2.peg.trans h1.peg
  stat := h2.stat.trans h1.stat
  eosio := h2.eosio.trans h1.eosio

/-! ## One account -/

/-- What closing an empty row leaves. -/
def closed (m : Asset) (s : State σ) (u : Name) : State σ :=
  { s with system := { s.system with
      accounts := (s.system.accounts.remove u m.symbol.code).shrink u } }

theorem closed_xyz {r : Stored Name System.Account} (hr : s.system.accounts.rows u m.symbol.code = some r)
    (hzero : r.row.balance.val = 0) (k : SymbolCode) (w : Name) : (closed m s u).xyz k w = s.xyz k w := by
  rw [xyz_rows, xyz_rows, closed, MultiIndex.shrink_rows, MultiIndex.remove_rows, MultiIndex.put_apply]
  split
  · rename_i hw
    rw [hw.1, hw.2, hr, Option.map_some, Option.getD_some, hzero]
    rfl
  · rfl

theorem commits_close {r : Stored Name System.Account} (hr : s.system.accounts.rows u m.symbol.code = some r)
    (hzero : r.row.balance.val = 0) : e.Commits s [e.close_action m u] (closed m s u) := by
  have hfind : s.system.accounts.find u m.symbol.code = some r.row := MultiIndex.find_eq_some.2 ⟨r.payer, hr⟩
  have herase : s.system.accounts.erase u m.symbol.code =
      .ok ((s.system.accounts.remove u m.symbol.code).shrink u) :=
    MultiIndex.erase_eq_ok.2 ⟨by rw [hr]; simp, rfl⟩
  have hauth : (e.ctx s e.self (System.active u)).has_auth u = true := active_auth
  have hclose := System.close_eq_ok.2 ⟨r.row, _, hauth, hfind, hzero, herase, rfl⟩
  exact .cons (exec_own.2 ⟨_, hclose, rfl, rfl⟩) .nil

theorem left_close {r : Stored Name System.Account}
    (hr : s.system.accounts.rows u m.symbol.code = some r) (hzero : r.row.balance.val = 0) :
    e.Left m [u] s (closed m s u) where
  paid w hw := by
    rw [List.mem_singleton.1 hw, xyz_rows, hr, Option.map_some, Option.getD_some, hzero, add_zero]
    rfl
  gone w hw := by
    rw [List.mem_singleton.1 hw]
    exact MultiIndex.put_self ..
  others w hw _ := by
    refine ⟨rfl, ?_⟩
    funext k
    exact if_neg fun he => hw (List.mem_singleton.2 he.1)
  peg := by
    rw [closed_xyz hr hzero]
    rfl
  stat := rfl
  eosio := rfl

theorem left_none (hr : s.system.accounts.rows u m.symbol.code = none) : e.Left m [u] s s where
  paid w hw := by
    rw [List.mem_singleton.1 hw, xyz_rows, hr]
    exact (add_zero _).symm
  gone w hw := by rw [List.mem_singleton.1 hw, hr]
  others _ _ _ := ⟨rfl, rfl⟩
  peg := rfl
  stat := rfl
  eosio := rfl

theorem Left.after_swap {n : Int64} (hu : u ≠ e.self) (hn : n.toInt = s.xyz m.symbol.code u)
    (hex : e.Exchanged m u (-n.toInt) s s₁)
    (hrows : ∀ w, w ≠ u → w ≠ e.self → s₁.system.accounts.rows w = s.system.accounts.rows w)
    (hstat : s₁.token.stat = s.token.stat) (heosio : s₁.eosio = s.eosio) (h : e.Left m [u] s₁ s') :
    e.Left m [u] s s' := by
  have hxyz : s₁.xyz m.symbol.code u = 0 := by
    rw [hex.xyz, moved_recipient _ (Ne.symm hu), hn]
    exact add_neg_cancel _
  refine ⟨fun w hw => ?_, h.gone, fun w hw hself => ?_, ?_, h.stat.trans hstat, h.eosio.trans heosio⟩
  · have hpaid := h.paid w hw
    obtain rfl := List.mem_singleton.1 hw
    rw [hpaid, hxyz, hex.eos, moved_sender _ hu, hn]
    omega
  · obtain ⟨heos, hkept⟩ := h.others w hw hself
    have hw' : w ≠ u := fun he => hw (List.mem_singleton.2 he)
    refine ⟨?_, hkept.trans (hrows w hw' hself)⟩
    rw [heos, hex.eos, moved_apply, if_neg hw', if_neg hself, sub_zero, add_zero]
  · rw [h.peg, hex.eos, hex.xyz, moved_recipient _ hu, moved_sender _ (Ne.symm hu)]
    omega

theorem leave_ok (hm : System.Minted e.self m s.system) {st : CurrencyStats} (heos : Token.Eos s.token st)
    (hbacked : m.val - s.xyz m.symbol.code e.self ≤ s.eos e.self) (hu : u ≠ e.self)
    (hacc : e.is_account s.eosio u = true) : ∃ s', e.Commits s (e.leave m s u) s' ∧ e.Left m [u] s s' := by
  unfold leave
  cases hr : s.system.accounts.rows u m.symbol.code with
  | none => exact ⟨s, .nil, left_none hr⟩
  | some r =>
    have hval : s.xyz m.symbol.code u = r.row.balance.val := by rw [xyz_rows, hr]; rfl
    have hnonneg : 0 ≤ s.xyz m.symbol.code u := by rw [State.xyz_eq]; exact hm.sound.nonneg u
    have hcover := backed_covers hm hbacked hu
    by_cases hpos : 0 < r.row.balance.val
    · simp only [if_pos hpos]
      have hmemo : ([] : Memo).length ≤ 256 := by decide
      obtain ⟨s₁, hswap, hex⟩ := xyz_swap_ok (n := r.row.balance.amount) hm heos.stat heos.symbol heos.sound heos.small
        hu hacc (active_self u) hmemo hpos (le_of_eq hval.symm) (le_trans (le_of_eq hval.symm) hcover)
      obtain ⟨token, system, -, hsystem, -, rfl⟩ := (commits_xyz_swap hm hu).1 hswap
      obtain ⟨_, a, _, -, -, -, -, hrows⟩ := hsystem.rows hu
      have hrow : system.rows u m.symbol.code = some ⟨⟨a, true⟩, u⟩ := by
        rw [hrows, MultiIndex.put_apply, if_neg fun he => hu he.1, MultiIndex.put_self]
      have hempty := congrFun hex.xyz u
      rw [moved_recipient _ (Ne.symm hu), hval, xyz_rows, hrow] at hempty
      have hzero : a.val = 0 := hempty.trans (add_neg_cancel _)
      exact ⟨_, Machine.commits_head.2 ⟨_, hswap, commits_close hrow hzero⟩,
        (left_close hrow hzero).after_swap hu hval.symm hex
          (fun w hw hself => funext fun k => hsystem.rows_other hu (.inl ⟨hw, hself⟩)) rfl rfl⟩
    · simp only [if_neg hpos]
      have hzero : r.row.balance.val = 0 := by omega
      exact ⟨_, commits_close hr hzero, left_close hr hzero⟩

/-! ## Everybody -/

theorem leave_foreign (hu : u ≠ e.self) : e.Foreign (e.leave m s u) := by
  have hactive : e.self ∉ ((System.active u).map (·.actor)) := by
    rw [System.active, List.map_singleton, List.mem_singleton]
    exact Ne.symm hu
  intro a ha
  unfold leave at ha
  split at ha
  · exact absurd ha List.not_mem_nil
  · split at ha
    · rcases List.mem_cons.1 ha with rfl | ha
      · exact hactive
      · obtain rfl := List.mem_singleton.1 ha
        exact hactive
    · obtain rfl := List.mem_singleton.1 ha
      exact hactive

section Everybody

variable {s₀ : State σ} {trace : List Queued}

theorem leaving (hkeeps : e.KeepsSelf) (ht : e.ThroughToken) (hinit : e.Initialised m s₀) {st : CurrencyStats}
    (hsym : st.supply.symbol = Symbol.EOS) (hnodup : us.Nodup)
    (hus : ∀ u ∈ us, u ≠ e.self ∧ e.is_account s.eosio u = true) (h : e.After s₀ ⟨s, [], trace⟩)
    (hst : s.token.stat.find Symbol.EOS.code Symbol.EOS.code = some st) :
    ∃ s' trace', e.Leaving m us s s' ∧ e.Left m us s s' ∧ e.After s₀ ⟨s', [], trace'⟩ := by
  induction us generalizing s trace with
  | nil => exact ⟨s, trace, .nil, .nil, h⟩
  | cons u us ih =>
    obtain ⟨hu, hrest⟩ := List.nodup_cons.1 hnodup
    obtain ⟨hself, hacc⟩ := hus u (List.mem_cons_self ..)
    obtain ⟨s₁, hcommits, hleft⟩ := leave_ok (after_minted hinit h) (later_eos ht hinit h.later hst hsym)
      (after_backed hkeeps ht hinit h) hself hacc
    obtain ⟨trace₁, hafter⟩ := h.commit (leave_foreign hself) hcommits
    have hnext : ∀ w ∈ us, w ≠ e.self ∧ e.is_account s₁.eosio w = true := fun w hw =>
      hleft.eosio ▸ hus w (List.mem_cons_of_mem _ hw)
    obtain ⟨s', trace', hleaving, hleft', hafter'⟩ := ih hrest hnext hafter (hleft.stat ▸ hst)
    exact ⟨s', trace', .cons hcommits hleaving,
      .cons (fun w hw => (hus w hw).1) hu hleft hleft', hafter'⟩

/-- **Everybody can leave.** As long as nobody else has signed for the contract, any accounts
but its own can leave between transactions, one after the other and in any order, however
much EOS there is. Each one gets as many EOS as it has XYZ, and keeps no row and no RAM,
whoever paid for it, and nobody else's balance or row changes. When all have left, the
contract has everything that was issued again, and of EOS what it began with and what
`eosio.ram` and `eosio.stake` have sent it. -/
theorem everybody_leaves (hkeeps : e.KeepsSelf) (ht : e.ThroughToken) (hinit : e.Initialised m s₀)
    (h : e.After s₀ ⟨s, [], trace⟩) {st : CurrencyStats}
    (hst : s.token.stat.find Symbol.EOS.code Symbol.EOS.code = some st) (hsym : st.supply.symbol = Symbol.EOS)
    (hnodup : us.Nodup) (hus : ∀ u ∈ us, u ≠ e.self ∧ e.is_account s.eosio u = true) :
    ∃ s', e.Leaving m us s s' ∧
      (∀ u ∈ us, s'.eos u = s.eos u + s.xyz m.symbol.code u ∧
        s'.system.accounts.rows u m.symbol.code = none ∧ s'.system.accounts.table u = none) ∧
      (∀ w, w ∉ us → w ≠ e.self →
        s'.eos w = s.eos w ∧ s'.system.accounts.rows w = s.system.accounts.rows w) ∧
      ((∀ w, w ≠ e.self → s.xyz m.symbol.code w ≠ 0 → w ∈ us) →
        s'.xyz m.symbol.code e.self = m.val ∧ s'.eos e.self = s₀.eos e.self + e.received trace) := by
  obtain ⟨s', trace', hleaving, hleft, hafter⟩ := leaving hkeeps ht hinit hsym hnodup hus h hst
  have htidy := after_tidy hinit hafter
  refine ⟨s', hleaving, fun u hu => ⟨hleft.paid u hu, hleft.gone u hu, (htidy u).unused (hleft.gone u hu)⟩,
    hleft.others, fun hall => ?_⟩
  -- Nobody else has any XYZ now.
  have hnone : ∀ w, w ≠ e.self → s'.xyz m.symbol.code w = 0 := fun w hself => by
    by_cases hw : w ∈ us
    · rw [xyz_rows, hleft.gone w hw]
      rfl
    · rw [hleft.xyz_others hw hself]
      exact not_not.1 fun hne => hw (hall w hself hne)
  have htotal := (after_minted hinit hafter).sound.total
  have hself : s'.xyz m.symbol.code e.self = m.val := by
    rw [State.xyz_eq, ← htotal]
    refine (Finset.sum_eq_single e.self (fun w _ hw => ?_) fun hmem => absurd (Finset.mem_univ _) hmem).symm
    rw [← State.xyz_eq]
    exact hnone w hw
  have hpeg := (pegInv hkeeps hinit h).peg
  have howed : e.owed ([] : List Queued) = 0 := rfl
  have hkept := hleft.peg
  exact ⟨hself, by simp only [howed] at hpeg; omega⟩

theorem everybody_leaves_both : ∃ s', Tiny.env.Leaving Tiny.max_supply [Tiny.bob, Tiny.alice]
    (Tiny.run Tiny.start [Tiny.swap]) s' ∧ s'.eos Tiny.alice = 1000 ∧
    s'.xyz Tiny.XYZ.code Tiny.env.self = 1000000 ∧ s'.eos Tiny.env.self = 0 := by
  have hstart : Tiny.env.After Tiny.start ⟨Tiny.start, [], []⟩ := .start rfl
  have hready := ready tiny_keepsSelf tiny_throughToken Tiny.initialised hstart Tiny.start_stat rfl (by decide)
  obtain ⟨s₁, hswap, hex⟩ := hready.eos_swap (u := Tiny.alice) (n := 100) (by decide)
    (fun hx => hx.elim (by decide) (by decide)) rfl (active_self Tiny.alice)
    (show ([] : Memo).length ≤ 256 by decide) (by decide) (by decide)
  obtain rfl : s₁ = Tiny.run Tiny.start [Tiny.swap] :=
    hswap.det (@Machine.commits_of_transact _ _ _ _ 20 _ _ _ rfl)
  obtain ⟨s₁, b, hexec, hpay, hdeposit⟩ : ∃ s₁ b, Tiny.env.exec Tiny.start Tiny.swap = .ok (s₁, [b]) ∧
      Tiny.env.exec s₁ b = .ok (Tiny.run Tiny.start [Tiny.swap], []) ∧ Tiny.env.deposit b = 0 := ⟨_, _, rfl, rfl, rfl⟩
  have hpaid : Machine.Step Tiny.env.exec
      ⟨s₁, [(Machine.Queued.top Tiny.swap).child b], [.top Tiny.swap]⟩
      ⟨Tiny.run Tiny.start [Tiny.swap], [], [(Machine.Queued.top Tiny.swap).child b, .top Tiny.swap]⟩ := .leaf hpay
  have hreach : Tiny.env.After Tiny.start ⟨Tiny.run Tiny.start [Tiny.swap], [],
      [(Machine.Queued.top Tiny.swap).child b, .top Tiny.swap]⟩ :=
    .step (.step (.begin hstart (Tiny.foreign_single (by decide))) (.run hexec)) hpaid
  have hboth : ∀ u ∈ [Tiny.bob, Tiny.alice], u ≠ Tiny.env.self ∧ Tiny.env.is_account () u = true := by
    simp only [List.mem_cons, List.not_mem_nil, or_false, forall_eq_or_imp, forall_eq]
    decide
  obtain ⟨s', hleaving, hus, -, hall⟩ := everybody_leaves tiny_keepsSelf tiny_throughToken Tiny.initialised hreach
    Tiny.start_stat rfl (by decide) hboth
  obtain ⟨hself, heos⟩ := hall fun w hw hne => by
    by_contra hmem
    simp only [List.mem_cons, not_or] at hmem
    refine hne ?_
    rw [hex.xyz, moved_apply, if_neg hw, if_neg hmem.2.1]
    -- All of it was with the contract before.
    have hsound := hready.minted.sound
    have hpair := pair_le_total hsound.nonneg hw
    have hnonneg := hsound.nonneg w
    have hcontract : (book Tiny.start.system.accounts).amount Tiny.max_supply.symbol.code Tiny.env.self =
        Tiny.max_supply.val := by decide
    rw [hsound.total, hcontract] at hpair
    rw [State.xyz_eq]
    omega
  refine ⟨s', hleaving, ?_, hself, ?_⟩
  · rw [(hus Tiny.alice (by decide)).1]
    decide
  · have hreceived : Tiny.env.received [(Machine.Queued.top Tiny.swap).child b, .top Tiny.swap] =
        Tiny.env.deposit b + 0 := rfl
    rw [heos, hreceived, hdeposit]
    rfl

end Everybody

end Vaulta.Env
