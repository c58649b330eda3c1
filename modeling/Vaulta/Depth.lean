import Vaulta.Wrappers

/-!
# How deep a transaction goes

A swap is a transfer that queues a transfer, so payouts could be swapped back for ever.
They are not: what the contract sends is never taken as an order, and the tree below an
action has at most three levels.
-/

namespace Vaulta.Env

variable {σ : Type} (e : Env σ)

/-- How many levels of actions there can be below this one. -/
def height (a : Action) : Nat :=
  match a.call with
  | .transfer sender recipient _ _ => if recipient = e.self ∧ sender ≠ e.self then 1 else 0
  | .swapto .. | .swapexcess .. => 2
  | .sys _ => if a.account = e.self then 3 else 0
  | _ => 0

variable {e} {s s' : State σ} {queued : List Action}

/-! ## Heights -/

theorem height_le (a : Action) : e.height a ≤ 3 := by
  unfold height
  split
  · split <;> omega
  · omega
  · omega
  · split <;> omega
  · omega

theorem height_transfer_le (code auth u w : Name) (q : Asset) (memo : Memo) :
    e.height (System.transfer_action code auth u w q memo) ≤ 1 := by
  change (if w = e.self ∧ u ≠ e.self then 1 else 0) ≤ 1
  split <;> omega

theorem height_payout (code auth w : Name) (q : Asset) (memo : Memo) :
    e.height (System.transfer_action code auth e.self w q memo) = 0 :=
  if_neg fun h => h.2 rfl

theorem height_order {code u : Name} (hu : u ≠ e.self) (l : List PermissionLevel) (q : Asset) (memo : Memo) :
    e.height ⟨code, l, .transfer u e.self q memo⟩ = 1 :=
  if_pos ⟨rfl, hu⟩

theorem height_follow {c : Ctx} {account : Name} {b : Action} (h : System.Follow c account b) :
    e.height b < 3 := by
  cases h with
  | @forward call =>
    have hzero : e.height (System.sys_action account call) = 0 := if_neg (Ne.symm e.self_ne_eosio)
    rw [hzero]
    exact Nat.succ_pos 2
  | excess => exact Nat.lt_succ_self 2
  | enforce => exact Nat.succ_pos 2
  | swap => exact lt_of_le_of_lt (height_transfer_le _ _ _ _ _ _) (by omega)

theorem system_lower {a : Action} {o : Outcome System.Tables} (hacc : a.account = e.self)
    (h : System.Effect (e.view s a.authorization) s.system a.call o) : ∀ b ∈ o.inline, e.height b < e.height a := by
  obtain ⟨account, authorization, call⟩ := a
  simp only at hacc h
  subst hacc
  have hsys : ∀ w, e.height ⟨e.self, authorization, .sys w⟩ = 3 := fun w => if_pos rfl
  cases h with
  | init | opened | closed | blocked | traced | idle => simp
  | @transfer u w q memo st accounts hne =>
    intro b hb
    dsimp only at hb
    split at hb
    · rename_i hw
      rw [view_self] at hw
      subst hw
      obtain rfl := List.mem_singleton.1 hb
      rw [height_order hne]
      exact lt_of_le_of_lt (Nat.le_of_eq (height_payout _ _ _ _ _)) Nat.zero_lt_one
    · cases hb
  | swapto_eos | swapto_xyz =>
    intro b hb
    simp only [List.mem_cons, List.not_mem_nil, or_false] at hb
    rcases hb with rfl | rfl <;> exact Nat.lt_succ_of_le (height_transfer_le _ _ _ _ _ _)
  | excess =>
    intro b hb
    obtain rfl := List.mem_singleton.1 hb
    exact Nat.lt_succ_of_le (height_transfer_le _ _ _ _ _ _)
  | swapped _ _ hrest =>
    intro b hb
    rw [hsys]
    simp only [List.mem_cons] at hb
    rcases hb with rfl | rfl | hb
    · exact Nat.succ_pos 2
    · exact lt_of_le_of_lt (height_transfer_le _ _ _ _ _ _) (by omega)
    · exact height_follow (hrest b hb)
  | passed _ hrest =>
    intro b hb
    rw [hsys]
    exact height_follow (hrest b hb)

/-- Whatever an action queues is lower than it. -/
theorem exec_lower {a : Action} (h : e.exec s a = .ok (s', queued)) : ∀ b ∈ queued, e.height b < e.height a := by
  cases exec_effect h with
  | system hacc heffect => exact system_lower hacc heffect
  | swap_in hacc hcall _ hsender =>
    obtain ⟨account, authorization, call⟩ := a
    simp only at hcall
    subst hcall
    intro b hb
    obtain rfl := List.mem_singleton.1 hb
    rw [height_order hsender]
    exact lt_of_le_of_lt (Nat.le_of_eq (height_payout _ _ _ _ _)) Nat.zero_lt_one
  | token | eosio | nobody => simp

/-! ## Orders and payouts -/

section Orders

variable {authorization : List PermissionLevel} {u w : Name} {q : Asset} {memo : Memo}

theorem xyz_order (h : e.exec s ⟨e.self, authorization, .transfer u e.self q memo⟩ = .ok (s', queued)) :
    queued = [e.credit u q] := by
  obtain ⟨o, ho, -, rfl⟩ := exec_xyz_transfer.1 h
  obtain ⟨_, _, -, -, -, -, -, -, -, -, -, -, rfl⟩ := System.transfer_eq_ok.1 ho
  exact if_pos rfl

theorem eos_order (hu : ¬ System.Exempt u)
    (h : e.exec s ⟨Name.eosio_token, authorization, .transfer u e.self q memo⟩ = .ok (s', queued)) (hne : u ≠ e.self) :
    q.symbol = Symbol.EOS ∧ ∃ symbol, s.system.config.find e.self () = some ⟨symbol⟩ ∧
      queued = [System.transfer_action e.self e.self e.self u ⟨q.amount, symbol⟩ memo] := by
  obtain ⟨o, -, hn, -⟩ := exec_token_transfer.1 h
  have hends : ¬ (u = e.self ∨ e.self ≠ e.self) := by simp [hne]
  obtain ⟨-, ⟨hexempt, -⟩ | ⟨-, hq, symbol, hcfg, -, -, rfl⟩⟩ := (System.on_transfer_eq_ok hends).1 hn
  · exact absurd hexempt hu
  · exact ⟨hq, symbol, hcfg, rfl⟩

theorem payout_queues_nothing {code : Name} (hcode : code = e.self ∨ code = Name.eosio_token)
    (h : e.exec s ⟨code, authorization, .transfer e.self w q memo⟩ = .ok (s', queued)) : queued = [] := by
  rcases hcode with rfl | rfl
  · obtain ⟨o, ho, -, rfl⟩ := exec_xyz_transfer.1 h
    obtain ⟨_, _, hne, -, -, -, -, -, -, -, -, -, rfl⟩ := System.transfer_eq_ok.1 ho
    exact if_neg (Ne.symm hne)
  · obtain ⟨o, -, hn, -⟩ := exec_token_transfer.1 h
    exact Except.ok.inj (hn.symm.trans (System.on_transfer_ignored _ _ _ (.inl rfl)))

end Orders

/-- **No swap goes on for ever.** Every transaction ends, from any state and whatever its
actions are, and no action of it is more than three levels below the one it comes from.
Every order is answered by one payout of the same amount, and no payout by anything. -/
theorem no_ping_pong (s : State σ) (acts : List Action) :
    Machine.Halts e.exec s acts ∧
    (∀ c, Relation.ReflTransGen e.Step ⟨s, acts.map Machine.Queued.top, []⟩ c →
      ∀ q ∈ c.pending ++ c.trace, q.depth ≤ 3) ∧
    ∀ s s' authorization u q memo queued,
      (e.exec s ⟨e.self, authorization, .transfer u e.self q memo⟩ = .ok (s', queued) →
        queued = [⟨Name.eosio_token, System.active e.self, .transfer e.self u q.in_eos []⟩]) ∧
      (u ≠ e.self → u ≠ Name.eosio_ram → u ≠ Name.eosio_stake →
        e.exec s ⟨Name.eosio_token, authorization, .transfer u e.self q memo⟩ = .ok (s', queued) →
        q.symbol = Symbol.EOS ∧ ∃ symbol, s.system.config.find e.self () = some ⟨symbol⟩ ∧
          queued = [⟨e.self, System.active e.self, .transfer e.self u ⟨q.amount, symbol⟩ memo⟩]) ∧
      ∀ code, code = e.self ∨ code = Name.eosio_token →
        e.exec s ⟨code, authorization, .transfer e.self u q memo⟩ = .ok (s', queued) → queued = [] := by
  have hlower : ∀ s s' a queued, e.exec s a = .ok (s', queued) → ∀ b ∈ queued, e.height b < e.height a :=
    fun _ _ _ _ h => exec_lower h
  refine ⟨Machine.halts hlower s acts, fun c hc q hq => ?_, fun s s' authorization u q memo queued => ⟨?_, ?_, ?_⟩⟩
  · have hdepth := Machine.depth_le hlower hc q hq
    have htop := e.height_le q.root
    omega
  · exact xyz_order
  · intro hne hram hstake h
    exact eos_order (fun hx => hx.elim hram hstake) h hne
  · exact fun code hcode h => payout_queues_nothing hcode h

theorem no_ping_pong_alice : ∃ s queued symbol, Tiny.env.exec Tiny.start Tiny.swap = .ok (s, queued) ∧
    queued = [⟨Tiny.env.self, System.active Tiny.env.self,
      .transfer Tiny.env.self Tiny.alice ⟨100, symbol⟩ []⟩] := by
  obtain ⟨s, queued, hexec⟩ : ∃ s queued, Tiny.env.exec Tiny.start Tiny.swap = .ok (s, queued) := ⟨_, _, rfl⟩
  obtain ⟨-, horder, -⟩ := (no_ping_pong Tiny.start [Tiny.swap]).2.2 _ _ _ _ _ _ _
  obtain ⟨-, symbol, -, hqueued⟩ := horder (by decide) (by decide) (by decide) hexec
  exact ⟨s, queued, symbol, hexec, hqueued⟩

end Vaulta.Env
