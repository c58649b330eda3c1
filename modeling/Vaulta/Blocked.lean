import Vaulta.Movements
import Vaulta.Sends

/-!
# Blocked recipients

An account that has blocked itself is paid by nothing that the contract sends. Only a
transfer of the transaction itself can still bring it tokens.
-/

namespace Vaulta

/-! ## Credits -/

theorem System.Flow.credited {c : Ctx} {t : System.Tables} {t' : System.Accounts} {call : Call}
    {inline : List Action} (h : System.Flow c t t' call inline) {b : Name} (hself : b ≠ c.self)
    (hto : ∀ u q memo, call ≠ .transfer u b q memo) (k : SymbolCode) :
    (book t').amount k b ≤ (book t.accounts).amount k b := by
  cases h with
  | minted hbook => rw [hbook, gained_ne _ _ hself]
  | transferred _ _ _ _ hpos hbook =>
    rw [hbook]
    refine moved_le ?_ (Asset.of_nonneg (le_of_lt hpos) k)
    rintro rfl
    exact hto _ _ _ rfl
  | swapped _ _ hpos hbook =>
    rw [hbook]
    exact moved_le hself (Asset.of_nonneg (le_of_lt hpos) k)
  | still _ _ hbook => rw [hbook]

theorem Token.Flow.credited {c : Ctx} {t t' : Token.Accounts} {call : Call} (h : Token.Flow c t t' call)
    {b : Name} (hauth : c.has_auth b ≠ true) (hto : ∀ u q memo, call ≠ .transfer u b q memo) (k : SymbolCode) :
    (book t').amount k b ≤ (book t).amount k b := by
  cases h with
  | issued _ hissuer hbook =>
    rw [hbook, gained_ne]
    rintro rfl
    exact hauth hissuer
  | retired hissuer hbook =>
    rw [hbook, gained_ne]
    rintro rfl
    exact hauth hissuer
  | transferred _ _ hpos hbook =>
    rw [hbook]
    refine moved_le ?_ (Asset.of_nonneg (le_of_lt hpos) k)
    rintro rfl
    exact hto _ _ _ rfl
  | still _ hbook => rw [hbook]

namespace Env

variable {σ : Type} (e : Env σ)

def Stranger (b n : Name) : Prop := n ≠ e.self ∧ n ≠ b

def Spares (b : Name) (a : Action) : Prop :=
  a.account = e.self ∨ a.account = Name.eosio_token → ∀ u q memo, a.call ≠ .transfer u b q memo

/-- What strangers make `eosio` do brings `b` no EOS. -/
def Uncredited (b : Name) : Prop :=
  ∀ call authorization x x' t t', e.self ∉ authorization.map (·.actor) → b ∉ authorization.map (·.actor) →
    e.eosio call authorization x t = .ok (x', t') →
    (book t'.accounts).amount Symbol.EOS.code b ≤ (book t.accounts).amount Symbol.EOS.code b

variable {e} {b : Name}

theorem not_stranger_self : ¬ e.Stranger b e.self := fun h => h.1 rfl

theorem signed_of_strangers {a : Action} (hself : e.self ∉ a.actors) (hb : b ∉ a.actors) :
    e.Signed (e.Stranger b) a := by
  refine signed_of_foreign hself fun n hn => ⟨?_, ?_⟩
  · rintro rfl; exact hself hn
  · rintro rfl; exact hb hn

/-! ## One action -/

theorem Sent.spares {s : State σ} {a : Action} (hb : b ≠ e.self)
    (hblocked : s.system.blocked.find e.self b ≠ none) (h : e.Sent s (e.Stranger b) a) : e.Spares b a := by
  -- The contract pays the account that it serves, which is a stranger, and swaps for recipients
  -- that are not blocked.
  rintro - u q memo hcall
  cases h with
  | own hown =>
    cases hown with
    | pay_xyz hx => cases hcall; exact hx.2 rfl
    | pay_eos hx => cases hcall; exact hx.2 rfl
    | trace => cases hcall
    | excess => cases hcall
  | enforce => cases hcall
  | forward => cases hcall
  | swap => cases hcall; exact hb rfl
  | send _ hfree => cases hcall; exact hblocked hfree

theorem exec_uncredited (hb : b ≠ e.self) (heosio : e.Uncredited b) {s s' : State σ} {a : Action}
    {queued : List Action} (ha : e.Signed (e.Stranger b) a) (hspares : e.Spares b a)
    (h : e.exec s a = .ok (s', queued)) : (∀ k, s'.xyz k b ≤ s.xyz k b) ∧ s'.eos b ≤ s.eos b := by
  have hout : b ∉ a.actors := fun hmem => (ha.other hmem hb).2 rfl
  have hauth : ∀ code, (e.ctx s code a.authorization).has_auth b ≠ true := fun code hmem =>
    hout (mem_actors hmem)
  simp only [State.xyz_eq, State.eos_eq]
  cases exec_effect h with
  | system hacc heffect => exact ⟨heffect.flow.credited hb (hspares (.inl hacc)), le_refl _⟩
  | token hacc heffect =>
    exact ⟨fun _ => le_refl _, heffect.flow.credited (hauth _) (hspares (.inr hacc)) _⟩
  | swap_in hacc _ heffect =>
    exact ⟨fun _ => le_refl _, heffect.flow.credited (hauth _) (hspares (.inr hacc)) _⟩
  | eosio _ hcall hx =>
    refine ⟨fun _ => le_refl _, heosio _ _ _ _ _ _ (fun hmem => ?_) hout hx⟩
    have hown := (ha.own hmem).call_own
    rw [hcall] at hown
    cases hown
  | nobody => exact ⟨fun _ => le_refl _, le_refl _⟩

/-- Nobody but `b` and the contract can take `b` off the table, and the contract never
asks itself to. -/
theorem exec_blocked {s s' : State σ} {a : Action} {queued : List Action}
    (ha : e.Signed (e.Stranger b) a) (h : e.exec s a = .ok (s', queued))
    (hblocked : s.system.blocked.find e.self b ≠ none) : s'.system.blocked.find e.self b ≠ none := by
  cases exec_effect h with
  | system hacc heffect =>
    obtain ⟨account, authorization, call⟩ := a
    simp only at heffect
    cases heffect with
    | @blocked n block blocked hauth hsame =>
      have hne : b ≠ n := by
        rcases hauth with hself | hn
        · exact absurd (ha.signer (mem_actors hself) rfl) not_stranger_self
        · exact Ne.symm (ha.signer (mem_actors hn) rfl).2
      rw [ne_eq, MultiIndex.find_eq_none] at hblocked ⊢
      rw [show blocked.rows e.self b = s.system.blocked.rows e.self b from hsame b hne]
      exact hblocked
    | _ => exact hblocked
  | token | swap_in | eosio | nobody => exact hblocked

/-! ## A whole transaction -/

/-- What stays true until the end of a transaction in which `b` has no part. -/
structure Spared (e : Env σ) (b : Name) (s : State σ) (c : Config σ) : Prop where
  signed : ∀ q ∈ c.pending, e.Signed (e.Stranger b) q.act
  spares : ∀ q ∈ c.pending, e.Spares b q.act
  blocked : c.state.system.blocked.find e.self b ≠ none
  xyz : ∀ k, c.state.xyz k b ≤ s.xyz k b
  eos : c.state.eos b ≤ s.eos b

theorem spared_step (hb : b ≠ e.self) (heosio : e.Uncredited b) {s₀ s s' : State σ} {q : Queued}
    {rest trace : List Queued} {queued : List Action} (h : e.Spared b s₀ ⟨s, q :: rest, trace⟩)
    (hexec : e.exec s q.act = .ok (s', queued)) :
    e.Spared b s₀ ⟨s', queued.map q.child ++ rest, q :: trace⟩ := by
  have hq := h.signed q (List.mem_cons_self ..)
  obtain ⟨hxyz, heos⟩ := exec_uncredited hb heosio hq (h.spares q (List.mem_cons_self ..)) hexec
  refine ⟨signed_queue not_stranger_self h.signed hexec, fun p hp => ?_, exec_blocked hq hexec h.blocked,
    fun k => le_trans (hxyz k) (h.xyz k), le_trans heos h.eos⟩
  rcases List.mem_append.1 hp with hp | hp
  · obtain ⟨a, ha, rfl⟩ := List.mem_map.1 hp
    exact (exec_sent hq hexec a ha).spares hb h.blocked
  · exact h.spares p (List.mem_cons_of_mem _ hp)

/-- **Blocked recipients.** In any state, a transaction that neither `b` nor the contract
has signed, and that has no transfer to `b` among its own actions, leaves a blocked `b`
with no more XYZ and no more EOS than before, and still blocked. -/
theorem blocked_not_credited (hb : b ≠ e.self) (heosio : e.Uncredited b) {s s' : State σ}
    (hblocked : s.system.blocked.find e.self b ≠ none) {acts : List Action}
    (hacts : ∀ a ∈ acts, e.self ∉ a.actors ∧ b ∉ a.actors)
    (hto : ∀ a ∈ acts, a.account = e.self ∨ a.account = Name.eosio_token →
      ∀ u q memo, a.call ≠ .transfer u b q memo)
    (h : e.Commits s acts s') :
    (∀ k, s'.xyz k b ≤ s.xyz k b) ∧ s'.eos b ≤ s.eos b ∧ s'.system.blocked.find e.self b ≠ none := by
  have hstart : e.Spared b s ⟨s, acts.map Machine.Queued.top, []⟩ := by
    refine ⟨fun q hq => ?_, fun q hq => ?_, hblocked, fun _ => le_refl _, le_refl _⟩
    · obtain ⟨a, ha, rfl⟩ := List.mem_map.1 hq
      exact signed_of_strangers (hacts a ha).1 (hacts a ha).2
    · obtain ⟨a, ha, rfl⟩ := List.mem_map.1 hq
      exact hto a ha
  obtain ⟨trace, hspared⟩ := h.invariant (e.Spared b s)
    (fun _ _ _ _ _ _ hs hexec => spared_step hb heosio hs hexec) hstart
  exact ⟨hspared.xyz, hspared.eos, hspared.blocked⟩

theorem blocked_not_credited_bob : ∃ s s', Tiny.env.Commits s [Tiny.swap] s' ∧
    s.system.blocked.find Tiny.env.self Tiny.bob = some ⟨Tiny.bob⟩ ∧ s'.eos Tiny.bob ≤ s.eos Tiny.bob := by
  have hcommits : Tiny.env.Commits (Tiny.run Tiny.start [Tiny.block]) [Tiny.swap]
      (Tiny.run (Tiny.run Tiny.start [Tiny.block]) [Tiny.swap]) :=
    @Machine.commits_of_transact _ _ _ _ 20 _ _ _ rfl
  have hblocked : (Tiny.run Tiny.start [Tiny.block]).system.blocked.find Tiny.env.self Tiny.bob =
      some ⟨Tiny.bob⟩ := rfl
  have heosio : Tiny.env.Uncredited Tiny.bob := by
    rintro call authorization x x' t t' - - h
    cases h
    exact le_refl _
  refine ⟨_, _, hcommits, hblocked, ?_⟩
  refine (blocked_not_credited (by decide) heosio (by rw [hblocked]; simp) ?_ ?_ hcommits).2.1
  · intro a ha
    rw [List.mem_singleton.1 ha]
    decide
  · rintro a ha - u q memo hcall
    rw [List.mem_singleton.1 ha] at hcall
    cases hcall

end Env

end Vaulta
