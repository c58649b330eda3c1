import Vaulta.Authority
import Vaulta.Blocked
import Vaulta.Weave

/-!
# Bystanders

An account that signs nothing loses nothing, however long a run is and whoever acts in
the middle of whose transaction, as long as nobody signs for the contract. If it has blocked
itself, it is not paid either.
-/

namespace Vaulta

theorem Token.Flow.debited {c : Ctx} {t t' : Token.Accounts} {call : Call} (h : Token.Flow c t t' call)
    {u : Name} (hauth : c.has_auth u ≠ true) (k : SymbolCode) : (book t).amount k u ≤ (book t').amount k u := by
  cases h with
  | issued _ hissuer hbook =>
    rw [hbook, gained_ne]
    rintro rfl
    exact hauth hissuer
  | retired hissuer hbook =>
    rw [hbook, gained_ne]
    rintro rfl
    exact hauth hissuer
  | transferred _ hsender hpos hbook =>
    rw [hbook]
    exact le_moved (fun he => hauth (he ▸ hsender)) (Asset.of_nonneg (le_of_lt hpos) k)
  | still _ hbook => rw [hbook]

namespace Env

variable {σ : Type} (e : Env σ)

/-- What strangers make `eosio` do takes no EOS from `u`. -/
def Undebited (u : Name) : Prop :=
  ∀ call authorization x x' t t', e.self ∉ authorization.map (·.actor) → u ∉ authorization.map (·.actor) →
    e.eosio call authorization x t = .ok (x', t') →
    (book t.accounts).amount Symbol.EOS.code u ≤ (book t'.accounts).amount Symbol.EOS.code u

variable {e} {u : Name}

theorem exec_eos_debited (hu : u ≠ e.self) (heosio : e.Undebited u) {s s' : State σ} {a : Action}
    {queued : List Action} (ha : e.Signed (e.Stranger u) a) (h : e.exec s a = .ok (s', queued)) :
    s.eos u ≤ s'.eos u := by
  have hout : u ∉ a.actors := fun hmem => (ha.other hmem hu).2 rfl
  simp only [State.eos_eq]
  cases exec_effect h with
  | system | nobody => exact le_refl _
  | token _ heffect => exact heffect.flow.debited (fun hmem => hout (mem_actors hmem)) _
  | swap_in _ _ heffect => exact heffect.flow.debited (fun hmem => hout (mem_actors hmem)) _
  | eosio _ hcall hx =>
    refine heosio _ _ _ _ _ _ (fun hmem => ?_) hout hx
    have hown := (ha.own hmem).call_own
    rw [hcall] at hown
    cases hown

/-! ## Any run -/

/-- What has happened to `u`, who is not part of it, since `s`. -/
structure Untouched (e : Env σ) (u : Name) (s : State σ) (c : Config σ) : Prop where
  signed : ∀ q ∈ c.pending, e.Signed (e.Stranger u) q.act
  xyz : ∀ k, s.xyz k u ≤ c.state.xyz k u
  eos : s.eos u ≤ c.state.eos u

theorem tiny_undebited : Tiny.env.Undebited u := by
  rintro call authorization x x' t t' - - h
  cases h
  exact le_refl _

theorem tiny_uncredited : Tiny.env.Uncredited u := by
  rintro call authorization x x' t t' - - h
  cases h
  exact le_refl _

section Weave

variable {s : State σ} {trace : List Queued} {c : Config σ}

theorem untouched (hu : u ≠ e.self) (heosio : e.Undebited u)
    (h : Machine.Weaves e.exec (fun a => e.self ∉ a.actors ∧ u ∉ a.actors) ⟨s, [], trace⟩ c) :
    e.Untouched u s c := by
  refine h.invariant (e.Untouched u s) ?_ ?_ ⟨by simp, fun _ => le_refl _, le_refl _⟩
  · intro t t' q rest trace queued hinv hexec
    have hq := hinv.signed q (List.mem_cons_self ..)
    refine ⟨signed_queue not_stranger_self hinv.signed hexec, fun k => ?_, ?_⟩
    · exact le_trans (hinv.xyz k) (exec_debited hexec (fun hmem => (hq.other hmem hu).2 rfl) hu k)
    · exact le_trans hinv.eos (exec_eos_debited hu heosio hq hexec)
  · rintro t pending trace a hinv ⟨hself, hout⟩
    refine ⟨fun q hq => ?_, hinv.xyz, hinv.eos⟩
    rcases List.mem_cons.1 hq with rfl | hq
    · exact signed_of_strangers hself hout
    · exact hinv.signed q hq

theorem spared (hu : u ≠ e.self) (heosio : e.Uncredited u) (hblocked : s.system.blocked.find e.self u ≠ none)
    (h : Machine.Weaves e.exec (fun a => (e.self ∉ a.actors ∧ u ∉ a.actors) ∧ e.Spares u a) ⟨s, [], trace⟩ c) :
    e.Spared u s c := by
  refine h.invariant (e.Spared u s) ?_ ?_ ⟨by simp, by simp, hblocked, fun _ => le_refl _, le_refl _⟩
  · exact fun _ _ _ _ _ _ hinv hexec => spared_step hu heosio hinv hexec
  · rintro t pending trace a hinv ⟨⟨hself, hout⟩, hspares⟩
    refine ⟨fun q hq => ?_, fun q hq => ?_, hinv.blocked, hinv.xyz, hinv.eos⟩
    · rcases List.mem_cons.1 hq with rfl | hq
      · exact signed_of_strangers hself hout
      · exact hinv.signed q hq
    · rcases List.mem_cons.1 hq with rfl | hq
      · exact hspares
      · exact hinv.spares q hq

/-- **Bystanders lose nothing.** From any state between transactions, after any actions of
others but the contract, in any order and in the middle of each other's transactions, an
account other than the contract that has signed none of them has at least the XYZ and the EOS
that it had, if `eosio` takes no EOS of an account that has not signed. -/
theorem bystander_keeps (hu : u ≠ e.self) (heosio : e.Undebited u)
    (h : Machine.Weaves e.exec (fun a => e.self ∉ a.actors ∧ u ∉ a.actors) ⟨s, [], trace⟩ c) :
    (∀ k, s.xyz k u ≤ c.state.xyz k u) ∧ s.eos u ≤ c.state.eos u :=
  ⟨(untouched hu heosio h).xyz, (untouched hu heosio h).eos⟩

theorem bystander_keeps_bob : ∃ c, Machine.Weaves Tiny.env.exec
    (fun a => Tiny.env.self ∉ a.actors ∧ Tiny.bob ∉ a.actors) ⟨Tiny.start, [], []⟩ c ∧
    Tiny.start.eos Tiny.bob ≤ c.state.eos Tiny.bob := by
  obtain ⟨s, queued, hexec⟩ : ∃ s queued, Tiny.env.exec Tiny.start Tiny.swap = .ok (s, queued) := ⟨_, _, rfl⟩
  have hwoven : Machine.Weaves Tiny.env.exec (fun a => Tiny.env.self ∉ a.actors ∧ Tiny.bob ∉ a.actors)
      ⟨Tiny.start, [], []⟩ _ := (Relation.ReflTransGen.refl.tail (.slip (by decide))).tail (.act (.run hexec))
  exact ⟨_, hwoven, (bystander_keeps (by decide) tiny_undebited hwoven).2⟩

/-- **A blocked bystander stays as it is.** If an account other than the contract has blocked
itself, and nobody's own transfer is to it, then nothing that others do changes its balances,
nor that it is blocked, as long as they do not sign for the contract, and `eosio` neither
takes nor brings EOS for an account that has not signed. -/
theorem blocked_bystander (hu : u ≠ e.self) (hdebit : e.Undebited u) (hcredit : e.Uncredited u)
    (hblocked : s.system.blocked.find e.self u ≠ none)
    (h : Machine.Weaves e.exec (fun a => (e.self ∉ a.actors ∧ u ∉ a.actors) ∧ e.Spares u a) ⟨s, [], trace⟩ c) :
    (∀ k, c.state.xyz k u = s.xyz k u) ∧ c.state.eos u = s.eos u ∧ c.state.system.blocked.find e.self u ≠ none := by
  have hkept := untouched hu hdebit (h.mono fun _ ha => ha.1)
  have hspared := spared hu hcredit hblocked h
  exact ⟨fun k => le_antisymm (hspared.xyz k) (hkept.xyz k), le_antisymm hspared.eos hkept.eos, hspared.blocked⟩

theorem blocked_bystander_bob : ∃ c, (Tiny.run Tiny.start [Tiny.block]).system.blocked.find Tiny.env.self Tiny.bob =
      some ⟨Tiny.bob⟩ ∧ Machine.Weaves Tiny.env.exec
        (fun a => (Tiny.env.self ∉ a.actors ∧ Tiny.bob ∉ a.actors) ∧ Tiny.env.Spares Tiny.bob a)
        ⟨Tiny.run Tiny.start [Tiny.block], [], []⟩ c ∧
      c.pending.length = 2 ∧ c.state.eos Tiny.bob = (Tiny.run Tiny.start [Tiny.block]).eos Tiny.bob := by
  have hslips : (Tiny.env.self ∉ Tiny.swap.actors ∧ Tiny.bob ∉ Tiny.swap.actors) ∧
      Tiny.env.Spares Tiny.bob Tiny.swap := by
    refine ⟨by decide, ?_⟩
    rintro - u q memo hcall
    cases hcall
  have hblocked : (Tiny.run Tiny.start [Tiny.block]).system.blocked.find Tiny.env.self Tiny.bob =
      some ⟨Tiny.bob⟩ := rfl
  obtain ⟨s₁, queued₁, hexec₁, s₂, queued₂, hexec₂, hlength₁, hlength₂⟩ : ∃ s₁ queued₁,
      Tiny.env.exec (Tiny.run Tiny.start [Tiny.block]) Tiny.swap = .ok (s₁, queued₁) ∧
      ∃ s₂ queued₂, Tiny.env.exec s₁ Tiny.swap = .ok (s₂, queued₂) ∧ queued₁.length = 1 ∧ queued₂.length = 1 :=
    ⟨_, _, rfl, _, _, rfl, rfl, rfl⟩
  have hwoven : Machine.Weaves Tiny.env.exec
      (fun a => (Tiny.env.self ∉ a.actors ∧ Tiny.bob ∉ a.actors) ∧ Tiny.env.Spares Tiny.bob a)
      ⟨Tiny.run Tiny.start [Tiny.block], [], []⟩ _ :=
    (((Relation.ReflTransGen.refl.tail (.slip hslips)).tail (.act (.run hexec₁))).tail (.slip hslips)).tail
      (.act (.run hexec₂))
  refine ⟨_, hblocked, hwoven, ?_, ?_⟩
  · simp [hlength₁, hlength₂]
  · exact (blocked_bystander (by decide) tiny_undebited tiny_uncredited (by rw [hblocked]; simp) hwoven).2.1

end Weave

end Env

end Vaulta
