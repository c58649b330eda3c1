import Vaulta.Movements
import Vaulta.Sends

/-!
# Who can be made to act

Whatever the contract queues, anywhere in the tree of a transaction, is signed by the
contract or by somebody who signed the action at the root.
-/

namespace Vaulta

/-! ## Debits -/

theorem System.Flow.debited {c : Ctx} {t : System.Tables} {t' : System.Accounts} {call : Call}
    {inline : List Action} (h : System.Flow c t t' call inline) {u : Name} (hauth : c.has_auth u ≠ true) (hself : u ≠ c.self)
    (k : SymbolCode) : (book t.accounts).amount k u ≤ (book t').amount k u := by
  cases h with
  | minted hbook => rw [hbook, gained_ne _ _ hself]
  | transferred _ hsender _ _ hpos hbook =>
    rw [hbook]
    exact le_moved (fun he => hauth (he ▸ hsender)) (Asset.of_nonneg (le_of_lt hpos) k)
  | swapped haccount _ hpos hbook =>
    rw [hbook]
    exact le_moved (fun he => hauth (he ▸ haccount)) (Asset.of_nonneg (le_of_lt hpos) k)
  | still _ _ hbook => rw [hbook]

namespace Env

variable {σ : Type} {e : Env σ}

theorem exec_debited {s s' : State σ} {a : Action} {queued : List Action}
    (h : e.exec s a = .ok (s', queued)) {u : Name} (hu : u ∉ a.actors) (hself : u ≠ e.self)
    (k : SymbolCode) : s.xyz k u ≤ s'.xyz k u := by
  simp only [State.xyz_eq]
  cases exec_effect h with
  | system _ heffect =>
    exact heffect.flow.debited (fun hauth => hu (mem_actors hauth)) hself k
  | token | swap_in | eosio | nobody => exact le_refl _

theorem Sent.sender {s : State σ} {A : Name → Prop} {b : Action} (h : e.Sent s A b) {u w : Name} {q : Asset}
    {memo : Memo} (hcall : b.call = .transfer u w q memo) : u = e.self ∨ A u := by
  cases h with
  | own hown =>
    cases hown with
    | pay_xyz => cases hcall; exact .inl rfl
    | pay_eos => cases hcall; exact .inl rfl
    | trace => cases hcall
    | excess => cases hcall
  | enforce => cases hcall
  | forward => cases hcall
  | swap hx => cases hcall; exact .inr hx
  | send hx => cases hcall; exact .inr hx

/-! ## The tree of a transaction -/

structure Rooted (e : Env σ) (acts : List Action) (q : Queued) : Prop where
  root : q.root ∈ acts
  signed : e.Signed (· ∈ q.root.actors) q.act
  sender : 0 < q.depth → ∀ u w v memo, q.act.call = .transfer u w v memo →
    u = e.self ∨ u ∈ q.root.actors

theorem rooted_top {acts : List Action} (hself : ∀ a ∈ acts, e.self ∉ a.actors) {q : Queued}
    (hq : q ∈ acts.map Machine.Queued.top) : e.Rooted acts q := by
  obtain ⟨a, ha, rfl⟩ := List.mem_map.1 hq
  exact ⟨ha, signed_of_foreign (hself a ha) fun _ hn => hn, fun h => absurd h (lt_irrefl 0)⟩

theorem rooted_child {acts : List Action} (hself : ∀ a ∈ acts, e.self ∉ a.actors) {s s' : State σ}
    {q : Queued} {queued : List Action} (hq : e.Rooted acts q) (h : e.exec s q.act = .ok (s', queued))
    {b : Action} (hb : b ∈ queued) : e.Rooted acts (q.child b) := by
  have hsent := exec_sent hq.signed h b hb
  exact ⟨hq.root, hsent.signed (hself _ hq.root), fun _ _ _ _ _ hcall => hsent.sender hcall⟩

/-- All actions of the tree, the ones that have run too, and what they have done so far. -/
structure Confined (e : Env σ) (acts : List Action) (s : State σ) (c : Config σ) : Prop where
  pending : ∀ q ∈ c.pending, e.Rooted acts q
  trace : ∀ q ∈ c.trace, e.Rooted acts q
  debits : ∀ u, u ≠ e.self → (∀ a ∈ acts, u ∉ a.actors) → ∀ k, s.xyz k u ≤ c.state.xyz k u

theorem confined_step {acts : List Action} (hself : ∀ a ∈ acts, e.self ∉ a.actors) {s₀ s s' : State σ}
    {q : Queued} {rest trace : List Queued} {queued : List Action}
    (h : e.Confined acts s₀ ⟨s, q :: rest, trace⟩) (hexec : e.exec s q.act = .ok (s', queued)) :
    e.Confined acts s₀ ⟨s', queued.map q.child ++ rest, q :: trace⟩ := by
  have hq := h.pending q (List.mem_cons_self ..)
  refine ⟨?_, ?_, ?_⟩
  · intro p hp
    rcases List.mem_append.1 hp with hp | hp
    · obtain ⟨b, hb, rfl⟩ := List.mem_map.1 hp
      exact rooted_child hself hq hexec hb
    · exact h.pending p (List.mem_cons_of_mem _ hp)
  · intro p hp
    rcases List.mem_cons.1 hp with rfl | hp
    · exact hq
    · exact h.trace p hp
  · intro u hu hout k
    refine le_trans (h.debits u hu hout k) (exec_debited hexec (fun hmem => ?_) hu k)
    exact hout _ hq.root ((hq.signed.actors u hmem).resolve_left hu)

theorem confined {acts : List Action} (hself : ∀ a ∈ acts, e.self ∉ a.actors) {s : State σ} {c : Config σ}
    (h : Relation.ReflTransGen e.Step ⟨s, acts.map Machine.Queued.top, []⟩ c) : e.Confined acts s c := by
  refine Machine.steps_invariant (e.Confined acts s) ?_ h ?_
  · exact fun _ _ _ _ _ _ hc hexec => confined_step hself hc hexec
  · exact ⟨fun q hq => rooted_top hself hq, by simp, fun _ _ _ _ => le_refl _⟩

/-- **Authority is confined.** Take any state, and a transaction that only accounts of `A`
have signed. Every action that the contract adds to it is signed by the contract or by a
signer of the action at its root. Nobody outside of `A` but the contract loses XYZ, or has
EOS sent from him. -/
theorem authority_confined {A : Set Name} (hA : e.self ∉ A) {s : State σ} {acts : List Action}
    (hacts : ∀ a ∈ acts, ∀ n ∈ a.actors, n ∈ A) {c : Config σ}
    (h : Relation.ReflTransGen e.Step ⟨s, acts.map Machine.Queued.top, []⟩ c) :
    (∀ q ∈ c.pending ++ c.trace, 0 < q.depth →
      q.root ∈ acts ∧ (∀ n ∈ q.act.actors, n = e.self ∨ n ∈ q.root.actors) ∧
        ∀ u w v memo, q.act.account = Name.eosio_token → q.act.call = .transfer u w v memo →
          u = e.self ∨ u ∈ A) ∧
    ∀ u, u ∉ A → u ≠ e.self → ∀ k, s.xyz k u ≤ c.state.xyz k u := by
  have hc := confined (fun a ha hs => hA (hacts a ha _ hs)) h
  constructor
  · intro q hq hdepth
    have hrooted : e.Rooted acts q := (List.mem_append.1 hq).elim (hc.pending q) (hc.trace q)
    refine ⟨hrooted.root, hrooted.signed.actors, fun u w v memo _ hcall => ?_⟩
    exact (hrooted.sender hdepth u w v memo hcall).imp_right (hacts _ hrooted.root u)
  · intro u hu hself k
    exact hc.debits u hself (fun a ha hmem => hu (hacts a ha u hmem)) k

/-- In the middle of another swap by `alice`, `bob` has his 30 XYZ, and the queue does not ask
for his. -/
theorem authority_confined_bob : ∃ c, Relation.ReflTransGen Tiny.env.Step
    ⟨Tiny.both, [Tiny.swap].map Machine.Queued.top, []⟩ c ∧ c.pending.length = 1 ∧
    (∀ q ∈ c.pending, Tiny.bob ∉ q.act.actors) ∧ 30 ≤ c.state.xyz Tiny.XYZ.code Tiny.bob := by
  obtain ⟨s, queued, hexec, hlength⟩ : ∃ s queued, Tiny.env.exec Tiny.both Tiny.swap = .ok (s, queued) ∧
      queued.length = 1 := ⟨_, _, rfl, rfl⟩
  have hstep : Relation.ReflTransGen Tiny.env.Step ⟨Tiny.both, [Tiny.swap].map Machine.Queued.top, []⟩
      ⟨s, queued.map (Machine.Queued.top Tiny.swap).child ++ [], [.top Tiny.swap]⟩ := .single (.run hexec)
  have hself : Tiny.env.self ∉ ({Tiny.alice} : Set Name) := by
    simp only [Set.mem_singleton_iff]
    decide
  have hbob : Tiny.bob ∉ ({Tiny.alice} : Set Name) := by
    simp only [Set.mem_singleton_iff]
    decide
  have hacts : ∀ a ∈ [Tiny.swap], ∀ n ∈ a.actors, n ∈ ({Tiny.alice} : Set Name) := by
    intro a ha n hn
    obtain rfl := List.mem_singleton.1 ha
    exact List.mem_singleton.1 hn
  obtain ⟨hqueued, hkeeps⟩ := authority_confined hself hacts hstep
  refine ⟨_, hstep, by simp [hlength], fun q hq hmem => ?_, ?_⟩
  · have hchild := List.mem_append_left [Machine.Queued.top Tiny.swap] hq
    rw [List.append_nil] at hq
    obtain ⟨b, -, rfl⟩ := List.mem_map.1 hq
    obtain ⟨hroot, hactors, -⟩ := hqueued _ hchild (Nat.succ_pos _)
    rcases hactors Tiny.bob hmem with he | hmem
    · exact absurd he (by decide)
    · exact hbob (hacts _ hroot _ hmem)
  · have hhas : Tiny.both.xyz Tiny.XYZ.code Tiny.bob = 30 := by decide
    exact hhas ▸ hkeeps Tiny.bob hbob (by decide) Tiny.XYZ.code

end Env

end Vaulta
