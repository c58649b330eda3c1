import Vaulta.Effects

/-!
# What the contract sends

The contract is privileged: nobody checks the authority of the actions it queues. All
of them are listed here, with the accounts they serve, and so whose authority they carry.
-/

namespace Vaulta

/-- The calls that the contract makes in its own name. -/
def Call.own : Call → Bool
  | .transfer .. | .swaptrace .. | .swapexcess .. => true
  | _ => false

namespace Env

variable {σ : Type} (e : Env σ)

/-- The actions that carry the contract's own authority, each for an account of `A`. -/
inductive Own (A : Name → Prop) : Action → Prop
  | pay_xyz {x : Name} {q : Asset} {memo : Memo} (hx : A x) (hpos : 0 < q.val) :
      Own A ⟨e.self, System.active e.self, .transfer e.self x q memo⟩
  | pay_eos {x : Name} {q : Asset} {memo : Memo} (hx : A x) (hpos : 0 < q.val) (hq : q.symbol = Symbol.EOS) :
      Own A ⟨Name.eosio_token, System.active e.self, .transfer e.self x q memo⟩
  | trace {x : Name} {q : Asset} (hx : A x) (hpos : 0 < q.val) :
      Own A ⟨e.self, System.active e.self, .swaptrace x q⟩
  | excess {x : Name} {eos_before : Asset} (hx : A x) :
      Own A ⟨e.self, System.active e.self, .swapexcess x eos_before⟩

/-- All the actions that the contract queues for accounts of `A`. The last two kinds
carry the authority of the account that they spend from. -/
inductive Sent (s : State σ) (A : Name → Prop) : Action → Prop
  | own {a : Action} (h : e.Own A a) : Sent s A a
  | enforce {x : Name} {expected : Asset} (hx : A x) :
      Sent s A ⟨e.self, System.active x, .enforcebal x expected⟩
  | forward {x : Name} {call : SysCall} (hx : A x) : Sent s A ⟨Name.eosio, System.active x, .sys call⟩
  | swap {code x : Name} {q : Asset} {memo : Memo} (hx : A x) :
      Sent s A ⟨code, System.active x, .transfer x e.self q memo⟩
  | send {code x w : Name} {q : Asset} {memo : Memo} (hx : A x)
      (hfree : s.system.blocked.find e.self w = none) :
      Sent s A ⟨code, System.active x, .transfer x w q memo⟩

/-- Only accounts of `A` and the contract signed for the action, and the contract only
if the action is one of its own. -/
structure Signed (A : Name → Prop) (a : Action) : Prop where
  actors : ∀ n ∈ a.actors, n = e.self ∨ A n
  own : e.self ∈ a.actors → e.Own A a

variable {e} {A : Name → Prop}

theorem actors_active (n code : Name) (call : Call) :
    (Action.mk code (System.active n) call).actors = [n] := rfl

theorem signed_of_foreign {a : Action} (hself : e.self ∉ a.actors) (h : ∀ n ∈ a.actors, A n) :
    e.Signed A a :=
  ⟨fun n hn => .inr (h n hn), fun hs => absurd hs hself⟩

theorem Own.actors_eq {a : Action} (h : e.Own A a) : a.actors = [e.self] := by
  cases h <;> rfl

theorem Own.call_own {a : Action} (h : e.Own A a) : a.call.own = true := by
  cases h <;> rfl

theorem Own.serves {a : Action} (h : e.Own A a) {x : Name} {eos_before : Asset}
    (hcall : a.call = .swapexcess x eos_before) : A x := by
  cases h <;> cases hcall
  assumption

theorem Own.notes {a : Action} (h : e.Own A a) {x : Name} {q : Asset} (hcall : a.call = .swaptrace x q) :
    A x := by
  cases h <;> cases hcall
  assumption

theorem Own.eos {a : Action} (h : e.Own A a) (hacc : a.account = Name.eosio_token) {u w : Name} {q : Asset}
    {memo : Memo} (hcall : a.call = .transfer u w q memo) : q.symbol = Symbol.EOS := by
  cases h with
  | pay_xyz => exact absurd hacc e.self_ne_token
  | pay_eos _ _ hq => cases hcall; exact hq
  | trace => cases hcall
  | excess => cases hcall

theorem Own.signed {a : Action} (h : e.Own A a) : e.Signed A a :=
  ⟨fun _ hn => .inl (List.mem_singleton.1 (h.actors_eq ▸ hn)), fun _ => h⟩

/-- What the contract sends is signed again, so the next action of the tree can rely on it. -/
theorem Sent.signed {s : State σ} {b : Action} (hA : ¬ A e.self) (h : e.Sent s A b) : e.Signed A b := by
  have hactive : ∀ {x : Name} {code : Name} {call : Call}, A x →
      e.Signed A ⟨code, System.active x, call⟩ := by
    intro x code call hx
    refine signed_of_foreign ?_ fun n hn => ?_
    · rw [actors_active, List.mem_singleton]
      rintro hself
      exact hA (hself ▸ hx)
    · rw [actors_active, List.mem_singleton] at hn
      exact hn ▸ hx
  cases h with
  | own h => exact h.signed
  | enforce hx => exact hactive hx
  | forward hx => exact hactive hx
  | swap hx => exact hactive hx
  | send hx => exact hactive hx

theorem Signed.signer {a : Action} {x : Name} (h : e.Signed A a) (hx : x ∈ a.actors)
    (hcall : a.call.own = false) : A x := by
  rcases h.actors x hx with rfl | hA
  · exact absurd (h.own hx).call_own (by rw [hcall]; exact Bool.false_ne_true)
  · exact hA

theorem Signed.other {a : Action} {x : Name} (h : e.Signed A a) (hx : x ∈ a.actors) (hne : x ≠ e.self) :
    A x :=
  (h.actors x hx).resolve_left hne

theorem sent_of_follow {s : State σ} {c : Ctx} (hc : c.self = e.self) {account : Name} {b : Action}
    (h : System.Follow c account b) (hx : A account) : e.Sent s A b := by
  cases h with
  | forward => exact .forward hx
  | excess => unfold System.swapexcess_action; rw [hc]; exact .own (.excess hx)
  | enforce => unfold System.enforcebal_action; rw [hc]; exact .enforce hx
  | swap => unfold System.transfer_action; rw [hc]; exact .swap hx

theorem system_sent {s : State σ} {a : Action} {o : Outcome System.Tables} (ha : e.Signed A a)
    (hacc : a.account = e.self) (h : System.Effect (e.view s a.authorization) s.system a.call o) :
    ∀ b ∈ o.inline, e.Sent s A b := by
  obtain ⟨account, authorization, call⟩ := a
  simp only at hacc h
  subst hacc
  cases h with
  | init | opened | closed | blocked | traced | idle => simp
  | transfer hne hauth _ _ _ hpos =>
    split
    · rename_i hrec
      rw [view_self] at hrec
      simp only [List.mem_singleton, forall_eq]
      exact .own (.pay_eos (ha.other (mem_actors hauth) (hrec ▸ hne)) hpos rfl)
    · simp
  | swapto_eos hauth hfree =>
    have hx := ha.signer (mem_actors hauth) rfl
    simp only [List.mem_cons, List.not_mem_nil, or_false, forall_eq_or_imp, forall_eq]
    exact ⟨.swap hx, .send hx hfree⟩
  | swapto_xyz hauth hfree =>
    have hx := ha.signer (mem_actors hauth) rfl
    simp only [List.mem_cons, List.not_mem_nil, or_false, forall_eq_or_imp, forall_eq]
    exact ⟨.swap hx, .send hx hfree⟩
  | excess hself =>
    -- The account has signed nothing here, but the contract only asks for accounts of `A`.
    simp only [List.mem_singleton, forall_eq]
    exact .swap ((ha.own (mem_actors hself)).serves rfl)
  | swapped hauth hswap hrest =>
    have hx := ha.signer (mem_actors hauth) rfl
    simp only [List.mem_cons, forall_eq_or_imp]
    exact ⟨.own (.trace hx hswap.pos), .own (.pay_eos hx hswap.pos rfl),
      fun b hb => sent_of_follow rfl (hrest b hb) hx⟩
  | passed hauth hrest =>
    have hx := ha.signer (mem_actors hauth) rfl
    exact fun b hb => sent_of_follow rfl (hrest b hb) hx

theorem exec_sent {s s' : State σ} {a : Action} {queued : List Action} (ha : e.Signed A a)
    (h : e.exec s a = .ok (s', queued)) : ∀ b ∈ queued, e.Sent s A b := by
  cases exec_effect h with
  | system hacc heffect => exact system_sent ha hacc heffect
  | token => simp
  | swap_in hacc hcall heffect hsender _ hpos =>
    simp only [List.mem_singleton, forall_eq]
    rw [hcall] at heffect
    cases heffect with
    | issue hissue => cases hissue
    | transfer _ hauth =>
      exact .own (.pay_xyz (ha.other (mem_actors hauth) hsender) hpos)
  | eosio => simp
  | nobody => simp

theorem exec_signed {s s' : State σ} {a : Action} {queued : List Action} (hA : ¬ A e.self)
    (ha : e.Signed A a) (h : e.exec s a = .ok (s', queued)) : ∀ b ∈ queued, e.Signed A b :=
  fun b hb => (exec_sent ha h b hb).signed hA

theorem signed_queue {s s' : State σ} {q : Queued} {rest : List Queued} {queued : List Action}
    (hA : ¬ A e.self) (hq : ∀ p ∈ q :: rest, e.Signed A p.act) (h : e.exec s q.act = .ok (s', queued)) :
    ∀ p ∈ queued.map q.child ++ rest, e.Signed A p.act := by
  intro p hp
  rcases List.mem_append.1 hp with hp | hp
  · obtain ⟨b, hb, rfl⟩ := List.mem_map.1 hp
    exact exec_signed hA (hq q (List.mem_cons_self ..)) h b hb
  · exact hq p (List.mem_cons_of_mem _ hp)

abbrev Other (e : Env σ) (n : Name) : Prop := n ≠ e.self

theorem not_other_self : ¬ e.Other e.self := fun h => h rfl

theorem signed_begin {acts : List Action} (h : e.Foreign acts) :
    ∀ q ∈ acts.map Machine.Queued.top, e.Signed e.Other q.act := by
  intro q hq
  obtain ⟨a, ha, rfl⟩ := List.mem_map.1 hq
  have hself := h a ha
  exact signed_of_foreign hself fun n hn hne => hself (hne ▸ hn)

theorem after_signed {s₀ : State σ} {c : Config σ} (h : e.After s₀ c) :
    ∀ q ∈ c.pending, e.Signed e.Other q.act := by
  refine h.invariant (fun c => ∀ q ∈ c.pending, e.Signed e.Other q.act) ?_ ?_ ?_
  · simp
  · exact fun s trace acts _ hforeign => signed_begin hforeign
  · exact fun s s' q rest trace queued hq hexec => signed_queue not_other_self hq hexec

end Env

end Vaulta
