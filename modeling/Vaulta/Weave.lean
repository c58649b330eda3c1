import Vaulta.Machine

/-!
# Runs that others act in

A contract that is notified of an action can queue actions of its own, and so can every
contract that is called. Here an action may come to the front of the queue at any time,
in the middle of a transaction too, if only it satisfies `Slips`.
-/

namespace Vaulta.Machine

section Semantics

variable {S A ε : Type} (exec : S → A → Except ε (S × List A)) (Slips : A → Prop)

inductive Woven : Config S A → Config S A → Prop
  | act {c c' : Config S A} (h : Step exec c c') : Woven c c'
  | slip {s : S} {pending trace : List (Queued A)} {a : A} (ha : Slips a) :
      Woven ⟨s, pending, trace⟩ ⟨s, .top a :: pending, trace⟩

/-- Any number of steps, by anybody. -/
abbrev Weaves : Config S A → Config S A → Prop := Relation.ReflTransGen (Woven exec Slips)

end Semantics

section Rules

variable {S A ε : Type} {exec : S → A → Except ε (S × List A)} {Slips Slips' : A → Prop} {c c' c'' : Config S A}

theorem Weaves.invariant (Inv : Config S A → Prop)
    (hstep : ∀ s s' q rest trace queued, Inv ⟨s, q :: rest, trace⟩ → exec s q.act = .ok (s', queued) →
      Inv ⟨s', queued.map q.child ++ rest, q :: trace⟩)
    (hslip : ∀ s pending trace a, Inv ⟨s, pending, trace⟩ → Slips a → Inv ⟨s, .top a :: pending, trace⟩)
    (h : Weaves exec Slips c c') (hc : Inv c) : Inv c' := by
  induction h with
  | refl => exact hc
  | tail _ hw ih =>
    cases hw with
    | act hs =>
      cases hs with
      | run hexec => exact hstep _ _ _ _ _ _ ih hexec
    | slip ha => exact hslip _ _ _ _ ih ha

theorem Weaves.mono (ha : ∀ a, Slips a → Slips' a) (h : Weaves exec Slips c c') : Weaves exec Slips' c c' := by
  refine Relation.ReflTransGen.mono (fun _ _ hw => ?_) _ _ h
  cases hw with
  | act hs => exact .act hs
  | slip hslip => exact .slip (ha _ hslip)

theorem Weaves.kept {P : S → Prop} (hexec : ∀ s s' a queued, exec s a = .ok (s', queued) → P s → P s')
    (h : Weaves exec Slips c c') (hc : P c.state) : P c'.state :=
  h.invariant (fun c => P c.state) (fun _ _ _ _ _ _ hs he => hexec _ _ _ _ he hs) (fun _ _ _ _ hs _ => hs) hc

theorem Weaves.slips {s : S} {pending trace : List (Queued A)} {acts : List A} (ha : ∀ a ∈ acts, Slips a) :
    Weaves exec Slips ⟨s, pending, trace⟩ ⟨s, acts.map Queued.top ++ pending, trace⟩ := by
  induction acts with
  | nil => exact .refl
  | cons a acts ih =>
    refine (ih fun b hb => ha b (List.mem_cons_of_mem _ hb)).tail ?_
    exact .slip (ha a (List.mem_cons_self ..))

/-- Transactions that nothing comes into the middle of are woven too. -/
theorem Reach.weaves {Start : S → Prop} {Admissible : List A → Prop}
    (ha : ∀ acts, Admissible acts → ∀ a ∈ acts, Slips a) (h : Reach exec Start Admissible c) :
    ∃ s, Start s ∧ Weaves exec Slips ⟨s, [], []⟩ c := by
  induction h with
  | start hs => exact ⟨_, hs, .refl⟩
  | @begin s trace acts _ hacts ih =>
    obtain ⟨s₀, hs, hw⟩ := ih
    have hslips : Weaves exec Slips ⟨s, [], trace⟩ ⟨s, acts.map Queued.top ++ [], trace⟩ := Weaves.slips (ha _ hacts)
    rw [List.append_nil] at hslips
    exact ⟨s₀, hs, hw.trans hslips⟩
  | step _ hs ih =>
    obtain ⟨s₀, hstart, hw⟩ := ih
    exact ⟨s₀, hstart, hw.tail (.act hs)⟩

end Rules

end Vaulta.Machine
