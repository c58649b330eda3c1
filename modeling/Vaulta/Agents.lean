import Mathlib.Data.List.Count
import Mathlib.Data.List.Perm.Basic
import Mathlib.Tactic.Common

/-!
# Agents that do not disturb each other

Operations run one after the other, and each one has an owner. When an operation depends
on what its owner sees, and changes that and nothing that anybody else sees, then only
the order of each owner's own operations matters.
-/

namespace Vaulta.Agents

variable {S V Op U : Type}

/-! ## Runs -/

inductive Runs (step : Op → S → S → Prop) : List Op → S → S → Prop
  | nil {s : S} : Runs step [] s s
  | cons {op : Op} {ops : List Op} {s s₁ s' : S} (h : step op s s₁) (ht : Runs step ops s₁ s') :
      Runs step (op :: ops) s s'

section Runs

variable {step : Op → S → S → Prop} {s s' : S}

theorem runs_nil : Runs step [] s s' ↔ s' = s := by
  constructor
  · rintro ⟨⟩; rfl
  · rintro rfl; exact .nil

theorem runs_cons {op : Op} {ops : List Op} :
    Runs step (op :: ops) s s' ↔ ∃ s₁, step op s s₁ ∧ Runs step ops s₁ s' := by
  constructor
  · intro h
    cases h with
    | cons h ht => exact ⟨_, h, ht⟩
  · rintro ⟨s₁, h, ht⟩
    exact .cons h ht

theorem runs_append {ops ops' : List Op} :
    Runs step (ops ++ ops') s s' ↔ ∃ s₁, Runs step ops s s₁ ∧ Runs step ops' s₁ s' := by
  induction ops generalizing s with
  | nil =>
    constructor
    · exact fun h => ⟨s, .nil, h⟩
    · rintro ⟨s₁, h, h'⟩
      rw [runs_nil.1 h] at h'
      exact h'
  | cons op ops ih =>
    rw [List.cons_append, runs_cons]
    constructor
    · rintro ⟨s₁, hop, h⟩
      obtain ⟨s₂, hops, h⟩ := ih.1 h
      exact ⟨s₂, .cons hop hops, h⟩
    · rintro ⟨s₂, h, h'⟩
      obtain ⟨s₁, hop, hops⟩ := runs_cons.1 h
      exact ⟨s₁, hop, ih.2 ⟨s₂, hops, h'⟩⟩

theorem Runs.invariant {Inv : S → Prop} {ops : List Op} (h : Runs step ops s s')
    (hstep : ∀ op s s', Inv s → step op s s' → Inv s') (hs : Inv s) : Inv s' := by
  induction h with
  | nil => exact hs
  | cons h _ ih => exact ih (hstep _ _ _ hs h)

end Runs

/-! ## Independence -/

def mine [DecidableEq U] (owner : Op → U) (u : U) (ops : List Op) : List Op :=
  ops.filter fun op => owner op = u

/-- As long as `Inv` holds, what an operation does is what `own` says about the view of
its owner, and to nobody else's view. -/
structure Independent (step : Op → S → S → Prop) (Inv : S → Prop) (owner : Op → U) (view : S → U → V)
    (own : Op → V → V → Prop) : Prop where
  keeps : ∀ op s s', Inv s → step op s s' → Inv s'
  seen : ∀ op s s', Inv s → step op s s' → own op (view s (owner op)) (view s' (owner op))
  frame : ∀ op s s' u, Inv s → step op s s' → u ≠ owner op → view s' u = view s u
  enabled : ∀ op s v, Inv s → own op (view s (owner op)) v → ∃ s', step op s s'
  det : ∀ op v v₁ v₂, own op v v₁ → own op v v₂ → v₁ = v₂

section Mine

variable [DecidableEq U] {owner : Op → U} {op : Op} {ops ops' : List Op} {u : U}

theorem mine_cons_self : mine owner (owner op) (op :: ops) = op :: mine owner (owner op) ops :=
  List.filter_cons_of_pos (by simp)

theorem mine_cons_ne (h : u ≠ owner op) : mine owner u (op :: ops) = mine owner u ops :=
  List.filter_cons_of_neg (by simpa using h.symm)

theorem mine_append : mine owner u (ops ++ ops') = mine owner u ops ++ mine owner u ops' :=
  List.filter_append ..

theorem mine_eq_nil (h : ∀ op ∈ ops, owner op ≠ u) : mine owner u ops = [] :=
  List.filter_eq_nil_iff.2 fun op hop => by simpa using h op hop

theorem perm_of_mine (h : ∀ u, mine owner u ops = mine owner u ops') : ops.Perm ops' := by
  classical
  refine List.perm_iff_count.2 fun op => ?_
  have hcount : ∀ l : List Op, (mine owner (owner op) l).count op = l.count op := fun l =>
    List.count_filter (by simp)
  rw [← hcount ops, ← hcount ops', h]

end Mine

namespace Independent

variable [DecidableEq U] {step : Op → S → S → Prop} {Inv : S → Prop} {owner : Op → U} {view : S → U → V}
  {own : Op → V → V → Prop} {ops ops' : List Op} {s s' : S}

theorem project (h : Independent step Inv owner view own) (hs : Inv s) (hr : Runs step ops s s') (u : U) :
    Runs own (mine owner u ops) (view s u) (view s' u) := by
  induction hr with
  | nil => exact .nil
  | @cons op ops s s₁ s' hstep _ ih =>
    have ht := ih (h.keeps _ _ _ hs hstep)
    by_cases hu : u = owner op
    · subst hu
      rw [mine_cons_self]
      exact .cons (h.seen _ _ _ hs hstep) ht
    · rw [mine_cons_ne hu, ← h.frame _ _ _ u hs hstep hu]
      exact ht

/-- If every owner can run his own operations, then all of them run together. -/
theorem of_project (h : Independent step Inv owner view own) (hs : Inv s)
    (hr : ∀ u, ∃ v, Runs own (mine owner u ops) (view s u) v) : ∃ s', Runs step ops s s' := by
  induction ops generalizing s with
  | nil => exact ⟨s, .nil⟩
  | cons op ops ih =>
    obtain ⟨v, hv⟩ := hr (owner op)
    rw [mine_cons_self, runs_cons] at hv
    obtain ⟨v₁, hown, hv⟩ := hv
    obtain ⟨s₁, hstep⟩ := h.enabled _ _ _ hs hown
    have hnext : ∀ u, ∃ v, Runs own (mine owner u ops) (view s₁ u) v := by
      intro u
      by_cases hu : u = owner op
      · subst hu
        rw [h.det _ _ _ _ (h.seen _ _ _ hs hstep) hown]
        exact ⟨v, hv⟩
      · rw [h.frame _ _ _ u hs hstep hu, ← mine_cons_ne hu]
        exact hr u
    obtain ⟨s', ht⟩ := ih (h.keeps _ _ _ hs hstep) hnext
    exact ⟨s', .cons hstep ht⟩

omit [DecidableEq U] in
theorem runs_det (h : Independent step Inv owner view own) {v v₁ v₂ : V} (h1 : Runs own ops v v₁)
    (h2 : Runs own ops v v₂) : v₁ = v₂ := by
  induction h1 with
  | nil => exact (runs_nil.1 h2).symm
  | cons hown _ ih =>
    obtain ⟨v₃, hown', ht⟩ := runs_cons.1 h2
    rw [h.det _ _ _ _ hown' hown] at ht
    exact ih ht

/-- **Reordering.** In any order that keeps every owner's own, the operations succeed
again, and everybody sees the same in the end. -/
theorem reorder (h : Independent step Inv owner view own) (hs : Inv s) (hr : Runs step ops s s')
    (hsame : ∀ u, mine owner u ops' = mine owner u ops) :
    ∃ s'', Runs step ops' s s'' ∧ ∀ u, view s'' u = view s' u := by
  have hown : ∀ u, ∃ v, Runs own (mine owner u ops') (view s u) v := fun u =>
    ⟨view s' u, hsame u ▸ h.project hs hr u⟩
  obtain ⟨s'', hr'⟩ := h.of_project hs hown
  exact ⟨s'', hr', fun u => h.runs_det (h.project hs hr' u) (hsame u ▸ h.project hs hr u)⟩

end Independent

end Vaulta.Agents
