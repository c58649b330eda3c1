import Mathlib.Algebra.GroupWithZero.Nat
import Vaulta.Machine

/-!
# Calls in one step

A call may run as many actions, or be taken as one step that does all of it. For the
transactions that commit it makes no difference.
-/

namespace Vaulta.Machine

section Embeds

variable {S T A ε : Type} {exec : S → A → Except ε (S × List A)} {inner : T → A → Except ε (T × List A)}

/-- On the actions of `Q` the machine works on a part of its state only. -/
structure Embeds (inner : T → A → Except ε (T × List A)) (exec : S → A → Except ε (S × List A)) (f : T → S)
    (Q : A → Prop) : Prop where
  agree : ∀ t a, Q a → exec (f t) a = (inner t a).map fun r => (f r.1, r.2)
  queue : ∀ t t' a queued, Q a → inner t a = .ok (t', queued) → ∀ b ∈ queued, Q b

variable {f : T → S} {Q : A → Prop}

theorem Embeds.exec_iff (h : Embeds inner exec f Q) {t : T} {a : A} (ha : Q a) {s' : S} {queued : List A} :
    exec (f t) a = .ok (s', queued) ↔ ∃ t', s' = f t' ∧ inner t a = .ok (t', queued) := by
  rw [h.agree t a ha]
  cases inner t a with
  | error err => simp [Except.map]
  | ok r =>
    obtain ⟨t', l⟩ := r
    simp only [Except.map, Except.ok.injEq, Prod.mk.injEq]
    constructor
    · rintro ⟨rfl, rfl⟩; exact ⟨t', rfl, rfl, rfl⟩
    · rintro ⟨_, rfl, rfl, rfl⟩; exact ⟨rfl, rfl⟩

theorem Embeds.commits (h : Embeds inner exec f Q) {t : T} {acts : List A} (hacts : ∀ a ∈ acts, Q a) {s' : S} :
    Commits exec (f t) acts s' ↔ ∃ t', s' = f t' ∧ Commits inner t acts t' := by
  have hrest : ∀ {t t' : T} {a : A} {queued rest : List A}, (∀ b ∈ a :: rest, Q b) →
      inner t a = .ok (t', queued) → ∀ b ∈ queued ++ rest, Q b := by
    intro t t' a queued rest hall hexec b hb
    rcases List.mem_append.1 hb with hb | hb
    · exact h.queue _ _ _ _ (hall a (List.mem_cons_self ..)) hexec b hb
    · exact hall b (List.mem_cons_of_mem _ hb)
  constructor
  · intro hc
    generalize hs : f t = s at hc
    induction hc generalizing t with
    | nil => exact ⟨t, hs.symm, .nil⟩
    | @cons s s₁ s' a queued rest hexec _ ih =>
      subst hs
      obtain ⟨t₁, rfl, hinner⟩ := (h.exec_iff (hacts a (List.mem_cons_self ..))).1 hexec
      obtain ⟨t', rfl, ht⟩ := ih (hrest hacts hinner) rfl
      exact ⟨t', rfl, .cons hinner ht⟩
  · rintro ⟨t', rfl, hc⟩
    induction hc with
    | nil => exact .nil
    | @cons t t₁ t' a queued rest hinner _ ih =>
      exact .cons ((h.exec_iff (hacts a (List.mem_cons_self ..))).2 ⟨t₁, rfl, hinner⟩) (ih (hrest hacts hinner))

end Embeds

section Folds

variable {S A ε : Type}

/-- Where `exec` runs a call by what it queues, `folded` does all of it at once. -/
structure Folds (exec folded : S → A → Except ε (S × List A)) (Call Q : A → Prop) : Prop where
  same : ∀ s a, Q a → ¬ Call a → folded s a = exec s a
  call : ∀ s a s' queued, Q a → Call a → (folded s a = .ok (s', queued) ↔ queued = [] ∧ Commits exec s [a] s')
  queue : ∀ s a s' queued, Q a → ¬ Call a → exec s a = .ok (s', queued) → ∀ b ∈ queued, Q b

variable {exec folded : S → A → Except ε (S × List A)} {Call Q : A → Prop} {s s' : S} {acts : List A}

/-- While the actions of a call run one by one, the other machine waits for the last one. -/
theorem Folds.fold (h : Folds exec folded Call Q) {inner rest : List A} (hrest : ∀ a ∈ rest, Q a)
    (hc : Commits exec s (inner ++ rest) s') :
    ∃ s₁, Commits exec s inner s₁ ∧ Commits folded s₁ rest s' := by
  generalize hz : inner ++ rest = acts at hc
  induction hc generalizing inner rest with
  | nil =>
    obtain ⟨rfl, rfl⟩ := List.append_eq_nil_iff.1 hz
    exact ⟨_, .nil, .nil⟩
  | @cons s s₁ s' a queued tail hexec _ ih =>
    cases inner with
    | cons b inner =>
      obtain ⟨rfl, rfl⟩ := List.cons.inj hz
      obtain ⟨s₂, hinner, hfolded⟩ := @ih (queued ++ inner) rest hrest (List.append_assoc ..)
      exact ⟨s₂, .cons hexec hinner, hfolded⟩
    | nil =>
      rw [List.nil_append] at hz
      subst hz
      have ha := hrest a (List.mem_cons_self ..)
      have htail : ∀ b ∈ tail, Q b := fun b hb => hrest b (List.mem_cons_of_mem _ hb)
      refine ⟨s, .nil, ?_⟩
      by_cases hcall : Call a
      · obtain ⟨s₂, hinner, hfolded⟩ := ih htail rfl
        have hone : Commits exec s [a] s₂ := .cons hexec (by rwa [List.append_nil])
        exact .cons ((h.call _ _ _ _ ha hcall).2 ⟨rfl, hone⟩) hfolded
      · have hqueue : ∀ b ∈ queued ++ tail, Q b := fun b hb => (List.mem_append.1 hb).elim
          (h.queue _ _ _ _ ha hcall hexec b) (htail b)
        obtain ⟨s₂, hnil, hfolded⟩ := @ih [] (queued ++ tail) hqueue rfl
        obtain rfl := commits_nil.1 hnil
        exact .cons ((h.same _ _ ha hcall).trans hexec) hfolded

theorem Folds.unfold (h : Folds exec folded Call Q) (hacts : ∀ a ∈ acts, Q a) (hc : Commits folded s acts s') :
    Commits exec s acts s' := by
  induction hc with
  | nil => exact .nil
  | @cons s s₁ s' a queued tail hexec _ ih =>
    have ha := hacts a (List.mem_cons_self ..)
    have htail : ∀ b ∈ tail, Q b := fun b hb => hacts b (List.mem_cons_of_mem _ hb)
    by_cases hcall : Call a
    · obtain ⟨rfl, hone⟩ := (h.call _ _ _ _ ha hcall).1 hexec
      exact commits_head.2 ⟨s₁, hone, ih htail⟩
    · rw [h.same _ _ ha hcall] at hexec
      exact .cons hexec (ih fun b hb => (List.mem_append.1 hb).elim (h.queue _ _ _ _ ha hcall hexec b) (htail b))

theorem Folds.commits (h : Folds exec folded Call Q) (hacts : ∀ a ∈ acts, Q a) :
    Commits exec s acts s' ↔ Commits folded s acts s' := by
  constructor
  · intro hc
    obtain ⟨s₁, hnil, hfolded⟩ := @Folds.fold _ _ _ _ _ _ _ _ _ h [] acts hacts hc
    obtain rfl := commits_nil.1 hnil
    exact hfolded
  · exact h.unfold hacts

end Folds

section Kept

variable {S A ε : Type} {exec : S → A → Except ε (S × List A)} {Q : A → Prop} {P : S → Prop}

theorem Commits.kept_on (hqueue : ∀ s a s' queued, Q a → exec s a = .ok (s', queued) → ∀ b ∈ queued, Q b)
    (hkept : ∀ s a s' queued, Q a → exec s a = .ok (s', queued) → P s → P s') {s s' : S} {acts : List A}
    (h : Commits exec s acts s') (hacts : ∀ a ∈ acts, Q a) (hs : P s) : P s' := by
  induction h with
  | nil => exact hs
  | @cons s s₁ s' a queued rest hexec _ ih =>
    have ha := hacts a (List.mem_cons_self ..)
    refine ih (fun b hb => ?_) (hkept _ _ _ _ ha hexec hs)
    rcases List.mem_append.1 hb with hb | hb
    · exact hqueue _ _ _ _ ha hexec b hb
    · exact hacts b (List.mem_cons_of_mem _ hb)

end Kept

section Size

variable {S A ε : Type} {exec : S → A → Except ε (S × List A)} {size : A → Nat}

theorem transact_eq_ok
    (hsize : ∀ s s' a queued, exec s a = .ok (s', queued) → (queued.map size).sum < size a) {s s' : S} {acts : List A}
    {fuel : Nat} (hfuel : (acts.map size).sum ≤ fuel) :
    transact exec fuel s acts = some (.ok s') ↔ Commits exec s acts s' := by
  refine ⟨commits_of_transact, fun h => ?_⟩
  induction h generalizing fuel with
  | nil => cases fuel <;> rfl
  | @cons s s₁ s' a queued rest hexec _ ih =>
    have hless := hsize _ _ _ _ hexec
    rw [List.map_cons, List.sum_cons] at hfuel
    obtain ⟨fuel, rfl⟩ : ∃ n, fuel = n + 1 := ⟨fuel - 1, by omega⟩
    rw [transact, hexec]
    refine ih ?_
    rw [List.map_append, List.sum_append]
    omega

end Size

end Vaulta.Machine
