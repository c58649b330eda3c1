import Mathlib.Algebra.BigOperators.Group.List.Basic
import Mathlib.Algebra.Ring.Int.Defs
import Mathlib.Logic.Relation
import Mathlib.Tactic.Common

/-!
# Transactions of actions that queue actions

A transaction is a list of top-level actions. An action reads and writes the state,
and it queues further actions. These run right after it, in order, each one with
everything it queues in turn, before the next action of the list. `exec` says what one
action does, and its failure is the failure of the whole transaction.
-/

namespace Vaulta.Machine

/-- An action on the queue, with the top-level action it descends from and the number
of actions between them. -/
structure Queued (A : Type) where
  act : A
  root : A
  depth : Nat

def Queued.top {A : Type} (a : A) : Queued A := ⟨a, a, 0⟩

def Queued.child {A : Type} (q : Queued A) (a : A) : Queued A := ⟨a, q.root, q.depth + 1⟩

/-- The state, the actions still to run, and the ones that have run, the last one first. -/
structure Config (S A : Type) where
  state : S
  pending : List (Queued A)
  trace : List (Queued A)

section Semantics

variable {S A ε : Type} (exec : S → A → Except ε (S × List A))

/-- The first pending action runs, and what it queued comes before the rest. -/
inductive Step : Config S A → Config S A → Prop
  | run {s s' : S} {q : Queued A} {rest trace : List (Queued A)} {queued : List A}
      (h : exec s q.act = .ok (s', queued)) :
      Step ⟨s, q :: rest, trace⟩ ⟨s', queued.map q.child ++ rest, q :: trace⟩

/-- The actions run from `s` to the end, and leave `s'`. -/
inductive Commits : S → List A → S → Prop
  | nil {s : S} : Commits s [] s
  | cons {s s₁ s' : S} {a : A} {queued rest : List A} (h : exec s a = .ok (s₁, queued))
      (ht : Commits s₁ (queued ++ rest) s') : Commits s (a :: rest) s'

/-- What the transaction leaves: where it commits, or else the state that it began in. -/
inductive Leaves (s : S) (acts : List A) : S → Prop
  | commit {s' : S} (h : Commits exec s acts s') : Leaves s acts s'
  | abort (h : ∀ s', ¬ Commits exec s acts s') : Leaves s acts s

/-- What any sequence of admissible transactions can reach from a start state, in the
middle of a transaction too. A transaction that fails leaves the state it began in, so
it needs no case of its own. -/
inductive Reach (Start : S → Prop) (Admissible : List A → Prop) : Config S A → Prop
  | start {s : S} (h : Start s) : Reach Start Admissible ⟨s, [], []⟩
  | begin {s : S} {trace : List (Queued A)} {acts : List A} (h : Reach Start Admissible ⟨s, [], trace⟩)
      (ha : Admissible acts) : Reach Start Admissible ⟨s, acts.map Queued.top, trace⟩
  | step {c c' : Config S A} (h : Reach Start Admissible c) (hs : Step exec c c') :
      Reach Start Admissible c'

/-- Some step satisfied `P`, and `Q` has held ever since. -/
inductive Since (Start : S → Prop) (Admissible : List A → Prop)
    (P : Config S A → Config S A → Prop) (Q : Config S A → Prop) : Config S A → Prop
  | here {c c' : Config S A} (h : Reach exec Start Admissible c) (hs : Step exec c c') (hp : P c c')
      (hq : Q c') : Since Start Admissible P Q c'
  | begin {s : S} {trace : List (Queued A)} {acts : List A}
      (h : Since Start Admissible P Q ⟨s, [], trace⟩) (ha : Admissible acts)
      (hq : Q ⟨s, acts.map Queued.top, trace⟩) : Since Start Admissible P Q ⟨s, acts.map Queued.top, trace⟩
  | step {c c' : Config S A} (h : Since Start Admissible P Q c) (hs : Step exec c c') (hq : Q c') :
      Since Start Admissible P Q c'

def transact : Nat → S → List A → Option (Except ε S)
  | _, s, [] => some (.ok s)
  | 0, _, _ :: _ => none
  | fuel + 1, s, a :: rest =>
    match exec s a with
    | .error e => some (.error e)
    | .ok (s₁, queued) => transact fuel s₁ (queued ++ rest)

end Semantics

/-! ## Rules -/

section Rules

variable {S A ε : Type} {exec : S → A → Except ε (S × List A)}

theorem Step.leaf {s s' : S} {q : Queued A} {rest trace : List (Queued A)}
    (h : exec s q.act = .ok (s', [])) : Step exec ⟨s, q :: rest, trace⟩ ⟨s', rest, q :: trace⟩ := .run h

theorem Reach.single {Start : S → Prop} {Admissible : List A → Prop} {s s' : S} {a : A}
    {trace : List (Queued A)} (h : Reach exec Start Admissible ⟨s, [], trace⟩) (ha : Admissible [a])
    (he : exec s a = .ok (s', [])) : Reach exec Start Admissible ⟨s', [], .top a :: trace⟩ :=
  .step (.begin h ha) (Step.leaf he)

/-- An invariant of the start states that transactions and steps keep holds wherever a
run can get. -/
theorem Reach.invariant {Start : S → Prop} {Admissible : List A → Prop} (Inv : Config S A → Prop)
    (hstart : ∀ s, Start s → Inv ⟨s, [], []⟩)
    (hbegin : ∀ s trace acts, Inv ⟨s, [], trace⟩ → Admissible acts → Inv ⟨s, acts.map Queued.top, trace⟩)
    (hstep : ∀ s s' q rest trace queued, Inv ⟨s, q :: rest, trace⟩ → exec s q.act = .ok (s', queued) →
      Inv ⟨s', queued.map q.child ++ rest, q :: trace⟩)
    {c : Config S A} (h : Reach exec Start Admissible c) : Inv c := by
  induction h with
  | start h => exact hstart _ h
  | begin _ ha ih => exact hbegin _ _ _ ih ha
  | step _ hs ih =>
    cases hs with
    | run h => exact hstep _ _ _ _ _ _ ih h

theorem Reach.mono {Start : S → Prop} {Admissible Admissible' : List A → Prop}
    (ha : ∀ acts, Admissible acts → Admissible' acts) {c : Config S A} (h : Reach exec Start Admissible c) :
    Reach exec Start Admissible' c := by
  induction h with
  | start h => exact .start h
  | begin _ hacts ih => exact .begin ih (ha _ hacts)
  | step _ hs ih => exact .step ih hs

theorem steps_invariant (Inv : Config S A → Prop)
    (hstep : ∀ s s' q rest trace queued, Inv ⟨s, q :: rest, trace⟩ → exec s q.act = .ok (s', queued) →
      Inv ⟨s', queued.map q.child ++ rest, q :: trace⟩)
    {c c' : Config S A} (h : Relation.ReflTransGen (Step exec) c c') (hc : Inv c) : Inv c' := by
  induction h with
  | refl => exact hc
  | tail _ hs ih =>
    cases hs with
    | run h => exact hstep _ _ _ _ _ _ ih h

/-- What can only become true in a step with `P` has been true since such a step. -/
theorem Reach.since {Start : S → Prop} {Admissible : List A → Prop}
    {P : Config S A → Config S A → Prop} {Q : Config S A → Prop}
    (hstart : ∀ s, Start s → ¬ Q ⟨s, [], []⟩)
    (hbegin : ∀ s trace acts, Admissible acts → Q ⟨s, acts.map Queued.top, trace⟩ → Q ⟨s, [], trace⟩)
    (hstep : ∀ c c', Reach exec Start Admissible c → Step exec c c' → Q c' → Q c ∨ P c c')
    {c : Config S A} (h : Reach exec Start Admissible c) (hq : Q c) :
    Since exec Start Admissible P Q c := by
  induction h with
  | start h => exact absurd hq (hstart _ h)
  | begin _ ha ih => exact .begin (ih (hbegin _ _ _ ha hq)) ha hq
  | step hr hs ih =>
    rcases hstep _ _ hr hs hq with h | h
    · exact .step (ih h) hs hq
    · exact .here hr hs h hq

/-! ### Whole transactions -/

theorem commits_nil {s s' : S} : Commits exec s [] s' ↔ s' = s := by
  constructor
  · rintro ⟨⟩; rfl
  · rintro rfl; exact .nil

theorem commits_cons {s s' : S} {a : A} {rest : List A} :
    Commits exec s (a :: rest) s' ↔
      ∃ s₁ queued, exec s a = .ok (s₁, queued) ∧ Commits exec s₁ (queued ++ rest) s' := by
  constructor
  · intro h
    cases h with
    | cons h ht => exact ⟨_, _, h, ht⟩
  · rintro ⟨s₁, queued, h, ht⟩
    exact .cons h ht

theorem Commits.det {s s₁ s₂ : S} {acts : List A} (h1 : Commits exec s acts s₁) (h2 : Commits exec s acts s₂) :
    s₁ = s₂ := by
  induction h1 with
  | nil => exact (commits_nil.1 h2).symm
  | cons h _ ih =>
    obtain ⟨s₃, queued, h3, ht⟩ := commits_cons.1 h2
    rw [h] at h3
    cases h3
    exact ih ht

theorem commits_leaf {s s₁ s' : S} {a : A} {rest : List A} (h : exec s a = .ok (s₁, [])) :
    Commits exec s (a :: rest) s' ↔ Commits exec s₁ rest s' := by
  rw [commits_cons]
  constructor
  · rintro ⟨s₂, queued, h2, ht⟩
    rw [h] at h2
    cases h2
    exact ht
  · intro ht; exact ⟨_, _, h, ht⟩

theorem commits_append {s s' : S} {xs ys : List A} :
    Commits exec s (xs ++ ys) s' ↔ ∃ m, Commits exec s xs m ∧ Commits exec m ys s' := by
  constructor
  · intro h
    generalize hz : xs ++ ys = zs at h
    induction h generalizing xs with
    | nil =>
      obtain ⟨rfl, rfl⟩ := List.append_eq_nil_iff.1 hz
      exact ⟨_, .nil, .nil⟩
    | @cons s s₁ s' a queued rest h ht ih =>
      cases xs with
      | nil =>
        refine ⟨s, .nil, ?_⟩
        rw [List.nil_append] at hz
        rw [hz]; exact .cons h ht
      | cons x xs =>
        simp only [List.cons_append, List.cons.injEq] at hz
        obtain ⟨rfl, hz⟩ := hz
        obtain ⟨m, h1, h2⟩ := @ih (queued ++ xs) (by rw [List.append_assoc, hz])
        exact ⟨m, .cons h h1, h2⟩
  · rintro ⟨m, h1, h2⟩
    induction h1 with
    | nil => exact h2
    | cons h _ ih =>
      rw [List.cons_append]
      refine .cons h ?_
      rw [← List.append_assoc]
      exact ih h2

theorem commits_head {s s' : S} {a : A} {rest : List A} :
    Commits exec s (a :: rest) s' ↔ ∃ m, Commits exec s [a] m ∧ Commits exec m rest s' :=
  @commits_append _ _ _ exec s s' [a] rest

theorem map_child_act (q : Queued A) (l : List A) : (l.map q.child).map Queued.act = l := by
  simp [Queued.child, Function.comp_def]

theorem map_top_act (l : List A) : (l.map Queued.top).map Queued.act = l := by
  simp [Queued.top, Function.comp_def]

theorem Commits.steps {s s' : S} {acts : List A} (h : Commits exec s acts s')
    {pending : List (Queued A)} (hp : pending.map Queued.act = acts) (trace : List (Queued A)) :
    ∃ trace', Relation.ReflTransGen (Step exec) ⟨s, pending, trace⟩ ⟨s', [], trace'⟩ := by
  induction h generalizing pending trace with
  | nil =>
    obtain rfl := List.map_eq_nil_iff.1 hp
    exact ⟨trace, .refl⟩
  | @cons s s₁ s' a queued rest h _ ih =>
    obtain ⟨q, tail, rfl, rfl, rfl⟩ := List.map_eq_cons_iff.1 hp
    obtain ⟨trace', ht⟩ := @ih (queued.map q.child ++ tail)
      (by rw [List.map_append, map_child_act]) (q :: trace)
    exact ⟨trace', .head (.run h) ht⟩

theorem Reach.steps {Start : S → Prop} {Admissible : List A → Prop} {c c' : Config S A}
    (h : Reach exec Start Admissible c) (hs : Relation.ReflTransGen (Step exec) c c') :
    Reach exec Start Admissible c' := by
  induction hs with
  | refl => exact h
  | tail _ hs ih => exact .step ih hs

theorem Reach.commit {Start : S → Prop} {Admissible : List A → Prop} {s s' : S}
    {trace : List (Queued A)} {acts : List A} (h : Reach exec Start Admissible ⟨s, [], trace⟩)
    (ha : Admissible acts) (hc : Commits exec s acts s') :
    ∃ trace', Reach exec Start Admissible ⟨s', [], trace'⟩ := by
  obtain ⟨trace', ht⟩ := hc.steps (map_top_act acts) trace
  exact ⟨trace', (Reach.begin h ha).steps ht⟩

theorem Commits.invariant (Inv : Config S A → Prop)
    (hstep : ∀ s s' q rest trace queued, Inv ⟨s, q :: rest, trace⟩ → exec s q.act = .ok (s', queued) →
      Inv ⟨s', queued.map q.child ++ rest, q :: trace⟩)
    {s s' : S} {acts : List A} (h : Commits exec s acts s') (h0 : Inv ⟨s, acts.map Queued.top, []⟩) :
    ∃ trace', Inv ⟨s', [], trace'⟩ := by
  obtain ⟨trace', ht⟩ := h.steps (map_top_act acts) []
  exact ⟨trace', steps_invariant Inv hstep ht h0⟩

theorem Reach.kept {Start : S → Prop} {Admissible : List A → Prop} {P : S → Prop}
    (hexec : ∀ s s' a queued, exec s a = .ok (s', queued) → P s → P s') (hstart : ∀ s, Start s → P s)
    {c : Config S A} (h : Reach exec Start Admissible c) : P c.state :=
  h.invariant (fun c => P c.state) hstart (fun _ _ _ hs _ => hs) fun _ _ _ _ _ _ hs he => hexec _ _ _ _ he hs

theorem Commits.kept {P : S → Prop} (hexec : ∀ s s' a queued, exec s a = .ok (s', queued) → P s → P s')
    {s s' : S} {acts : List A} (h : Commits exec s acts s') (hs : P s) : P s' := by
  induction h with
  | nil => exact hs
  | cons h _ ih => exact ih (hexec _ _ _ _ h hs)

theorem commits_of_transact {fuel : Nat} {s s' : S} {acts : List A}
    (h : transact exec fuel s acts = some (.ok s')) : Commits exec s acts s' := by
  induction fuel generalizing s acts with
  | zero =>
    cases acts with
    | nil => simp only [transact, Option.some.injEq, Except.ok.injEq] at h; subst h; exact .nil
    | cons => simp [transact] at h
  | succ fuel ih =>
    cases acts with
    | nil => simp only [transact, Option.some.injEq, Except.ok.injEq] at h; subst h; exact .nil
    | cons a rest =>
      rw [transact] at h
      split at h
      · simp at h
      · rename_i s₁ queued he
        exact .cons he (ih h)

theorem not_commits_of_transact {fuel : Nat} {s s' : S} {acts : List A} {err : ε}
    (h : transact exec fuel s acts = some (.error err)) : ¬ Commits exec s acts s' := by
  induction fuel generalizing s acts with
  | zero => cases acts <;> simp [transact] at h
  | succ fuel ih =>
    cases acts with
    | nil => simp [transact] at h
    | cons a rest =>
      rw [transact] at h
      intro hc
      obtain ⟨s₁, queued, hexec, hc⟩ := commits_cons.1 hc
      rw [hexec] at h
      exact ih h hc

/-! ### Heights

A height that every action has over all that it queues. -/

/-- The transaction comes to an end, with a state or an error. -/
def Halts (exec : S → A → Except ε (S × List A)) (s : S) (acts : List A) : Prop :=
  ∃ fuel r, transact exec fuel s acts = some r

theorem Halts.nil (s : S) : Halts exec s [] := ⟨0, .ok s, rfl⟩

theorem Halts.cons {s : S} {a : A} {rest : List A}
    (h : ∀ s₁ queued, exec s a = .ok (s₁, queued) → Halts exec s₁ (queued ++ rest)) :
    Halts exec s (a :: rest) := by
  cases hexec : exec s a with
  | error e => exact ⟨1, .error e, by rw [transact, hexec]⟩
  | ok r =>
    obtain ⟨s₁, queued⟩ := r
    obtain ⟨fuel, r, hr⟩ := h s₁ queued hexec
    exact ⟨fuel + 1, r, by rw [transact, hexec]; exact hr⟩

variable {height : A → Nat}

theorem halts_append (hlower : ∀ s s' a queued, exec s a = .ok (s', queued) → ∀ b ∈ queued, height b < height a)
    (n : Nat) {acts rest : List A} (hacts : ∀ a ∈ acts, height a < n) (hrest : ∀ s, Halts exec s rest) (s : S) :
    Halts exec s (acts ++ rest) := by
  -- By induction on the height, and for each height by induction on the list.
  induction n generalizing acts rest s with
  | zero =>
    cases acts with
    | nil => exact hrest s
    | cons a acts => exact absurd (hacts a (List.mem_cons_self ..)) (Nat.not_lt_zero _)
  | succ n ih =>
    induction acts generalizing s with
    | nil => exact hrest s
    | cons a acts iha =>
      have ha := hacts a (List.mem_cons_self ..)
      refine .cons fun s₁ queued hexec => ih (fun b hb => ?_) (fun s₂ => ?_) s₁
      · have := hlower _ _ _ _ hexec b hb
        omega
      · exact iha (fun b hb => hacts b (List.mem_cons_of_mem _ hb)) s₂

theorem halts (hlower : ∀ s s' a queued, exec s a = .ok (s', queued) → ∀ b ∈ queued, height b < height a)
    (s : S) (acts : List A) : Halts exec s acts := by
  induction acts generalizing s with
  | nil => exact .nil s
  | cons a acts ih =>
    have ha : ∀ b ∈ [a], height b < height a + 1 := by simp
    exact halts_append hlower _ ha ih s

theorem depth_le (hlower : ∀ s s' a queued, exec s a = .ok (s', queued) → ∀ b ∈ queued, height b < height a)
    {s : S} {acts : List A} {c : Config S A}
    (h : Relation.ReflTransGen (Step exec) ⟨s, acts.map Queued.top, []⟩ c) :
    ∀ q ∈ c.pending ++ c.trace, q.depth + height q.act ≤ height q.root := by
  -- Deep in the tree of an action there is little height left.
  refine steps_invariant (fun c => ∀ q ∈ c.pending ++ c.trace, q.depth + height q.act ≤ height q.root)
    ?_ h ?_
  · intro s s' q rest trace queued hinv hexec p hp
    have hq := hinv q (by simp)
    simp only [List.mem_append, List.mem_cons, List.mem_map] at hp
    rcases hp with (⟨b, hb, rfl⟩ | hp) | rfl | hp
    · have := hlower _ _ _ _ hexec b hb
      simp only [Queued.child]
      omega
    · exact hinv p (by simp [hp])
    · exact hq
    · exact hinv p (by simp [hp])
  · intro q hq
    simp only [List.append_nil, List.mem_map] at hq
    obtain ⟨a, -, rfl⟩ := hq
    exact Nat.le_of_eq (Nat.zero_add _)

end Rules

/-! ## Sums over a queue -/

section Sums

variable {A : Type} {f : A → Int}

theorem sum_map_eq_zero {l : List A} (h : ∀ a ∈ l, f a = 0) : (l.map f).sum = 0 :=
  List.sum_eq_zero fun x hx => by
    obtain ⟨a, ha, rfl⟩ := List.mem_map.1 hx
    exact h a ha

theorem sum_top (f : A → Int) (acts : List A) :
    ((acts.map Queued.top).map fun p => f p.act).sum = (acts.map f).sum := by
  rw [List.map_map]
  rfl

theorem sum_queue (f : A → Int) (q : Queued A) (queued : List A) (rest : List (Queued A)) :
    ((queued.map q.child ++ rest).map fun p => f p.act).sum =
      (queued.map f).sum + (rest.map fun p => f p.act).sum := by
  rw [List.map_append, List.sum_append, List.map_map]
  rfl

end Sums

end Vaulta.Machine
