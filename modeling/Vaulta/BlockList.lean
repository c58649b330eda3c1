import Vaulta.Blocked
import Vaulta.Interleaving

/-!
# Who is blocked

The table of blocked recipients is what the executed requests say, each account's last one.
-/

namespace Vaulta

theorem System.Effect.blocked_same {c : View} {t : Tables} {call : Call} {o : Outcome Tables} (h : Effect c t call o)
    (hcall : ∀ account block, call ≠ .blockswapto account block) : o.tables.blocked = t.blocked := by
  cases h with
  | blocked => exact absurd rfl (hcall _ _)
  | _ => rfl

namespace Env

variable {σ : Type} (e : Env σ)

/-- What an action asks about `n`. -/
def asks (n : Name) (a : Action) : Option Bool :=
  match a.call with
  | .blockswapto account block => if a.account = e.self ∧ account = n then some block else none
  | _ => none

/-- What was asked last. -/
def asked (n : Name) (trace : List Queued) : Option Bool := trace.findSome? fun q => e.asks n q.act

/-- Whoever asked for it has the one row in his name, and pays for it. -/
def Listed (t : MultiIndex Name Name Name System.BlockedRecipient) (trace : List Queued) : Prop :=
  ∀ scope n r, t.rows scope n = some r ↔ scope = e.self ∧ r = ⟨⟨n⟩, n⟩ ∧ e.asked n trace = some true

variable {e} {s s' : State σ} {a : Action} {queued : List Action} {trace : List Queued} {q : Queued} {n : Name}

theorem asked_cons : e.asked n (q :: trace) = (e.asks n q.act).or (e.asked n trace) := by
  unfold asked
  rw [List.findSome?_cons]
  cases e.asks n q.act <;> rfl

theorem asks_eq_some {block : Bool} :
    e.asks n a = some block ↔ a.account = e.self ∧ a.call = .blockswapto n block := by
  unfold asks
  split
  · rename_i account block' hcall
    rw [hcall]
    constructor
    · intro h
      split_ifs at h with hsame
      obtain rfl := Option.some.inj h
      exact ⟨hsame.1, by rw [hsame.2]⟩
    · rintro ⟨hacc, hsame⟩
      cases hsame
      exact if_pos ⟨hacc, rfl⟩
  · rename_i hcall
    simp only [reduceCtorEq, false_iff]
    exact fun h => hcall _ _ h.2

/-! ## One action -/

theorem listed_still (hs : e.Listed s.system.blocked trace) (hsame : s'.system.blocked = s.system.blocked)
    (hask : ∀ n, e.asks n q.act = none) : e.Listed s'.system.blocked (q :: trace) := by
  intro scope n r
  rw [hsame, asked_cons, hask, Option.none_or]
  exact hs scope n r

theorem listed_asked {account : Name} {block : Bool} {t t' : MultiIndex Name Name Name System.BlockedRecipient}
    (hs : e.Listed t trace) (hacc : q.act.account = e.self) (hcall : q.act.call = .blockswapto account block)
    (hrows : t'.rows = MultiIndex.put t.rows e.self account (if block then some ⟨⟨account⟩, account⟩ else none)) :
    e.Listed t' (q :: trace) := by
  intro scope n r
  rw [hrows, MultiIndex.put_apply, asked_cons]
  by_cases hn : n = account
  · subst hn
    rw [asks_eq_some.2 ⟨hacc, hcall⟩, Option.some_or]
    by_cases hscope : scope = e.self
    · rw [if_pos ⟨hscope, rfl⟩]
      cases block
      · simp
      · simp [hscope, eq_comm]
    · rw [if_neg fun h => hscope h.1, hs]
      simp [hscope]
  · have hnone : e.asks n q.act = none := by
      unfold asks
      rw [hcall]
      exact if_neg fun h => hn h.2.symm
    rw [hnone, Option.none_or, if_neg fun h => hn h.2, hs]

theorem exec_request {account : Name} {block : Bool} (hacc : a.account = e.self)
    (hcall : a.call = .blockswapto account block) (h : e.exec s a = .ok (s', queued)) :
    ∃ o, System.blockswapto (e.ctx s e.self a.authorization) s.system account block = .ok o ∧
      s' = { s with system := o.tables } := by
  have hexec : e.exec s ⟨e.self, a.authorization, .blockswapto account block⟩ = .ok (s', queued) := by
    rw [← hacc, ← hcall]
    exact h
  obtain ⟨o, ho, hs', -⟩ := exec_own.1 hexec
  exact ⟨o, ho, hs'⟩

theorem exec_listed (hs : e.Listed s.system.blocked trace) (h : e.exec s q.act = .ok (s', queued)) :
    e.Listed s'.system.blocked (q :: trace) := by
  by_cases hask : ∃ account block, q.act.account = e.self ∧ q.act.call = .blockswapto account block
  · obtain ⟨account, block, hacc, hcall⟩ := hask
    obtain ⟨o, ho, rfl⟩ := exec_request hacc hcall h
    refine listed_asked hs hacc hcall ?_
    obtain ⟨-, ⟨rfl, -, blocked, hadd, rfl⟩ | ⟨rfl, -, blocked, herase, rfl⟩ | ⟨hidle, rfl⟩⟩ :=
      System.blockswapto_eq_ok.1 ho
    · obtain ⟨-, rfl⟩ := MultiIndex.emplace_eq_ok.1 hadd
      rfl
    · obtain ⟨-, rfl⟩ := MultiIndex.erase_eq_ok.1 herase
      rfl
    · -- The row is there already, or is not there.
      have hsame : s.system.blocked.rows e.self account = if block then some ⟨⟨account⟩, account⟩ else none := by
        change block = true ↔ s.system.blocked.find e.self account ≠ none at hidle
        rw [ne_eq, MultiIndex.find_eq_none] at hidle
        cases block
        · simpa using hidle
        · obtain ⟨r, hr⟩ := Option.ne_none_iff_exists'.1 (hidle.1 rfl)
          rw [hr, ((hs _ _ _).1 hr).2.1]
          rfl
      funext scope n
      rw [MultiIndex.put_apply, ← hsame]
      split
      · rename_i hkey
        rw [hkey.1, hkey.2]
      · rfl
  · have hnone : ∀ n, e.asks n q.act = none := by
      intro n
      cases hasks : e.asks n q.act with
      | none => rfl
      | some block => exact absurd ⟨n, block, asks_eq_some.1 hasks⟩ hask
    refine listed_still hs ?_ hnone
    cases exec_effect h with
    | system hacc heffect => exact heffect.blocked_same fun account block hcall => hask ⟨account, block, hacc, hcall⟩
    | token | swap_in | eosio | nobody => rfl

/-! ## Any run -/

variable {s₀ : State σ} {c : Config σ}

theorem weaves_listed (hgenesis : Genesis s₀) (h : Machine.Weaves e.exec (fun _ => True) ⟨s₀, [], []⟩ c) :
    e.Listed c.state.system.blocked c.trace := by
  refine h.invariant (fun c => e.Listed c.state.system.blocked c.trace) ?_ ?_ ?_
  · exact fun s s' q rest trace queued hs hexec => exec_listed hs hexec
  · exact fun s pending trace a hs _ => hs
  · intro scope n r
    change s₀.system.blocked.rows scope n = _ ↔ _
    rw [hgenesis.1]
    simp [System.Tables.empty, asked]

theorem weaves_asked_by (h : Machine.Weaves e.exec (fun _ => True) ⟨s₀, [], []⟩ c) :
    ∀ q ∈ c.trace, ∀ n block, q.act.account = e.self → q.act.call = .blockswapto n block →
      n ∈ q.act.actors ∨ e.self ∈ q.act.actors := by
  refine h.invariant (fun c : Config σ => ∀ q ∈ c.trace, ∀ n block, q.act.account = e.self →
    q.act.call = .blockswapto n block → n ∈ q.act.actors ∨ e.self ∈ q.act.actors) ?_ (fun _ _ _ _ hs _ => hs) (by simp)
  intro s s' q rest trace queued hs hexec p hp n block hacc hcall
  rcases List.mem_cons.1 hp with rfl | hp
  · obtain ⟨o, ho, -⟩ := exec_request hacc hcall hexec
    exact (System.blockswapto_eq_ok.1 ho).1.elim (fun h => .inr (mem_actors h)) fun h => .inl (mem_actors h)
  · exact hs p hp n block hacc hcall

/-- **Who is blocked is in the trace.** From the first action on, in whatever order and with
whatever in the middle of whose transaction, the table has a row for an account exactly when
the last executed request about it was to block it. The account pays for the row. Every
executed request was signed by the account or by the contract, and nothing is swapped for a
recipient who is blocked. -/
theorem blocked_from_trace (hgenesis : Genesis s₀) (h : Machine.Weaves e.exec (fun _ => True) ⟨s₀, [], []⟩ c) :
    (∀ scope n r, c.state.system.blocked.rows scope n = some r ↔
      scope = e.self ∧ r = ⟨⟨n⟩, n⟩ ∧ e.asked n c.trace = some true) ∧
    (∀ q ∈ c.trace, ∀ n block, q.act.account = e.self → q.act.call = .blockswapto n block →
      n ∈ q.act.actors ∨ e.self ∈ q.act.actors) ∧
    ∀ q ∈ c.pending, ∀ u n v memo, q.act.account = e.self → q.act.call = .swapto u n v memo →
      e.asked n c.trace = some true → ∀ r, e.exec c.state q.act ≠ .ok r := by
  have hlisted := weaves_listed hgenesis h
  refine ⟨hlisted, weaves_asked_by h, fun q _ u n v memo hacc hcall hasked r hexec => ?_⟩
  obtain ⟨o, heffect, -⟩ := exec_system hacc hexec
  have hfree : c.state.system.blocked.find e.self n = none := by
    rw [hcall] at heffect
    cases heffect with
    | swapto_eos _ hfree => exact hfree
    | swapto_xyz _ hfree => exact hfree
    | idle hidle => cases hidle
  have hrow := (hlisted e.self n ⟨⟨n⟩, n⟩).2 ⟨rfl, rfl, hasked⟩
  rw [MultiIndex.find_eq_none.1 hfree] at hrow
  cases hrow

/-- `bob` blocks himself before anything else happens, and then `alice` wants to swap for him. -/
theorem blocked_from_trace_bob : ∃ c q, Machine.Weaves Tiny.env.exec (fun _ => True) ⟨Tiny.genesis, [], []⟩ c ∧
    c.state.system.blocked.rows Tiny.env.self Tiny.bob = some ⟨⟨Tiny.bob⟩, Tiny.bob⟩ ∧ q ∈ c.pending ∧
    q.act.call = .swapto Tiny.alice Tiny.bob ⟨50, Symbol.EOS⟩ [] ∧ ∀ r, Tiny.env.exec c.state q.act ≠ .ok r := by
  obtain ⟨s, queued, hexec⟩ : ∃ s queued, Tiny.env.exec Tiny.genesis Tiny.block = .ok (s, queued) := ⟨_, _, rfl⟩
  have hweaves : Machine.Weaves Tiny.env.exec (fun _ => True) ⟨Tiny.genesis, [], []⟩ _ :=
    ((Relation.ReflTransGen.refl.tail (.slip trivial)).tail (.act (.run hexec))).tail
      (.slip (a := ⟨Tiny.env.self, System.active Tiny.alice, .swapto Tiny.alice Tiny.bob ⟨50, Symbol.EOS⟩ []⟩) trivial)
  obtain ⟨hrows, -, hfails⟩ := blocked_from_trace ⟨rfl, rfl⟩ hweaves
  have hmem := List.mem_cons_self (a := Machine.Queued.top (⟨Tiny.env.self, System.active Tiny.alice,
    .swapto Tiny.alice Tiny.bob ⟨50, Symbol.EOS⟩ []⟩ : Action))
    (l := queued.map (Machine.Queued.top Tiny.block).child ++ [])
  exact ⟨_, _, hweaves, (hrows _ _ _).2 ⟨rfl, rfl, rfl⟩, hmem, rfl, hfails _ hmem _ _ _ _ rfl rfl rfl⟩

end Env

end Vaulta
