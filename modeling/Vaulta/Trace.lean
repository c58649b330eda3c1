import Vaulta.Conservation
import Vaulta.Sends

/-!
# Balances from the trace

Whoever reads the transfers and the swap notes that were executed knows every balance
of XYZ.
-/

namespace Vaulta.Env

variable {σ : Type} (e : Env σ)

/-! ## Reading a trace -/

def xyz_transfer (a : Action) : Option (Name × Name × Asset) :=
  match a.call with
  | .transfer sender recipient quantity _ =>
    if a.account = e.self then some (sender, recipient, quantity) else none
  | _ => none

/-- A note of the contract that it swapped somebody's XYZ. -/
def swap_note (a : Action) : Option (Name × Asset) :=
  match a.call with
  | .swaptrace account quantity => if a.account = e.self then some (account, quantity) else none
  | _ => none

def incoming (n : Name) (a : Action) : Int :=
  match e.xyz_transfer a with
  | some (_, recipient, q) => if recipient = n then q.val else 0
  | none => 0

def outgoing (n : Name) (a : Action) : Int :=
  match e.xyz_transfer a with
  | some (sender, _, q) => if sender = n then q.val else 0
  | none => 0

def traced (n : Name) (a : Action) : Int :=
  match e.swap_note a with
  | some (account, q) => if account = n then q.val else 0
  | none => 0

def traced_any (a : Action) : Int :=
  match e.swap_note a with
  | some (_, q) => q.val
  | none => 0

def total (f : Action → Int) (trace : List Queued) : Int := (trace.map fun q => f q.act).sum

def note_change (n : Name) (a : Action) : Int :=
  -e.traced n a + if n = e.self then e.traced_any a else 0

def change (n : Name) (a : Action) : Int := e.incoming n a - e.outgoing n a + e.note_change n a

/-- What a queued note will say. Only the contract's own notes are ever executed. -/
def due (n : Name) (a : Action) : Int := if e.self ∈ a.actors then e.note_change n a else 0

variable {e}

theorem swap_note_none {a : Action} (h : ¬ a.Traces) : e.swap_note a = none := by
  unfold swap_note
  split
  · exact absurd ⟨_, _, ‹_›⟩ h
  · rfl

theorem xyz_transfer_none {a : Action}
    (h : a.account = e.self → ∀ u w q memo, a.call ≠ .transfer u w q memo) : e.xyz_transfer a = none := by
  unfold xyz_transfer
  split
  · exact if_neg fun hacc => h hacc _ _ _ _ ‹_›
  · rfl

theorem note_change_none {n : Name} {a : Action} (h : e.swap_note a = none) : e.note_change n a = 0 := by
  simp [note_change, traced, traced_any, h]

theorem due_none {n : Name} {a : Action} (h : e.swap_note a = none) : e.due n a = 0 := by
  unfold due
  rw [note_change_none h]
  exact ite_self 0

theorem change_none {n : Name} {a : Action} (ht : e.xyz_transfer a = none) : e.change n a = e.note_change n a := by
  simp [change, incoming, outgoing, ht]

/-! ## One action -/

/-- How the balances of XYZ change, and what is noted about it. -/
inductive XyzStep (e : Env σ) (sym : Symbol) (a : Action) (f f' : SymbolCode → Name → Int) (queued : List Action) : Prop
  | still (hcall : a.account = e.self → ∀ u w q memo, a.call ≠ .transfer u w q memo) (h : f' = f)
      (hnote : ∀ b ∈ queued, ¬ b.Traces) (hself : a.account = e.self → a.Traces → e.self ∈ a.actors)
  | transfer {u w : Name} {q : Asset} {memo : Memo} (hacc : a.account = e.self)
      (hcall : a.call = .transfer u w q memo) (hsym : q.symbol = sym) (h : ∀ k, f' k = moved (f k) u w (q.of k))
      (hnote : ∀ b ∈ queued, ¬ b.Traces)
  | swapped {code : SysCall} {account : Name} {q : Asset} {rest : List Action} (hacc : a.account = e.self)
      (hcall : a.call = .sys code) (hsym : q.symbol = sym) (h : ∀ k, f' k = moved (f k) account e.self (q.of k))
      (hqueued : queued = ⟨e.self, System.active e.self, .swaptrace account q⟩ :: rest)
      (hrest : ∀ b ∈ rest, ¬ b.Traces)

theorem XyzStep.elsewhere {sym : Symbol} {a : Action} {f : SymbolCode → Name → Int} {queued : List Action}
    (hacc : a.account ≠ e.self) (hnote : ∀ b ∈ queued, ¬ b.Traces) : e.XyzStep sym a f f queued :=
  .still (fun h => absurd h hacc) rfl hnote fun h => absurd h hacc

theorem exec_xyz_step {s s' : State σ} {a : Action} {queued : List Action} {m : Asset}
    (hm : System.Minted e.self m s.system) (h : e.exec s a = .ok (s', queued)) :
    e.XyzStep m.symbol a s.xyz s'.xyz queued := by
  have hbook : ∀ t : State σ, t.xyz = fun k => (book t.system.accounts).amount k := fun t => by
    funext k u
    exact t.xyz_eq k u
  simp only [hbook]
  cases exec_effect h with
  | @system o hacc heffect =>
    obtain ⟨account, authorization, call⟩ := a
    simp only at hacc heffect
    subst hacc
    have hflow := heffect.flow
    generalize o.inline = inline at hflow
    cases hflow with
    | minted => exact absurd heffect (hm.no_init _)
    | transferred _ _ hst hsym _ hmoved =>
      refine .transfer rfl rfl (by rw [hsym, hm.stat_eq hst]) hmoved fun b hb => ?_
      split at hb
      · rw [List.mem_singleton.1 hb]
        exact System.not_traces_transfer _ _ _ _ _ _
      · cases hb
    | swapped _ hcfg _ hmoved hrest =>
      refine .swapped rfl rfl (hm.config_eq hcfg) hmoved rfl fun b hb => ?_
      rcases List.mem_cons.1 hb with rfl | hb
      · exact System.not_traces_transfer _ _ _ _ _ _
      · exact hrest b hb
    | still _ hcall hsame hrest =>
      refine .still (fun _ => hcall) (funext hsame) hrest ?_
      rintro - ⟨n, q, htrace⟩
      simp only at htrace
      subst htrace
      cases heffect with
      | traced hself => exact mem_actors hself
      | idle hidle => cases hidle
  | token hacc => exact .elsewhere (fun hself => e.self_ne_token (hself.symm.trans hacc)) (by simp)
  | swap_in hacc =>
    refine .elsewhere (fun hself => e.self_ne_token (hself.symm.trans hacc)) ?_
    simp [System.not_traces_transfer]
  | eosio hacc => exact .elsewhere (fun hself => e.self_ne_eosio (hself.symm.trans hacc)) (by simp)
  | nobody hself => exact .elsewhere hself (by simp)

theorem sum_due_none {n : Name} {l : List Action} (h : ∀ b ∈ l, ¬ b.Traces) : (l.map (e.due n)).sum = 0 :=
  Machine.sum_map_eq_zero fun b hb => due_none (swap_note_none (h b hb))

/-- The balances change as the executed action says, and as the notes that it queues will say. -/
theorem xyz_change {s s' : State σ} {a : Action} {queued : List Action} {m : Asset}
    (hm : System.Minted e.self m s.system) (h : e.exec s a = .ok (s', queued)) (n : Name) :
    s'.xyz m.symbol.code n + e.due n a =
      s.xyz m.symbol.code n + e.change n a + (queued.map (e.due n)).sum := by
  have hof : ∀ q : Asset, q.symbol = m.symbol → q.of m.symbol.code = q.val := fun q hq => by
    rw [← hq, Asset.of_self]
  cases exec_xyz_step hm h with
  | still hcall hsame hnote hself =>
    rw [hsame, change_none (xyz_transfer_none hcall), sum_due_none hnote, add_zero]
    by_cases hs : e.self ∈ a.actors
    · rw [due, if_pos hs]
    · have hnone : e.swap_note a = none := by
        unfold swap_note
        split
        · exact if_neg fun hacc => hs (hself hacc ⟨_, _, ‹_›⟩)
        · rfl
      rw [due_none hnone, note_change_none hnone]
  | @transfer u w q memo hacc hcall hsym hmoved hnote =>
    have ht : e.xyz_transfer a = some (u, w, q) := by
      unfold xyz_transfer
      rw [hcall]
      exact if_pos hacc
    have hnone : e.swap_note a = none := swap_note_none fun ⟨_, _, hc⟩ => by rw [hcall] at hc; cases hc
    rw [hmoved, hof q hsym, moved_apply, sum_due_none hnote, due_none hnone, change, note_change_none hnone]
    simp only [incoming, outgoing, ht, eq_comm (b := n)]
    omega
  | @swapped code account q rest hacc hcall hsym hmoved hqueued hrest =>
    have hnone : e.swap_note a = none := swap_note_none fun ⟨_, _, hc⟩ => by rw [hcall] at hc; cases hc
    have htransfer : e.xyz_transfer a = none :=
      xyz_transfer_none fun _ u w q memo hc => by rw [hcall] at hc; cases hc
    have hnote : e.swap_note ⟨e.self, System.active e.self, .swaptrace account q⟩ = some (account, q) :=
      if_pos rfl
    have hdue : e.due n ⟨e.self, System.active e.self, .swaptrace account q⟩ =
        -(if account = n then q.val else 0) + if n = e.self then q.val else 0 := by
      rw [due, if_pos (by exact List.mem_singleton_self _)]
      simp only [note_change, traced, traced_any, hnote]
    rw [hmoved, hof q hsym, moved_apply, hqueued, List.map_cons, List.sum_cons, sum_due_none hrest, hdue,
      due_none hnone, change_none htransfer, note_change_none hnone]
    simp only [eq_comm (b := n)]
    omega

/-! ## Any run -/

theorem total_cons (f : Action → Int) (q : Queued) (l : List Queued) :
    total f (q :: l) = f q.act + total f l := rfl

theorem total_queue (f : Action → Int) (q : Queued) (queued : List Action) (rest : List Queued) :
    total f (queued.map q.child ++ rest) = (queued.map f).sum + total f rest :=
  Machine.sum_queue _ _ _ _

theorem total_change (n : Name) (trace : List Queued) :
    total (e.change n) trace = total (e.incoming n) trace - total (e.outgoing n) trace -
      total (e.traced n) trace + if n = e.self then total e.traced_any trace else 0 := by
  induction trace with
  | nil => simp [total]
  | cons q l ih =>
    simp only [total_cons, ih, change, note_change]
    split <;> omega

variable {m : Asset} {s₀ : State σ}

/-- In the middle of a transaction the notes in the queue are still to come. -/
theorem xyz_total {c : Config σ} (hinit : e.Initialised m s₀) (h : e.After s₀ c) (n : Name) :
    c.state.xyz m.symbol.code n =
      s₀.xyz m.symbol.code n + total (e.change n) c.trace + total (e.due n) c.pending := by
  suffices hinv : System.Minted e.self m c.state.system ∧ c.state.xyz m.symbol.code n =
      s₀.xyz m.symbol.code n + total (e.change n) c.trace + total (e.due n) c.pending from hinv.2
  refine h.invariant (fun c => System.Minted e.self m c.state.system ∧ c.state.xyz m.symbol.code n =
      s₀.xyz m.symbol.code n + total (e.change n) c.trace + total (e.due n) c.pending) ?_ ?_ ?_
  · rintro s rfl
    exact ⟨hinit.minted, by simp [total]⟩
  · rintro s trace acts ⟨hm, hs⟩ hforeign
    have hdue : total (e.due n) (acts.map Machine.Queued.top) = 0 :=
      (Machine.sum_top _ _).trans (Machine.sum_map_eq_zero fun a ha => if_neg (hforeign a ha))
    exact ⟨hm, by rw [hdue]; exact hs⟩
  · rintro s s' q rest trace queued ⟨hm, hs⟩ hexec
    refine ⟨minted_exec hexec hm, ?_⟩
    have hchange := xyz_change hm hexec n
    simp only [total_cons, total_queue] at *
    omega

/-! ## The notes -/

theorem swap_note_eq_some {a : Action} {n : Name} {v : Asset} :
    e.swap_note a = some (n, v) ↔ a.account = e.self ∧ a.call = .swaptrace n v := by
  unfold swap_note
  constructor
  · intro h
    split at h
    · rename_i account quantity hcall
      split at h
      · cases h; exact ⟨‹_›, hcall⟩
      · cases h
    · cases h
  · rintro ⟨hacc, hcall⟩
    rw [hcall]
    exact if_pos hacc

theorem note_own {s s' : State σ} {a : Action} {queued : List Action} {n : Name} {v : Asset}
    (ha : e.Signed e.Other a) (h : e.exec s a = .ok (s', queued)) (hnote : e.swap_note a = some (n, v)) :
    e.self ∈ a.actors ∧ n ≠ e.self := by
  -- Nobody but the contract can record a note, and it has nothing to note about itself.
  obtain ⟨account, authorization, call⟩ := a
  obtain ⟨rfl, rfl⟩ := swap_note_eq_some.1 hnote
  obtain ⟨o, heffect, -, -⟩ := exec_system rfl h
  have hself : e.self ∈ (Action.mk e.self authorization (.swaptrace n v)).actors := by
    cases heffect with
    | traced hself => exact mem_actors hself
    | idle hidle => cases hidle
  exact ⟨hself, (ha.own hself).notes rfl⟩

theorem executed_notes {c : Config σ} (h : e.After s₀ c) :
    ∀ q ∈ c.trace, ∀ n v, e.swap_note q.act = some (n, v) → e.self ∈ q.act.actors ∧ n ≠ e.self := by
  suffices hinv : (∀ q ∈ c.pending, e.Signed e.Other q.act) ∧
      ∀ q ∈ c.trace, ∀ n v, e.swap_note q.act = some (n, v) → e.self ∈ q.act.actors ∧ n ≠ e.self from hinv.2
  refine h.invariant (fun c => (∀ q ∈ c.pending, e.Signed e.Other q.act) ∧
      ∀ q ∈ c.trace, ∀ n v, e.swap_note q.act = some (n, v) → e.self ∈ q.act.actors ∧ n ≠ e.self) ?_ ?_ ?_
  · simp
  · exact fun s trace acts hinv hforeign => ⟨signed_begin hforeign, hinv.2⟩
  · rintro s s' q rest trace queued ⟨hsigned, hnotes⟩ hexec
    refine ⟨signed_queue not_other_self hsigned hexec, fun p hp n v hnote => ?_⟩
    rcases List.mem_cons.1 hp with rfl | hp
    · exact note_own (hsigned p (List.mem_cons_self ..)) hexec hnote
    · exact hnotes p hp n v hnote

theorem total_traced_self {c : Config σ} (h : e.After s₀ c) : total (e.traced e.self) c.trace = 0 := by
  refine Machine.sum_map_eq_zero fun q hq => ?_
  simp only [traced]
  split
  · rename_i account v hnote
    exact if_neg (executed_notes h q hq account v hnote).2
  · rfl

/-- `q` was queued when its quantity was taken from its account for the contract. -/
def Taken (e : Env σ) (s₀ : State σ) (q : Queued) (account : Name) (quantity : Asset) (c : Config σ) : Prop :=
  Machine.Since e.exec (· = s₀) e.Foreign
    (fun c c' => q ∉ c.pending ∧ q ∈ c'.pending ∧
      ∀ k, c'.state.xyz k = moved (c.state.xyz k) account e.self (quantity.of k))
    (fun c => q ∈ c.pending ∨ q ∈ c.trace) c

theorem taken {c : Config σ} (hinit : e.Initialised m s₀) (h : e.After s₀ c) {q : Queued} (hq : q ∈ c.trace)
    {n : Name} {v : Asset} (hnote : e.swap_note q.act = some (n, v)) : e.Taken s₀ q n v c := by
  obtain ⟨hself, -⟩ := executed_notes h q hq n v hnote
  obtain ⟨-, hcall⟩ := swap_note_eq_some.1 hnote
  refine h.since ?_ ?_ ?_ (.inr hq)
  · simp
  · rintro s trace acts hforeign (hmem | hmem)
    · obtain ⟨a, ha, rfl⟩ := List.mem_map.1 hmem
      exact absurd hself (hforeign a ha)
    · exact .inr hmem
  · rintro c c' hc hstep hmem
    by_cases hold : q ∈ c.pending ∨ q ∈ c.trace
    · exact .inl hold
    cases hstep with
    | @run s s' p rest trace queued hexec =>
      simp only [List.mem_cons, not_or] at hold
      obtain ⟨⟨hp, hrest⟩, htrace⟩ := hold
      simp only [List.mem_append, List.mem_cons] at hmem
      obtain ⟨b, hb, rfl⟩ := List.mem_map.1 ((hmem.resolve_right (by simp [hp, htrace])).resolve_right hrest)
      have htraces : b.Traces := ⟨n, v, hcall⟩
      have hpending : p.child b ∈ queued.map p.child ++ rest := List.mem_append_left _ (List.mem_map_of_mem hb)
      have hnew : p.child b ∉ p :: rest := by simp [hp, hrest]
      cases exec_xyz_step (after_minted hinit hc) hexec with
      | still _ _ hnone => exact absurd htraces (hnone b hb)
      | transfer _ _ _ _ hnone => exact absurd htraces (hnone b hb)
      | swapped _ _ _ hmoved hqueued hnone =>
        rw [hqueued] at hb
        rcases List.mem_cons.1 hb with rfl | hb
        · cases hcall
          exact .inr ⟨hnew, hpending, hmoved⟩
        · exact absurd htraces (hnone b hb)

/-- **Balances are in the trace.** Between transactions, an account has the XYZ that were
transferred to it, less those that it transferred and those that a note says were
swapped. The contract has what `init` issued and all that was swapped as well. No action
changes a balance but a transfer, and a swap that queues its one note. Every note that
was recorded is such a note. -/
theorem balances_from_trace {c : Config σ} (hinit : e.Initialised m s₀) (h : e.After s₀ c) :
    (c.pending = [] → ∀ n, n ≠ e.self → c.state.xyz m.symbol.code n =
      total (e.incoming n) c.trace - total (e.outgoing n) c.trace - total (e.traced n) c.trace) ∧
    (c.pending = [] → c.state.xyz m.symbol.code e.self =
      m.val + total (e.incoming e.self) c.trace - total (e.outgoing e.self) c.trace + total e.traced_any c.trace) ∧
    (∀ c', e.Step c c' → ∃ q rest queued, c.pending = q :: rest ∧ c'.pending = queued.map q.child ++ rest ∧
      c'.trace = q :: c.trace ∧ e.XyzStep m.symbol q.act c.state.xyz c'.state.xyz queued) ∧
    ∀ q ∈ c.trace, ∀ n v, e.swap_note q.act = some (n, v) → e.Taken s₀ q n v c := by
  have htotal : c.pending = [] → ∀ n, c.state.xyz m.symbol.code n =
      (if n = e.self then m.val else 0) + total (e.change n) c.trace := fun hdone n => by
    rw [xyz_total hinit h n, hinit.xyz, hdone]
    simp [total]
  refine ⟨?_, ?_, ?_, ?_⟩
  · intro hdone n hn
    rw [htotal hdone, total_change, if_neg hn, if_neg hn]
    omega
  · intro hdone
    rw [htotal hdone, total_change, if_pos rfl, if_pos rfl, total_traced_self h]
    omega
  · intro c' hstep
    cases hstep with
    | run hexec => exact ⟨_, _, _, rfl, rfl, rfl, exec_xyz_step (after_minted hinit h) hexec⟩
  · exact fun q hq n v hnote => taken hinit h hq hnote

theorem balances_from_trace_alice : ∃ s trace, Tiny.env.After Tiny.start ⟨s, [], trace⟩ ∧
    s.xyz Tiny.XYZ.code Tiny.alice = 60 ∧ total (Tiny.env.incoming Tiny.alice) trace -
      total (Tiny.env.outgoing Tiny.alice) trace - total (Tiny.env.traced Tiny.alice) trace = 60 := by
  have hcommits : Tiny.env.Commits Tiny.start [Tiny.swap, Tiny.spend] (Tiny.run Tiny.start [Tiny.swap, Tiny.spend]) :=
    @Machine.commits_of_transact _ _ _ _ 20 _ _ _ rfl
  have hforeign : Tiny.env.Foreign [Tiny.swap, Tiny.spend] := by
    intro a ha
    simp only [List.mem_cons, List.not_mem_nil, or_false] at ha
    rcases ha with rfl | rfl <;> decide
  have hstart : Tiny.env.After Tiny.start ⟨Tiny.start, [], []⟩ := .start rfl
  obtain ⟨trace, hafter⟩ := hstart.commit hforeign hcommits
  have hsixty : (Tiny.run Tiny.start [Tiny.swap, Tiny.spend]).xyz Tiny.XYZ.code Tiny.alice = 60 := rfl
  obtain ⟨hbalance, -⟩ := balances_from_trace Tiny.initialised hafter
  exact ⟨_, trace, hafter, hsixty, (hbalance rfl Tiny.alice (by decide)).symm.trans hsixty⟩

end Vaulta.Env
