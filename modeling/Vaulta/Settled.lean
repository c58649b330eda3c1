import Vaulta.Exchange
import Vaulta.Interleaving

/-!
# The exchange behind the contract

Count every payout in the queue as paid already. Then whatever happens, at any point of a
run, is nothing at all or one operation of the plain exchange: of a signer, or of `eosio`.
-/

namespace Vaulta.Env

open Exchange

variable {σ : Type} (e : Env σ)

/-- What the action will pay of ticker `k` out of the contract's own tokens at `code`. -/
def pays (code : Name) (k : SymbolCode) (a : Action) : Name → Int :=
  match a.call with
  | .transfer sender w q _ =>
    if e.self ∈ a.actors ∧ sender = e.self ∧ a.account = code then moved (fun _ => 0) e.self w (q.of k)
    else fun _ => 0
  | _ => fun _ => 0

def dues (m : Asset) (acts : List Action) : Balances Name :=
  ⟨fun u => (acts.map fun a => e.pays Name.eosio_token Symbol.EOS.code a u).sum,
   fun u => (acts.map fun a => e.pays e.self m.symbol.code a u).sum⟩

def balances (m : Asset) (s : State σ) : Balances Name := ⟨s.eos, s.xyz m.symbol.code⟩

/-- The balances, with all that is queued paid out. -/
def settled (m : Asset) (c : Config σ) : Balances Name := balances m c.state + e.dues m (c.pending.map (·.act))

/-- Which operations an action can come to. Only a signer spends, only a token contract
moves anything for him, and all else that happens to coins is up to `eosio`. -/
def Orders (a : Action) : Op Name → Prop
  | .pay u _ _ | .deposit u _ | .donate u _ | .issue u _ | .retire u _ =>
    a.account = Name.eosio_token ∧ u ∈ a.actors
  | .send u _ _ | .redeem u _ => a.account = e.self ∧ u ∈ a.actors
  | .elsewhere _ => a.account = Name.eosio

/-- What a trace comes to: at most one operation for each action. -/
inductive Comes : List Queued → List (Op Name) → Prop
  | nil : Comes [] []
  | idle {q : Queued} {trace : List Queued} {ops : List (Op Name)} (h : Comes trace ops) : Comes (q :: trace) ops
  | order {q : Queued} {trace : List Queued} {ops : List (Op Name)} {op : Op Name} (h : Comes trace ops)
      (hop : e.Orders q.act op) : Comes (q :: trace) (ops ++ [op])

variable {e} {m : Asset} {s s' s₀ : State σ} {a : Action} {c : Config σ}

/-! ## What is queued -/

theorem pays_eq_zero {code : Name} {k : SymbolCode} (h : ∀ w q memo, a.call ≠ .transfer e.self w q memo) :
    e.pays code k a = fun _ => 0 := by
  unfold pays
  split
  · rename_i sender w q memo hcall
    refine if_neg ?_
    rintro ⟨-, rfl, -⟩
    exact h w q memo hcall
  · rfl

theorem pays_unsigned {code : Name} {k : SymbolCode} (h : e.self ∉ a.actors) : e.pays code k a = fun _ => 0 := by
  unfold pays
  split
  · exact if_neg fun hc => h hc.1
  · rfl

theorem pays_elsewhere {code : Name} {k : SymbolCode} (h : a.account ≠ code) : e.pays code k a = fun _ => 0 := by
  unfold pays
  split
  · exact if_neg fun hc => h hc.2.2
  · rfl

theorem pays_own {code w : Name} {k : SymbolCode} {q : Asset} {memo : Memo} :
    e.pays code k ⟨code, System.active e.self, .transfer e.self w q memo⟩ = moved (fun _ => 0) e.self w (q.of k) :=
  if_pos ⟨List.mem_singleton_self _, rfl, rfl⟩

theorem add_zero_balances (b : Balances Name) : b + ⟨fun _ => 0, fun _ => 0⟩ = b :=
  Balances.ext (funext fun _ => add_zero _) (funext fun _ => add_zero _)

theorem add_assoc_balances (b d d' : Balances Name) : b + d + d' = b + (d + d') :=
  Balances.ext (funext fun _ => add_assoc _ _ _) (funext fun _ => add_assoc _ _ _)

theorem dues_append (acts acts' : List Action) : e.dues m (acts ++ acts') = e.dues m acts + e.dues m acts' := by
  refine Balances.ext (funext fun u => ?_) (funext fun u => ?_)
  · exact (congrArg List.sum (List.map_append ..)).trans List.sum_append
  · exact (congrArg List.sum (List.map_append ..)).trans List.sum_append

theorem dues_nil : e.dues m [] = ⟨fun _ => 0, fun _ => 0⟩ := rfl

theorem dues_eq_zero {acts : List Action} (h : ∀ b ∈ acts, ∀ w q memo, b.call ≠ .transfer e.self w q memo) :
    e.dues m acts = ⟨fun _ => 0, fun _ => 0⟩ := by
  have hzero : ∀ code k u, (acts.map fun b => e.pays code k b u).sum = 0 := fun code k u =>
    Machine.sum_map_eq_zero fun b hb => congrFun (pays_eq_zero (h b hb)) u
  exact Balances.ext (funext fun _ => hzero _ _ _) (funext fun _ => hzero _ _ _)

theorem dues_single :
    e.dues m [a] = ⟨e.pays Name.eosio_token Symbol.EOS.code a, e.pays e.self m.symbol.code a⟩ := by
  refine Balances.ext (funext fun u => ?_) (funext fun u => ?_) <;>
    simp only [dues, List.map_cons, List.map_nil, List.sum_cons, List.sum_nil, add_zero]

theorem dues_no_transfer (h : ∀ u w q memo, a.call ≠ .transfer u w q memo) :
    e.dues m [a] = ⟨fun _ => 0, fun _ => 0⟩ := by
  rw [dues_single, pays_eq_zero (h e.self), pays_eq_zero (h e.self)]

theorem dues_unsigned (h : e.self ∉ a.actors) : e.dues m [a] = ⟨fun _ => 0, fun _ => 0⟩ := by
  rw [dues_single, pays_unsigned h, pays_unsigned h]

theorem dues_eos {w : Name} {q : Asset} {memo : Memo} (hq : q.symbol.code = Symbol.EOS.code) :
    e.dues m [⟨Name.eosio_token, System.active e.self, .transfer e.self w q memo⟩] =
      ⟨moved (fun _ => 0) e.self w q.val, fun _ => 0⟩ := by
  have hval : q.of Symbol.EOS.code = q.val := if_pos hq.symm
  have helse : (⟨Name.eosio_token, System.active e.self, .transfer e.self w q memo⟩ : Action).account ≠ e.self :=
    Ne.symm e.self_ne_token
  rw [dues_single, pays_own, hval, pays_elsewhere helse]

theorem dues_xyz {w : Name} {q : Asset} {memo : Memo} (hq : q.symbol.code = m.symbol.code) :
    e.dues m [⟨e.self, System.active e.self, .transfer e.self w q memo⟩] =
      ⟨fun _ => 0, moved (fun _ => 0) e.self w q.val⟩ := by
  have hval : q.of m.symbol.code = q.val := if_pos hq.symm
  have helse : (⟨e.self, System.active e.self, .transfer e.self w q memo⟩ : Action).account ≠ Name.eosio_token :=
    e.self_ne_token
  rw [dues_single, pays_elsewhere helse, pays_own, hval]

theorem dues_nonneg {acts : List Action} (h : ∀ b ∈ acts, e.Signed e.Other b) {u : Name} (hu : u ≠ e.self) :
    0 ≤ (e.dues m acts).coin u ∧ 0 ≤ (e.dues m acts).token u := by
  have hpays : ∀ code k, ∀ b ∈ acts, 0 ≤ e.pays code k b u := by
    intro code k b hb
    by_cases hs : e.self ∈ b.actors
    · have hmoved : ∀ (w : Name) (q : Asset), 0 < q.val → 0 ≤ moved (fun _ => 0) e.self w (q.of k) u := fun w q hpos =>
        le_moved hu (Asset.of_nonneg (le_of_lt hpos) k)
      cases (h b hb).own hs with
      | pay_xyz _ hpos | pay_eos _ hpos =>
        unfold pays
        simp only
        split
        · exact hmoved _ _ hpos
        · exact le_refl 0
      | trace | excess => exact le_refl 0
    · rw [pays_unsigned hs]
  have hsum : ∀ code k, 0 ≤ (acts.map fun b => e.pays code k b u).sum := fun code k =>
    List.sum_nonneg fun x hx => by
      obtain ⟨b, hb, rfl⟩ := List.mem_map.1 hx
      exact hpays code k b hb
  exact ⟨hsum _ _, hsum _ _⟩

/-! ## One action -/

variable (e) in
/-- Nothing has happened, or one operation that the action can come to. -/
def Ordered (a : Action) (b b' : Balances Name) : Prop :=
  b' = b ∨ ∃ op, Exchange.Step e.self System.Exempt op b b' ∧ e.Orders a op

theorem Ordered.add {b b' d : Balances Name} (h : e.Ordered a b b') (hcoin : ∀ u, u ≠ e.self → 0 ≤ d.coin u)
    (htoken : ∀ u, u ≠ e.self → 0 ≤ d.token u) : e.Ordered a (b + d) (b' + d) := by
  rcases h with rfl | ⟨op, hstep, hop⟩
  · exact .inl rfl
  · exact .inr ⟨op, hstep.add hcoin htoken, hop⟩

theorem Signed.unsigned (ha : e.Signed e.Other a) {u w : Name} {q : Asset} {memo : Memo}
    (hcall : a.call = .transfer u w q memo) (hu : u ≠ e.self) : e.self ∉ a.actors := by
  intro hself
  cases ha.own hself with
  | pay_xyz | pay_eos => cases hcall; exact hu rfl
  | trace | excess => cases hcall

theorem Own.pays_xyz {A : Name → Prop} (h : e.Own A a) (hacc : a.account = e.self) {u w : Name} {q : Asset}
    {memo : Memo} (hcall : a.call = .transfer u w q memo) :
    A w ∧ a = ⟨e.self, System.active e.self, .transfer e.self w q memo⟩ := by
  cases h with
  | pay_xyz hx => cases hcall; exact ⟨hx, rfl⟩
  | pay_eos => exact absurd hacc.symm e.self_ne_token
  | trace | excess => cases hcall

theorem Own.pays_eos {A : Name → Prop} (h : e.Own A a) (hacc : a.account = Name.eosio_token) {u w : Name} {q : Asset}
    {memo : Memo} (hcall : a.call = .transfer u w q memo) :
    A w ∧ q.symbol = Symbol.EOS ∧ a = ⟨Name.eosio_token, System.active e.self, .transfer e.self w q memo⟩ := by
  cases h with
  | pay_xyz => exact absurd hacc e.self_ne_token
  | pay_eos hx _ hq => cases hcall; exact ⟨hx, hq, rfl⟩
  | trace | excess => cases hcall

theorem spent_xyz {c : Ctx} {u w p : Name} {q : Asset} {accounts : System.Accounts}
    (hmove : System.Moved c s.system.accounts accounts u w q p) (hq : q.symbol = m.symbol) (hpos : 0 < q.val)
    (hsmall : q.val ≤ 2 ^ 62 - 1) : q.val ≤ s.xyz m.symbol.code u ∧
      State.xyz ⟨{ s.system with accounts }, s.token, s.eosio⟩ m.symbol.code =
        moved (s.xyz m.symbol.code) u w q.val := by
  have hof : q.of m.symbol.code = q.val := by rw [← hq, Asset.of_self]
  have hbefore : s.xyz m.symbol.code = (book s.system.accounts).amount m.symbol.code := funext fun v => State.xyz_eq ..
  have hafter : State.xyz ⟨{ s.system with accounts }, s.token, s.eosio⟩ m.symbol.code =
      (book accounts).amount m.symbol.code := funext fun v => State.xyz_eq ..
  rw [hbefore, hafter]
  refine ⟨hq ▸ Book.move_le hpos hmove.book, ?_⟩
  rw [hmove.amount hpos hsmall, hof]

theorem ordered_redeem {l : List PermissionLevel} {u : Name} {q : Asset} {accounts : System.Accounts}
    {rest : List Action} (hu : u ≠ e.self) (hacc : a.account = e.self) (hmem : u ∈ a.actors) (hpos : 0 < q.val)
    (hle : q.val ≤ s.xyz m.symbol.code u)
    (hmove : State.xyz ⟨{ s.system with accounts }, s.token, s.eosio⟩ m.symbol.code =
      moved (s.xyz m.symbol.code) u e.self q.val)
    (hrest : ∀ b ∈ rest, ∀ w q memo, b.call ≠ .transfer e.self w q memo) :
    e.Ordered a (balances m s) (balances m ⟨{ s.system with accounts }, s.token, s.eosio⟩ +
      e.dues m (System.credit_action (e.view s l).toCtx u q :: rest)) := by
  have hdues : e.dues m (System.credit_action (e.view s l).toCtx u q :: rest) =
      ⟨moved (fun _ => 0) e.self u q.val, fun _ => 0⟩ := by
    rw [← List.singleton_append, dues_append, dues_eq_zero hrest, add_zero_balances]
    exact dues_eos rfl
  have hafter : balances m ⟨{ s.system with accounts }, s.token, s.eosio⟩ +
      e.dues m (System.credit_action (e.view s l).toCtx u q :: rest) =
      ⟨moved (balances m s).coin e.self u q.val, moved (balances m s).token u e.self q.val⟩ := by
    rw [hdues]
    refine Balances.ext (funext fun v => ?_) (funext fun v => ?_)
    · exact (moved_from_zero _ _ _ _ _).symm
    · exact (add_zero _).trans (congrFun hmove v)
  rw [hafter]
  exact .inr ⟨_, .redeem hu hpos hle, hacc, hmem⟩

theorem ordered_system {o : Outcome System.Tables} (hm : System.Minted e.self m s.system)
    (ha : e.Signed e.Other a) (hacc : a.account = e.self)
    (h : System.Effect (e.view s a.authorization) s.system a.call o) :
    e.Ordered a (balances m s + e.dues m [a]) (balances m { s with system := o.tables } + e.dues m o.inline) := by
  obtain ⟨account, authorization, call⟩ := a
  simp only at hacc h
  subst hacc
  have hsame : ∀ {t : System.Tables}, (∀ k, (book t.accounts).amount k = (book s.system.accounts).amount k) →
      balances m { s with system := t } = balances m s := by
    intro t hbook
    refine Balances.ext rfl (funext fun v => ?_)
    simp only [balances, State.xyz_eq]
    exact congrFun (hbook m.symbol.code) v
  -- What is no transfer pays nothing, and moves nothing either unless it swaps.
  have hidle : (∀ u w q memo, call ≠ .transfer u w q memo) →
      (∀ k, (book o.tables.accounts).amount k = (book s.system.accounts).amount k) →
      (∀ b ∈ o.inline, ∀ w q memo, b.call ≠ .transfer e.self w q memo) →
      e.Ordered ⟨e.self, authorization, call⟩ (balances m s + e.dues m [⟨e.self, authorization, call⟩])
        (balances m { s with system := o.tables } + e.dues m o.inline) := by
    intro hcall hbook hinline
    rw [dues_no_transfer hcall, dues_eq_zero hinline, hsame hbook]
    exact .inl rfl
  have hsend : ∀ {code x : Name} {w w' : Name} {q q' : Asset} {memo memo' : Memo}, x ≠ e.self →
      (System.transfer_action code x x w q memo).call ≠ .transfer e.self w' q' memo' := by
    intro code x w w' q q' memo memo' hx hcall
    cases hcall
    exact hx rfl
  have hfollow : ∀ {x : Name} {rest : List Action}, x ≠ e.self →
      (∀ b ∈ rest, System.Follow (e.view s authorization).toCtx x b) →
      ∀ b ∈ rest, ∀ w q memo, b.call ≠ .transfer e.self w q memo := by
    intro x rest hx hrest b hb w q memo hcall
    cases hrest b hb <;> cases hcall
    exact hx rfl
  cases h with
  | init hself hnew hvalid hpos hconfig hstat hadd =>
    exact absurd (.init hself hnew hvalid hpos hconfig hstat hadd) (System.Minted.no_init hm _)
  | @transfer u w q memo st accounts hne hauth _ hst hvalid hpos hsym _ hmove =>
    have hr := ((Asset.is_valid_iff _).1 hvalid).1
    have hq : q.symbol = m.symbol := by rw [hsym, hm.stat_eq hst]
    obtain ⟨hle, hxyz⟩ := spent_xyz hmove hq hpos hr.2
    have hmem := mem_actors hauth
    by_cases hu : u = e.self
    · -- A payout that was counted already.
      subst hu
      obtain ⟨hw, heq⟩ := (ha.own hmem).pays_xyz rfl rfl
      have hqueue : (if w = (e.view s authorization).self then
          [System.credit_action (e.view s authorization).toCtx e.self q] else []) = [] := if_neg hw
      rw [heq, dues_xyz (congrArg Symbol.code hq), hqueue, dues_nil, add_zero_balances]
      refine .inl (Balances.ext (funext fun v => ?_) (funext fun v => ?_))
      · exact (add_zero _).symm
      · exact (congrFun hxyz v).trans (moved_from_zero _ _ _ _ _)
    · rw [dues_unsigned (ha.unsigned rfl hu), add_zero_balances]
      by_cases hw : w = e.self
      · subst hw
        have hqueue : (if e.self = (e.view s authorization).self then
            [System.credit_action (e.view s authorization).toCtx u q] else []) =
            [System.credit_action (e.view s authorization).toCtx u q] := if_pos rfl
        rw [hqueue]
        exact ordered_redeem hu rfl hmem hpos hle hxyz (by simp)
      · have hqueue : (if w = (e.view s authorization).self then
            [System.credit_action (e.view s authorization).toCtx u q] else []) = [] := if_neg hw
        rw [hqueue, dues_nil, add_zero_balances]
        have hafter : balances m ⟨{ s.system with accounts }, s.token, s.eosio⟩ =
            ⟨(balances m s).coin, moved (balances m s).token u w q.val⟩ := Balances.ext rfl hxyz
        rw [hafter]
        exact .inr ⟨_, .send hu hw hpos hle, rfl, hmem⟩
  | opened _ _ _ _ hadd => exact hidle (by simp) (amount_of_emplace hadd rfl) (by simp)
  | closed _ hrow hzero herase => exact hidle (by simp) (amount_of_erase herase hrow hzero) (by simp)
  | blocked => exact hidle (by simp) (fun _ => rfl) (by simp)
  | swapto_eos hauth =>
    have hx := ha.signer (mem_actors hauth) rfl
    refine hidle (by simp) (fun _ => rfl) ?_
    simp only [List.mem_cons, List.not_mem_nil, or_false, forall_eq_or_imp, forall_eq]
    exact ⟨fun _ _ _ => hsend hx, fun _ _ _ => hsend hx⟩
  | swapto_xyz hauth =>
    have hx := ha.signer (mem_actors hauth) rfl
    refine hidle (by simp) (fun _ => rfl) ?_
    simp only [List.mem_cons, List.not_mem_nil, or_false, forall_eq_or_imp, forall_eq]
    exact ⟨fun _ _ _ => hsend hx, fun _ _ _ => hsend hx⟩
  | excess hself =>
    have hx := (ha.own (mem_actors hself)).serves rfl
    refine hidle (by simp) (fun _ => rfl) ?_
    simp only [List.mem_singleton, forall_eq]
    exact fun _ _ _ => hsend hx
  | traced => exact hidle (by simp) (fun _ => rfl) (by simp)
  | idle hcall =>
    refine hidle ?_ (fun _ => rfl) (by simp)
    rintro u w q memo rfl
    cases hcall
  | @swapped call account q accounts rest hauth hswap hrest =>
    have hx := ha.signer (mem_actors hauth) rfl
    have hq : q.symbol = m.symbol := System.Minted.config_eq hm hswap.symbol
    obtain ⟨hle, hxyz⟩ := spent_xyz hswap.moved hq hswap.pos hswap.small
    have htrace : e.dues m (System.swaptrace_action (e.view s authorization).toCtx account q ::
        System.credit_action (e.view s authorization).toCtx account q :: rest) =
        e.dues m (System.credit_action (e.view s authorization).toCtx account q :: rest) := by
      have hzero : e.dues m [System.swaptrace_action (e.view s authorization).toCtx account q] =
          ⟨fun _ => 0, fun _ => 0⟩ := dues_no_transfer (by simp [System.swaptrace_action])
      rw [← List.singleton_append, dues_append, hzero]
      exact Balances.ext (funext fun _ => zero_add _) (funext fun _ => zero_add _)
    rw [dues_no_transfer (by simp), add_zero_balances, htrace]
    exact ordered_redeem hx rfl (mem_actors hauth) hswap.pos hle hxyz (hfollow hx hrest)
  | passed hauth hrest =>
    have hx := ha.signer (mem_actors hauth) rfl
    exact hidle (by simp) (fun _ => rfl) (hfollow hx hrest)

theorem ordered_elsewhere (hacc : a.account = Name.eosio) (heos : s'.eos e.self = s.eos e.self)
    (hnonneg : ∀ u, 0 ≤ s'.eos u) (hxyz : s'.xyz m.symbol.code = s.xyz m.symbol.code) :
    e.Ordered a (balances m s) (balances m s') := by
  have hafter : balances m s' =
      ⟨fun u => (balances m s).coin u + (s'.eos u - s.eos u), (balances m s).token⟩ := by
    refine Balances.ext (funext fun u => ?_) hxyz
    change s'.eos u = s.eos u + (s'.eos u - s.eos u)
    omega
  rw [hafter]
  refine .inr ⟨_, .elsewhere ?_ fun u _ => ?_, hacc⟩
  · omega
  · have hu := hnonneg u
    change 0 ≤ s.eos u + (s'.eos u - s.eos u)
    omega

theorem spent_eos {u w p : Name} {q : Asset} {accounts : Token.Accounts}
    (hmove : Token.Moved s.token.accounts accounts u w q p) (hpos : 0 < q.val) (hsmall : q.val ≤ 2 ^ 62 - 1) :
    State.eos ⟨s.system, { s.token with accounts }, s.eosio⟩ = moved s.eos u w (q.of Symbol.EOS.code) := by
  have hbefore : s.eos = (book s.token.accounts).amount Symbol.EOS.code := funext fun v => State.eos_eq ..
  have hafter : State.eos ⟨s.system, { s.token with accounts }, s.eosio⟩ =
      (book accounts).amount Symbol.EOS.code := funext fun v => State.eos_eq ..
  rw [hbefore, hafter, hmove.amount hpos hsmall]

theorem le_eos {u w p : Name} {q : Asset} {accounts : Token.Accounts}
    (hmove : Token.Moved s.token.accounts accounts u w q p) (hpos : 0 < q.val)
    (hcode : Symbol.EOS.code = q.symbol.code) : q.val ≤ s.eos u := by
  rw [State.eos_eq, hcode]
  exact Book.move_le hpos hmove.book

theorem ordered_token {o : Outcome Token.Tables} (ha : e.Signed e.Other a) (hacc : a.account = Name.eosio_token)
    (h : Token.Effect (e.ctx s Name.eosio_token a.authorization) s.token a.call o) (hout : ¬ e.SwapsIn a.call) :
    e.Ordered a (balances m s + e.dues m [a]) (balances m { s with token := o.tables }) := by
  obtain ⟨account, authorization, call⟩ := a
  simp only at hacc h hout
  subst hacc
  have hcoins : ∀ {f : Name → Int}, (book o.tables.accounts).amount Symbol.EOS.code = f →
      balances m { s with token := o.tables } = ⟨f, (balances m s).token⟩ := by
    rintro _ rfl
    exact Balances.ext (funext fun v => State.eos_eq _ v) rfl
  have heos_eq : (balances m s).coin = (book s.token.accounts).amount Symbol.EOS.code := funext fun v => State.eos_eq s v
  have hidle : (∀ u w q memo, call ≠ .transfer u w q memo) →
      (book o.tables.accounts).amount Symbol.EOS.code = (book s.token.accounts).amount Symbol.EOS.code →
      e.Ordered ⟨Name.eosio_token, authorization, call⟩ (balances m s + e.dues m [⟨Name.eosio_token, authorization, call⟩])
        (balances m { s with token := o.tables }) := by
    intro hcall hbook
    rw [dues_no_transfer hcall, add_zero_balances, hcoins hbook, ← heos_eq]
    exact .inl rfl
  cases h with
  | @transfer u w q memo st accounts hne hauth _ hst hvalid hpos hsym _ hmove =>
    have hr := ((Asset.is_valid_iff _).1 hvalid).1
    have hmem := mem_actors hauth
    have heos := spent_eos hmove hpos hr.2
    by_cases hu : u = e.self
    · subst hu
      obtain ⟨-, hq, heq⟩ := (ha.own hmem).pays_eos rfl rfl
      have hof : q.of Symbol.EOS.code = q.val := by rw [← hq, Asset.of_self]
      rw [heq, dues_eos (congrArg Symbol.code hq)]
      refine .inl (Balances.ext (funext fun v => ?_) (funext fun v => ?_))
      · exact (congrFun heos v).trans (hof ▸ moved_from_zero _ _ _ _ _)
      · exact (add_zero _).symm
    · rw [dues_unsigned (ha.unsigned rfl hu), add_zero_balances]
      by_cases hcode : Symbol.EOS.code = q.symbol.code
      · have hof : q.of Symbol.EOS.code = q.val := if_pos hcode
        have hle := le_eos hmove hpos hcode
        have hafter : balances m ⟨s.system, { s.token with accounts }, s.eosio⟩ =
            ⟨moved (balances m s).coin u w q.val, (balances m s).token⟩ := Balances.ext (hof ▸ heos) rfl
        rw [hafter]
        by_cases hw : w = e.self
        · subst hw
          have hexempt : System.Exempt u := by
            by_contra hn
            exact hout ⟨u, q, memo, rfl, hu, hn⟩
          exact .inr ⟨_, .donate hu hexempt hpos hle, rfl, hmem⟩
        · exact .inr ⟨_, .pay hu hw hpos hle, rfl, hmem⟩
      · -- Another token.
        have hof : q.of Symbol.EOS.code = 0 := if_neg hcode
        refine .inl (Balances.ext (funext fun v => (congrFun heos v).trans ?_) rfl)
        rw [hof, moved_zero]
        rfl
  | @issue _ q supply st p accounts hissues hauth hvalid hpos _ _ _ _ hadd =>
    have hr := ((Asset.is_valid_iff _).1 hvalid).1
    have hx : st.issuer ≠ e.self := ha.signer (mem_actors hauth) (by cases call <;> first | rfl | cases hissues)
    have hcall : ∀ u w q memo, call ≠ .transfer u w q memo := by rintro u w q memo rfl; cases hissues
    have hamount := Book.amount_credit ⟨by omega, hr.2⟩ (Token.credit_of_add_balance hadd) Symbol.EOS.code
    by_cases hcode : Symbol.EOS.code = q.symbol.code
    · have hof : q.of Symbol.EOS.code = q.val := if_pos hcode
      rw [dues_no_transfer hcall, add_zero_balances, hcoins hamount, hof, ← heos_eq]
      exact .inr ⟨_, .issue hx hpos, rfl, mem_actors hauth⟩
    · have hof : q.of Symbol.EOS.code = 0 := if_neg hcode
      exact hidle hcall (by rw [hamount, hof, gained_zero])
  | @retire q supply memo st p accounts hauth _ hpos _ _ _ hsub =>
    have hx : st.issuer ≠ e.self := ha.signer (mem_actors hauth) rfl
    have hdebit := Token.debit_of_sub_balance hsub
    have hamount := Book.amount_debit (by omega) hdebit Symbol.EOS.code
    by_cases hcode : Symbol.EOS.code = q.symbol.code
    · have hof : q.of Symbol.EOS.code = q.val := if_pos hcode
      have hle : q.val ≤ (balances m s).coin st.issuer := by
        rw [heos_eq, hcode]
        exact Book.debit_le hpos hdebit
      rw [dues_no_transfer (by simp), add_zero_balances, hcoins hamount, hof, ← heos_eq]
      exact .inr ⟨_, .retire hx hpos hle, rfl, mem_actors hauth⟩
    · have hof : q.of Symbol.EOS.code = 0 := if_neg hcode
      exact hidle (by simp) (by rw [hamount, hof, neg_zero, gained_zero])
  | opened _ _ _ _ hadd => exact hidle (by simp) (amount_of_emplace hadd rfl _)
  | closed _ hrow hzero herase => exact hidle (by simp) (amount_of_erase herase hrow hzero _)
  | create | setmaxsupply | open_idle => exact hidle (by simp) rfl

/-- What one action does, seen from the exchange. -/
theorem exec_ordered (hkeeps : e.KeepsSelf) (hm : System.Minted e.self m s.system) (ha : e.Signed e.Other a)
    {queued : List Action} (h : e.exec s a = .ok (s', queued)) (hnonneg : ∀ u, 0 ≤ s'.eos u) :
    e.Ordered a (balances m s + e.dues m [a]) (balances m s' + e.dues m queued) := by
  cases exec_effect h with
  | system hacc heffect => exact ordered_system hm ha hacc heffect
  | token hacc heffect hout =>
    rw [dues_nil, add_zero_balances]
    exact ordered_token ha hacc heffect hout
  | @swap_in o sender q memo symbol hacc hcall heffect hsender _ hpos hq hcfg =>
    obtain ⟨account, authorization, call⟩ := a
    simp only at hacc hcall heffect
    subst hacc hcall
    obtain rfl := hm.config_eq hcfg
    cases heffect with
    | issue hissues => cases hissues
    | @transfer _ _ _ _ _ accounts _ hauth _ _ hvalid _ _ _ hmove =>
      have hr := ((Asset.is_valid_iff _).1 hvalid).1
      have hof : q.of Symbol.EOS.code = q.val := by rw [← hq, Asset.of_self]
      have heos := spent_eos hmove hpos hr.2
      have hle := le_eos hmove hpos (congrArg Symbol.code hq.symm)
      have hpaid : e.dues m [System.transfer_action e.self e.self e.self sender ⟨q.amount, m.symbol⟩ memo] =
          ⟨fun _ => 0, moved (fun _ => 0) e.self sender q.val⟩ := dues_xyz rfl
      have hafter : balances m ⟨s.system, { s.token with accounts }, s.eosio⟩ +
          ⟨fun _ => 0, moved (fun _ => 0) e.self sender q.val⟩ =
          ⟨moved (balances m s).coin sender e.self q.val, moved (balances m s).token e.self sender q.val⟩ := by
        refine Balances.ext (funext fun v => ?_) (funext fun v => ?_)
        · exact (add_zero _).trans (congrFun (hof ▸ heos) v)
        · exact (moved_from_zero _ _ _ _ _).symm
      rw [dues_unsigned (ha.unsigned rfl hsender), add_zero_balances, hpaid, hafter]
      exact .inr ⟨_, .deposit hsender hpos hle, rfl, mem_actors hauth⟩
  | @eosio call x token hacc hcall hx =>
    have hself : e.self ∉ a.actors := fun hs => by
      have hown := (ha.own hs).call_own
      rw [hcall] at hown
      cases hown
    rw [dues_unsigned hself, dues_nil, add_zero_balances, add_zero_balances]
    refine ordered_elsewhere hacc ?_ hnonneg rfl
    simp only [State.eos_eq]
    exact hkeeps call a.authorization _ _ _ _ hself hx
  | nobody hself htoken =>
    rw [dues_single, pays_elsewhere hself, pays_elsewhere htoken, dues_nil]
    exact .inl rfl

/-! ## Any run -/

theorem settled_step {q : Queued} {rest trace : List Queued} {queued : List Action} (hkeeps : e.KeepsSelf)
    (hm : System.Minted e.self m s.system) (hs : ∀ p ∈ q :: rest, e.Signed e.Other p.act)
    (h : e.exec s q.act = .ok (s', queued)) (hnonneg : ∀ u, 0 ≤ s'.eos u) :
    e.Ordered q.act (e.settled m ⟨s, q :: rest, trace⟩)
      (e.settled m ⟨s', queued.map q.child ++ rest, q :: trace⟩) := by
  have hbefore : e.settled m ⟨s, q :: rest, trace⟩ =
      balances m s + e.dues m [q.act] + e.dues m (rest.map (·.act)) := by
    rw [add_assoc_balances, ← dues_append]
    rfl
  have hafter : e.settled m ⟨s', queued.map q.child ++ rest, q :: trace⟩ =
      balances m s' + e.dues m queued + e.dues m (rest.map (·.act)) := by
    have hqueue : (queued.map q.child ++ rest).map (·.act) = queued ++ rest.map (·.act) := by
      rw [List.map_append, Machine.map_child_act]
    rw [add_assoc_balances, ← dues_append, ← hqueue]
    rfl
  have hrest : ∀ b ∈ rest.map (·.act), e.Signed e.Other b := by
    intro b hb
    obtain ⟨p, hp, rfl⟩ := List.mem_map.1 hb
    exact hs p (List.mem_cons_of_mem _ hp)
  rw [hbefore, hafter]
  exact (exec_ordered hkeeps hm (hs q (List.mem_cons_self ..)) h hnonneg).add (fun u hu => (dues_nonneg hrest hu).1)
    fun u hu => (dues_nonneg hrest hu).2

theorem settled_slip {pending trace : List Queued} (ha : e.self ∉ a.actors) :
    e.settled m ⟨s, .top a :: pending, trace⟩ = e.settled m ⟨s, pending, trace⟩ := by
  have hqueue : e.dues m ((Machine.Queued.top a :: pending).map (·.act)) = e.dues m (pending.map (·.act)) := by
    rw [List.map_cons, ← List.singleton_append, dues_append, Machine.Queued.top, dues_unsigned ha]
    exact Balances.ext (funext fun _ => zero_add _) (funext fun _ => zero_add _)
  exact congrArg (balances m s + ·) hqueue

/-- What goes on holding while the operations add up. -/
structure Ordering (e : Env σ) (m : Asset) (b : Balances Name) (c : Config σ) : Prop where
  minted : System.Minted e.self m c.state.system
  signed : ∀ q ∈ c.pending, e.Signed e.Other q.act
  sound : Token.Sound c.state.token
  ops : ∃ ops, Agents.Runs (Exchange.Step e.self System.Exempt) ops b (e.settled m c) ∧ e.Comes c.trace ops

theorem woven_ordering (hkeeps : e.KeepsSelf) (ht : e.ThroughToken) (hinit : e.Initialised m s₀) (h : e.Woven s₀ c) :
    e.Ordering m (balances m s₀) c := by
  refine h.invariant (e.Ordering m (balances m s₀)) ?_ ?_ ?_
  · intro s s' q rest trace queued hinv hexec
    have hsound := token_kept_exec ht Token.sound_kept hexec hinv.sound
    have hnonneg : ∀ u, 0 ≤ s'.eos u := fun u => by
      rw [State.eos_eq]
      exact hsound.nonneg _ u
    refine ⟨minted_exec hexec hinv.minted, signed_queue not_other_self hinv.signed hexec, hsound, ?_⟩
    obtain ⟨ops, hruns, hcomes⟩ := hinv.ops
    have hordered : e.Ordered q.act (e.settled m ⟨s, q :: rest, trace⟩) _ :=
      settled_step hkeeps hinv.minted hinv.signed hexec hnonneg
    rcases hordered with heq | ⟨op, hstep, hop⟩
    · exact ⟨ops, heq ▸ hruns, .idle hcomes⟩
    · exact ⟨ops ++ [op], Agents.runs_append.2 ⟨_, hruns, .cons hstep .nil⟩, .order hcomes hop⟩
  · intro s pending trace a hinv ha
    obtain ⟨ops, hruns, hcomes⟩ := hinv.ops
    refine ⟨hinv.minted, signed_slip hinv.signed ha, hinv.sound, ops, ?_, hcomes⟩
    rw [settled_slip ha]
    exact hruns
  · exact ⟨hinit.minted, by simp, after_token_sound ht hinit (.start rfl), [], Agents.runs_nil.2 (add_zero_balances _),
      .nil⟩

theorem start_backed (ht : e.ThroughToken) (hinit : e.Initialised m s₀) : Backed e.self (balances m s₀) := by
  have hxyz : ∀ u, u ≠ e.self → (balances m s₀).token u = 0 := fun u hu => (hinit.xyz u).trans (if_neg hu)
  have heos : 0 ≤ s₀.eos e.self := by
    rw [State.eos_eq]
    exact (after_token_sound ht hinit (.start rfl)).nonneg _ _
  refine ⟨fun u hu => (hxyz u hu).ge, ?_⟩
  rw [Finset.sum_eq_zero fun u hu => hxyz u (Finset.ne_of_mem_erase hu)]
  exact heos

theorem settled_done (hdone : c.pending = []) : e.settled m c = balances m c.state := by
  unfold settled
  rw [hdone]
  exact add_zero_balances _

/-- **The contract refines a plain exchange.** As long as nobody else signs for the contract,
and `eosio` leaves it its EOS, with all that is queued counted as paid, every run, whoever
acts in the middle of whose transaction, is a run of the exchange, in which a swap is one
step. It has at most one operation for each action. Those of the contracts are by their
signers, and only a call of `eosio` can do anything else, with coins. So every XYZ is backed
at every point, and swaps never change what an account is worth. -/
theorem refines_exchange (hkeeps : e.KeepsSelf) (ht : e.ThroughToken) (hinit : e.Initialised m s₀)
    (h : e.Woven s₀ c) :
    (∃ ops, Agents.Runs (Exchange.Step e.self System.Exempt) ops (balances m s₀) (e.settled m c) ∧
      e.Comes c.trace ops ∧
      ∀ u, (e.settled m c).value u = s₀.eos u + s₀.xyz m.symbol.code u + (ops.map fun op => op.net e.self u).sum) ∧
    Backed e.self (e.settled m c) ∧ (c.pending = [] → e.settled m c = balances m c.state) := by
  obtain ⟨ops, hruns, hcomes⟩ := (woven_ordering hkeeps ht hinit h).ops
  exact ⟨⟨ops, hruns, hcomes, fun u => runs_value hruns u⟩, runs_backed hruns (start_backed ht hinit), settled_done⟩

theorem refines_exchange_alice : ∃ c, Tiny.env.Woven Tiny.start c ∧ c.pending.length = 1 ∧
    (Tiny.env.settled Tiny.max_supply c).token Tiny.alice = 100 ∧
    Backed Tiny.env.self (Tiny.env.settled Tiny.max_supply c) := by
  obtain ⟨s, queued, hexec, hlength, hpaid⟩ : ∃ s queued, Tiny.env.exec Tiny.start Tiny.swap = .ok (s, queued) ∧
      queued.length = 1 ∧ (balances Tiny.max_supply s + Tiny.env.dues Tiny.max_supply queued).token Tiny.alice = 100 :=
    ⟨_, _, rfl, rfl, by decide⟩
  have hswap : Tiny.env.self ∉ Tiny.swap.actors := by decide
  have hwoven : Tiny.env.Woven Tiny.start _ :=
    (Relation.ReflTransGen.refl.tail (.slip hswap)).tail (.act (.run hexec))
  obtain ⟨-, hbacked, -⟩ := refines_exchange tiny_keepsSelf tiny_throughToken Tiny.initialised hwoven
  refine ⟨_, hwoven, by simp [hlength], ?_, hbacked⟩
  have hqueue : (queued.map (Machine.Queued.top Tiny.swap).child ++ []).map Machine.Queued.act = queued := by
    rw [List.append_nil, Machine.map_child_act]
  unfold settled
  rw [hqueue]
  exact hpaid

end Vaulta.Env
