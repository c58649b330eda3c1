import Vaulta.Fold
import Vaulta.Stakes

/-!
# The chain of the tests

Here `eosio` is `mocksys`, and a call of it runs as its transfers do, one after the other.
Whoever only makes calls that are his own can take each one as a single step.
-/

namespace Vaulta

namespace Env

variable {σ : Type} {e : Env σ} {s s' : State σ} {a b : Action} {queued : List Action}

theorem queued_sys (h : e.exec s a = .ok (s', queued)) (hb : b ∈ queued) {call : SysCall} (hcall : b.call = .sys call) :
    ∃ w, a.account = e.self ∧ a.call = .sys w ∧ b = System.sys_action w.account w.forwarded ∧
      w.account ∈ a.actors := by
  have hforward : ∀ {w : SysCall}, a.account = e.self → a.call = .sys w → b.account = Name.eosio →
      ∃ w, a.account = e.self ∧ a.call = .sys w ∧ b = System.sys_action w.account w.forwarded ∧
        w.account ∈ a.actors := by
    intro w hacc hw hb'
    obtain ⟨_, authorization, _⟩ := a
    simp only at hacc hw
    subst hacc hw
    obtain ⟨o, ho, -, rfl⟩ := exec_sys.1 h
    have hf := System.apply_sys_forwards e.self_ne_eosio ho
    have hmem : b ∈ o.inline.filter (fun a => a.account = Name.eosio) := List.mem_filter.2 ⟨hb, by simp [hb']⟩
    rw [hf.once, List.mem_singleton] at hmem
    exact ⟨w, rfl, rfl, hmem, mem_actors hf.auth⟩
  have hfollow : ∀ {c : Ctx} {account : Name}, System.Follow c account b → b.account = Name.eosio := by
    intro c account hf
    cases hf with
    | forward => rfl
    | excess | enforce | swap => cases hcall
  cases exec_effect h with
  | token | eosio | nobody => cases hb
  | swap_in =>
    obtain rfl := List.mem_singleton.1 hb
    cases hcall
  | system hacc heffect =>
    generalize hx : a.call = x at heffect
    cases heffect with
    | init | opened | closed | blocked | traced | idle => cases hb
    | transfer =>
      simp only at hb
      split at hb
      · obtain rfl := List.mem_singleton.1 hb
        cases hcall
      · cases hb
    | swapto_eos | swapto_xyz =>
      simp only [List.mem_cons, List.not_mem_nil, or_false] at hb
      rcases hb with rfl | rfl <;> cases hcall
    | excess =>
      obtain rfl := List.mem_singleton.1 hb
      cases hcall
    | swapped _ _ hrest =>
      simp only [List.mem_cons] at hb
      rcases hb with rfl | rfl | hb
      · cases hcall
      · cases hcall
      · exact hx ▸ hforward hacc hx (hfollow (hrest b hb))
    | passed _ hrest => exact hx ▸ hforward hacc hx (hfollow (hrest b hb))

end Env

namespace Mocksys

theorem takes_forwarded (w : SysCall) : takes w.forwarded = takes w := by
  cases w <;> rfl

theorem account_forwarded (w : SysCall) : w.forwarded.account = w.account := by
  cases w <;> rfl

/-! ## The chain -/

/-- What `buyrambytes` of the contract computes from the RAM market of `eosio`. -/
def cost_plus_fee (t : Tables) (bytes : UInt32) : Int64 :=
  match t.rammarket.find Name.eosio Symbol.RAMCORE with
  | none => 0
  | some itr => (Bancor.quote itr.base.amount itr.quote.amount bytes).getD 0

/-- Where the contract is, the accounts that exist, and how `mocksys` reads. -/
structure Site where
  self : Name
  is_account : Name → Bool
  datastream : Datastream
  self_ne_token : self ≠ Name.eosio_token
  self_ne_eosio : self ≠ Name.eosio
  self_ne_ram : self ≠ Name.eosio_ram
  self_ne_ramfee : self ≠ Name.eosio_ramfee
  self_ne_stake : self ≠ Name.eosio_stake
  self_is_account : is_account self = true

namespace Site

variable (site : Site)

/-- All but `eosio`. -/
def base : Env Tables where
  self := site.self
  is_account _ := site.is_account
  eosio _ _ _ _ := .error "unknown action"
  cost_plus_fee := cost_plus_fee
  self_ne_token := site.self_ne_token
  self_ne_eosio := site.self_ne_eosio
  self_ne_ram := site.self_ne_ram
  self_ne_stake := site.self_ne_stake
  self_is_account _ := site.self_is_account

/-- One action. What `eosio` sends runs next. -/
def exec (s : State Tables) (a : Action) : Except String (State Tables × List Action) :=
  if a.account = Name.eosio then
    match a.call with
    | .sys call => do
      let o ← apply site.datastream ⟨Name.eosio, a.authorization, site.is_account⟩ s.eosio call
      return ({ s with eosio := o.tables }, o.inline)
    | _ => .error "unknown action"
  else site.base.exec s a

abbrev Commits (s : State Tables) (acts : List Action) (s' : State Tables) : Prop := Machine.Commits site.exec s acts s'

/-! ## Calls in one step -/

/-- The part of the chain that a call works on. -/
def inner (p : Tables × Token.Tables) (a : Action) : Except String ((Tables × Token.Tables) × List Action) :=
  if a.account = Name.eosio then
    match a.call with
    | .sys call => do
      let o ← apply site.datastream ⟨Name.eosio, a.authorization, site.is_account⟩ p.1 call
      return ((o.tables, p.2), o.inline)
    | _ => .error "unknown action"
  else do
    let o ← Token.apply ⟨Name.eosio_token, a.authorization, site.is_account⟩ p.2 a.call
    return ((p.1, o.tables), [])

/-- A call with all that it queues. No call queues more than three actions in all. -/
def eosio (call : SysCall) (authorization : List PermissionLevel) (x : Tables) (token : Token.Tables) :
    Except String (Tables × Token.Tables) := do
  check (call.account ∈ authorization.map (·.actor)) "missing authority"
  (Machine.transact site.inner 4 (x, token) [⟨Name.eosio, authorization, .sys call⟩]).getD (.error "out of fuel")

def env : Env Tables := { site.base with eosio := site.eosio }

@[simp] theorem env_self : site.env.self = site.self := rfl

/-- How many actions a call can come to. -/
def size (a : Action) : Nat :=
  match a.call with
  | .sys (.buyrambytes ..) => 4
  | .sys _ => 3
  | _ => 1

variable {site}

theorem size_le (a : Action) : size a ≤ 4 := by
  unfold size
  split <;> decide

theorem inner_size {p p' : Tables × Token.Tables} {a : Action} {queued : List Action}
    (h : site.inner p a = .ok (p', queued)) : (queued.map size).sum < size a := by
  have hpos : 0 < size a := by
    unfold size
    split <;> decide
  unfold inner at h
  split at h
  · split at h
    · rename_i call hcall
      simp only [bind_eq_ok, pure_eq_ok, Except.ok.injEq, Prod.mk.injEq] at h
      obtain ⟨o, ho, -, rfl⟩ := h
      have hthree : 3 ≤ size a := by
        unfold size
        rw [hcall]
        split <;> simp_all
      cases apply_effect ho with
      | pays | deposit | withdraw | delegatebw | refund =>
        have hone : ∀ b : Action, size b = 1 → ([b].map size).sum < size a := by
          intro b hb
          simp only [List.map_cons, List.map_nil, List.sum_cons, List.sum_nil, hb]
          omega
        exact hone _ rfl
      | buyrex | mvfrsavings | sellrex | undelegatebw | noted => exact hpos
      | bytes =>
        unfold size
        rw [hcall]
        exact (by decide : 3 < 4)
      | paid _ hfees =>
        cases hfees with
        | none => exact Nat.lt_of_lt_of_le (by decide : 1 < 3) hthree
        | fee => exact Nat.lt_of_lt_of_le (by decide : 2 < 3) hthree
    · cases h
  · simp only [bind_eq_ok, pure_eq_ok, Except.ok.injEq, Prod.mk.injEq] at h
    obtain ⟨o, -, -, rfl⟩ := h
    exact hpos

theorem eosio_eq_ok {call : SysCall} {authorization : List PermissionLevel} {x : Tables} {token : Token.Tables}
    {p : Tables × Token.Tables} : site.eosio call authorization x token = .ok p ↔
      call.account ∈ authorization.map (·.actor) ∧
        Machine.Commits site.inner (x, token) [⟨Name.eosio, authorization, .sys call⟩] p := by
  have hfuel : (([⟨Name.eosio, authorization, .sys call⟩] : List Action).map size).sum ≤ 4 := size_le _
  have hsome : ∀ r : Option (Except String (Tables × Token.Tables)),
      r.getD (.error "out of fuel") = .ok p ↔ r = some (.ok p) := by
    intro r
    cases r <;> simp
  unfold eosio
  simp only [bind_eq_ok, check_eq_ok, exists_const, hsome]
  rw [Machine.transact_eq_ok (fun _ _ _ _ => inner_size) hfuel]

theorem exec_unheard {s : State Tables} {l : List PermissionLevel} {u w : Name} {q : Asset} {memo : Memo}
    (hw : w ≠ site.self) :
    site.exec s ⟨Name.eosio_token, l, .transfer u w q memo⟩ =
      (Token.apply ⟨Name.eosio_token, l, site.is_account⟩ s.token (.transfer u w q memo)).map
        fun o => ({ s with token := o.tables }, []) := by
  have heosio : Name.eosio_token ≠ Name.eosio := by decide
  have htoken : Name.eosio_token ≠ site.base.self := Ne.symm site.self_ne_token
  have hnotify : ∀ o, Token.apply ⟨Name.eosio_token, l, site.is_account⟩ s.token (.transfer u w q memo) = .ok o →
      o.inline = [] ∧ site.base.notify s ⟨Name.eosio_token, l, .transfer u w q memo⟩ o.notified = .ok [] := by
    intro o ho
    obtain ⟨_, _, -, -, -, -, -, -, -, -, -, rfl⟩ := Token.transfer_eq_ok.1 ho
    refine ⟨rfl, ?_⟩
    rw [Env.notify_transfer rfl]
    exact System.on_transfer_ignored _ _ _ (.inr hw)
  unfold exec Env.exec
  rw [if_neg heosio, if_neg htoken, if_pos rfl]
  change (do
    let o ← Token.apply ⟨Name.eosio_token, l, site.is_account⟩ s.token (.transfer u w q memo)
    let inline ← site.base.notify s ⟨Name.eosio_token, l, .transfer u w q memo⟩ o.notified
    return ({ s with token := o.tables }, o.inline ++ inline)) = _
  cases ho : Token.apply ⟨Name.eosio_token, l, site.is_account⟩ s.token (.transfer u w q memo) with
  | error err => rfl
  | ok o =>
    obtain ⟨hinline, hn⟩ := hnotify o ho
    simp only [ok_bind, hn, hinline, pure_eq_ok, Except.map, List.append_nil]

theorem inner_ends {u : Name} {a : Action} (h : Inner u a) (hu : u ≠ site.self) :
    (∃ l v w q memo, a = ⟨Name.eosio_token, l, .transfer v w q memo⟩ ∧ w ≠ site.self) ∨
      ∃ l call, call.account = u ∧ a = ⟨Name.eosio, l, .sys call⟩ := by
  cases h with
  | pay_in => exact .inl ⟨_, _, _, _, _, rfl, Ne.symm site.self_ne_eosio⟩
  | pay_out => exact .inl ⟨_, _, _, _, _, rfl, hu⟩
  | fee => exact .inl ⟨_, _, _, _, _, rfl, Ne.symm site.self_ne_ramfee⟩
  | call h => exact .inr ⟨_, _, h, rfl⟩

/-- What a call for somebody else does, it does to the two parts only. -/
theorem embeds (system : System.Tables) : Machine.Embeds site.inner site.exec (fun p => ⟨system, p.2, p.1⟩)
    fun a => ∃ u, u ≠ site.self ∧ Inner u a where
  agree := by
    have htoken : Name.eosio_token ≠ Name.eosio := by decide
    rintro ⟨x, token⟩ a ⟨u, hu, ha⟩
    rcases inner_ends ha hu with ⟨l, v, w, q, memo, rfl, hw⟩ | ⟨l, call, -, rfl⟩
    · rw [exec_unheard hw]
      unfold inner
      rw [if_neg htoken]
      simp only
      cases Token.apply ⟨Name.eosio_token, l, site.is_account⟩ token (.transfer v w q memo) <;> rfl
    · unfold exec inner
      simp only [if_true]
      cases apply site.datastream ⟨Name.eosio, l, site.is_account⟩ x call <;> rfl
  queue := by
    have htoken : Name.eosio_token ≠ Name.eosio := by decide
    rintro ⟨x, token⟩ ⟨x', token'⟩ a queued ⟨u, hu, ha⟩ h b hb
    refine ⟨u, hu, ?_⟩
    rcases inner_ends ha hu with ⟨l, v, w, q, memo, rfl, -⟩ | ⟨l, call, hcall, rfl⟩
    · unfold inner at h
      rw [if_neg htoken] at h
      simp only [bind_eq_ok, pure_eq_ok, Except.ok.injEq, Prod.mk.injEq] at h
      obtain ⟨o, -, -, rfl⟩ := h
      cases hb
    · unfold inner at h
      simp only [if_true, bind_eq_ok, pure_eq_ok, Except.ok.injEq, Prod.mk.injEq] at h
      obtain ⟨o, ho, -, rfl⟩ := h
      exact hcall ▸ (apply_effect ho).sends rfl b hb

/-! ## Whole transactions -/

variable (site) in
/-- A call is one that `mocksys` takes, and at `eosio` everybody makes it for himself:
`buyram` and a few others do not ask who has signed. -/
def Makes (a : Action) : Prop :=
  ∀ call, a.call = .sys call → takes call = true ∧ (a.account = Name.eosio → call.account ∈ a.actors)

variable (site) in
/-- Nobody signs for the contract, either. -/
def Fair (acts : List Action) : Prop := ∀ a ∈ acts, site.self ∉ a.actors ∧ Makes a

variable (site) in
structure Plain (a : Action) : Prop where
  signed : site.base.Signed site.base.Other a
  makes : Makes a

theorem Fair.plain {acts : List Action} (h : site.Fair acts) : ∀ a ∈ acts, site.Plain a := by
  intro a ha
  obtain ⟨hself, hmakes⟩ := h a ha
  exact ⟨Env.signed_of_foreign hself fun n hn (hne : n = site.self) => hself (hne ▸ hn), hmakes⟩

theorem Plain.foreign {a : Action} (h : site.Plain a) {call : SysCall} (hcall : a.call = .sys call) :
    site.self ∉ a.actors := by
  intro hmem
  have hown := (h.signed.own hmem).call_own
  rw [hcall] at hown
  cases hown

theorem exec_elsewhere {s : State Tables} {a : Action} (ha : a.account ≠ Name.eosio) :
    site.exec s a = site.base.exec s a := by
  unfold exec
  rw [if_neg ha]

theorem env_elsewhere {s : State Tables} {a : Action} (ha : a.account ≠ Name.eosio) :
    site.env.exec s a = site.base.exec s a := by
  unfold Env.exec
  simp only [if_neg ha]
  rfl

theorem env_exec_call {s s' : State Tables} {l : List PermissionLevel} {call : SysCall} {queued : List Action} :
    site.env.exec s ⟨Name.eosio, l, .sys call⟩ = .ok (s', queued) ↔ queued = [] ∧ ∃ p,
      site.eosio call l s.eosio s.token = .ok p ∧ s' = ⟨s.system, p.2, p.1⟩ := by
  have htoken : Name.eosio ≠ Name.eosio_token := by decide
  unfold Env.exec
  rw [if_neg (Ne.symm site.env.self_ne_eosio), if_neg htoken, if_pos rfl]
  simp only [bind_eq_ok, pure_eq_ok, Except.ok.injEq, Prod.mk.injEq]
  constructor
  · rintro ⟨p, hp, rfl, rfl⟩; exact ⟨rfl, p, hp, rfl⟩
  · rintro ⟨rfl, p, hp, rfl⟩; exact ⟨p, hp, rfl, rfl⟩

theorem commits_call {s s' : State Tables} {l : List PermissionLevel} {call : SysCall} (hself : call.account ≠ site.self) :
    site.Commits s [⟨Name.eosio, l, .sys call⟩] s' ↔ ∃ p, s' = ⟨s.system, p.2, p.1⟩ ∧
      Machine.Commits site.inner (s.eosio, s.token) [⟨Name.eosio, l, .sys call⟩] p := by
  have hinner : ∀ a ∈ [(⟨Name.eosio, l, .sys call⟩ : Action)], ∃ u, u ≠ site.self ∧ Inner u a := by
    intro a ha
    rw [List.mem_singleton.1 ha]
    exact ⟨call.account, hself, .call rfl⟩
  exact (embeds s.system).commits (t := (s.eosio, s.token)) hinner

theorem folds : Machine.Folds site.exec site.env.exec (fun a => a.account = Name.eosio) site.Plain where
  same _ _ _ hcall := (env_elsewhere hcall).trans (exec_elsewhere hcall).symm
  call := by
    rintro s ⟨_, l, call⟩ s' queued ha rfl
    by_cases hsys : ∃ w, call = .sys w
    · obtain ⟨w, rfl⟩ := hsys
      have hmem := (ha.makes w rfl).2 rfl
      have hself : w.account ≠ site.self := fun he => ha.foreign rfl (he ▸ hmem)
      rw [env_exec_call]
      refine and_congr_right fun _ => Iff.trans (exists_congr fun p => ?_) (commits_call hself).symm
      rw [eosio_eq_ok, and_comm]
      exact and_congr_right fun _ => and_iff_right hmem
    · -- What is no call fails on both.
      have htoken : Name.eosio ≠ Name.eosio_token := by decide
      have hnone : ∀ r, site.env.exec s ⟨Name.eosio, l, call⟩ ≠ .ok r := by
        intro r hr
        obtain ⟨s₁, queued⟩ := r
        cases Env.exec_effect hr with
        | system h => exact site.self_ne_eosio h.symm
        | token h | swap_in h => exact htoken h
        | eosio _ h => exact hsys ⟨_, h⟩
        | nobody _ _ h => exact h rfl
      have hnone' : ∀ r, site.exec s ⟨Name.eosio, l, call⟩ ≠ .ok r := by
        intro r hr
        unfold exec at hr
        rw [if_pos rfl] at hr
        split at hr
        · exact hsys ⟨_, ‹_›⟩
        · cases hr
      refine iff_of_false (hnone _) fun ⟨_, hc⟩ => ?_
      obtain ⟨_, _, h, -⟩ := Machine.commits_cons.1 hc
      exact hnone' _ h
  queue := by
    intro s a s' queued ha hcall h b hb
    rw [exec_elsewhere hcall] at h
    refine ⟨Env.exec_signed Env.not_other_self ha.signed h b hb, fun call hb' => ?_⟩
    obtain ⟨w, -, hw, rfl, -⟩ := Env.queued_sys h hb hb'
    cases hb'
    refine ⟨(takes_forwarded w).trans (ha.makes w hw).1, fun _ => ?_⟩
    rw [account_forwarded]
    exact List.mem_singleton_self _

end Site

end Mocksys

/-! ## A small chain of the tests -/

namespace Tests

open Mocksys

/-- Where the upper half of the 64 bits, or the proxy, is zero, there comes a zero next: the
text, or the list of producers, is empty. Anything else is not read here. -/
def datastream : Datastream where
  bytes_memo bytes _ :=
    if 0 ≤ bytes ∧ bytes < 2 ^ 32 then .ok (bytes.toUInt64.toUInt32, [])
    else .error "datastream attempted to read past the end"
  producers proxy _ := if proxy = ⟨0⟩ then .ok [] else .error "datastream attempted to read past the end"

def site : Site where
  self := Tiny.env.self
  is_account _ := true
  datastream := datastream
  self_ne_token := by decide
  self_ne_eosio := by decide
  self_ne_ram := by decide
  self_ne_ramfee := by decide
  self_ne_stake := by decide
  self_is_account := rfl

def run (s : State Tables) (acts : List Action) : State Tables :=
  match Machine.transact site.exec 20 s acts with
  | some (.ok s') => s'
  | _ => s

/-- The RAM market of the tests. -/
def market : Tables :=
  match setrammarket ⟨Name.eosio, [], fun _ => true⟩ .empty ⟨85450299267, Symbol.RAM⟩ ⟨223190417222, Symbol.EOS⟩ with
  | .ok o => o.tables
  | .error _ => .empty

theorem market_fits : market.Fits where
  rexfund := Tables.empty_fits.rexfund
  stakes := Tables.empty_fits.stakes
  refunds := Tables.empty_fits.refunds

def genesis : State Tables := ⟨.empty, .empty, market⟩

def funded : State Tables := run genesis Tiny.fund

def start : State Tables := run funded [Tiny.init]

/-- Burning RAM is passed on without a swap. -/
example : ((run start [⟨site.self, System.active Tiny.alice, .sys (.ramburn Tiny.alice 1000 [])⟩]).eosio.lastaction.find
    Name.eosio ()).map (·.action.to_string) = some "ramburn" := by decide

/-- `alice` has swapped 100 units. -/
def swapped : State Tables := run start [Tiny.swap]

def delegate : Action :=
  ⟨site.self, System.active Tiny.alice, .sys (.delegatebw Tiny.alice Tiny.bob ⟨30, Tiny.XYZ⟩ ⟨10, Tiny.XYZ⟩ false)⟩

def delegated : State Tables := run swapped [delegate]

theorem commits_delegate : site.Commits swapped [delegate] delegated := @Machine.commits_of_transact _ _ _ _ 20 _ _ _ rfl

theorem fair_single {a : Action} (hself : site.self ∉ a.actors) (ha : Site.Makes a) : site.Fair [a] := by
  intro b hb
  rw [List.mem_singleton.1 hb]
  exact ⟨hself, ha⟩

theorem fair_delegate : site.Fair [delegate] := by
  refine fair_single (by decide) ?_
  rintro call hcall
  cases hcall
  exact ⟨rfl, by decide⟩

end Tests

namespace Mocksys

namespace Site

variable {site : Site}

/-- **A call is one step.** As long as nobody signs for the contract and everybody calls
`eosio` for himself, for what `mocksys` has, a transaction commits, and leaves the same
state, whether what `eosio` sends runs as actions of its own or all of it at once. -/
theorem calls_fold {acts : List Action} (h : site.Fair acts) {s s' : State Tables} :
    site.Commits s acts s' ↔ site.env.Commits s acts s' := folds.commits h.plain

theorem calls_fold_delegate : Tests.site.env.Commits Tests.swapped [Tests.delegate] Tests.delegated ∧
    held Tests.delegated.eosio Tiny.alice = 40 :=
  ⟨(calls_fold Tests.fair_delegate).1 Tests.commits_delegate, by decide⟩

end Site

end Mocksys

end Vaulta
