import Vaulta.TestRuns

/-!
# What an account is worth

Its EOS, its XYZ, and what it has in `eosio`. The wrappers around deposits and stakes move
parts of that from one place to another.
-/

namespace Vaulta

namespace Tests

def undelegate : Action := ⟨site.self, System.active Tiny.alice,
  .sys (.undelegatebw Tiny.alice Tiny.bob ⟨20, Tiny.XYZ⟩ ⟨5, Tiny.XYZ⟩)⟩

def reclaim : Action := ⟨site.self, System.active Tiny.alice, .sys (.refund Tiny.alice)⟩

def reclaimed : State Mocksys.Tables := run (run delegated [undelegate]) [reclaim]

end Tests

namespace Mocksys.Site

variable (site : Site) (m : Asset) (u : Name)

def wealth (s : State Tables) : Int := s.eos u + s.xyz m.symbol.code u + held s.eosio u

/-- One of the five wrappers, for `u`. -/
def OwnStake (acts : List Action) : Prop :=
  ∃ l w, acts = [⟨site.self, l, .sys w⟩] ∧ w.stakes = true ∧ w.account = u ∧ site.self ∉ l.map (·.actor)

/-- What `u` does not sign, and what is fair: the others do not sign for the contract, and
call `eosio` for themselves. -/
def OfOthers (acts : List Action) : Prop := site.Fair acts ∧ ∀ a ∈ acts, u ∉ a.actors

/-- `u` only stakes, and others do what is fair. -/
inductive Lives : List (List Action) → State Tables → State Tables → Prop
  | nil {s : State Tables} : Lives [] s s
  | cons {acts : List Action} {txs : List (List Action)} {s s₁ s' : State Tables}
      (hacts : OwnStake site u acts ∨ OfOthers site u acts) (hc : site.Commits s acts s₁) (ht : Lives txs s₁ s') :
      Lives (acts :: txs) s s'

variable {site m u} {s s' s₁ : State Tables} {rest : List Action} {l : List PermissionLevel}

/-! ## One transaction of his own -/

/-- What a transaction changes, when it only moves what `u` has. -/
structure Moves (site : Site) (m : Asset) (u : Name) (s s' : State Tables) : Prop where
  wealth : wealth m u s' = wealth m u s
  fits : s'.eosio.Fits

theorem call_moves {call : SysCall} {v : Name} (hstakes : call.stakes = true) (hu : u ≠ Name.eosio) (hfits : s.eosio.Fits)
    (h : site.env.Commits s (System.sys_action v call :: rest) s') :
    ∃ s₁, site.env.Commits s₁ rest s' ∧ s₁.system = s.system ∧ Moves site m u s s₁ ∧
      ((∃ st, Token.Eos s.token st) → ∃ st, Token.Eos s₁.token st) := by
  obtain ⟨s₁, queued, hexec, hrest⟩ := Machine.commits_cons.1 h
  obtain ⟨rfl, p, hp, rfl⟩ := env_exec_call.1 hexec
  refine ⟨_, hrest, rfl, ⟨?_, call_fits hp hfits⟩, (throughToken _ _ _ _ _ _ hp).kept Token.eos_kept⟩
  have hkept := call_stakes hstakes hfits hp hu
  have hxyz : State.xyz ⟨s.system, p.2, p.1⟩ m.symbol.code u = s.xyz m.symbol.code u := rfl
  unfold wealth
  rw [State.eos_token, hxyz, State.eos_eq s]
  change _ + _ + held p.1 u = _
  omega

theorem eos_in_moves (hm : System.Minted site.self m s.system) (hu : u ≠ site.self) (hexempt : ¬ System.Exempt u)
    (hfits : s.eosio.Fits) {n : Int64} {memo : Memo}
    (h : site.env.Commits s [⟨Name.eosio_token, l, .transfer u site.self ⟨n, Symbol.EOS⟩ memo⟩] s') :
    Moves site m u s s' := by
  obtain ⟨token, system, hasks, htoken, hsystem, rfl⟩ := (Env.commits_eos_swap (e := site.env) hm hu hexempt).1 h
  have hex := Env.exchanged_eos (e := site.env) (s := s) (m := m) hasks.pos hasks.small htoken hsystem
  have heos := congrFun hex.eos u
  have hxyz := congrFun hex.xyz u
  rw [env_self, moved_sender _ hu] at heos
  rw [env_self, moved_recipient _ (Ne.symm hu)] at hxyz
  refine ⟨?_, hfits⟩
  unfold wealth
  rw [heos, hxyz]
  change _ + held s.eosio u = _
  omega

theorem swap_moves (hm : System.Minted site.self m s.system) (hu : u ≠ site.self) (hu' : u ≠ Name.eosio)
    (hfits : s.eosio.Fits) {q : Asset} {accounts : System.Accounts}
    (hswap : System.Swapped (site.env.ctx s site.self l) s.system u q accounts) {call : SysCall}
    (hstakes : call.stakes = true)
    (h : site.env.Commits { s with system := { s.system with accounts } }
      [System.swaptrace_action (site.env.ctx s site.self l) u q, System.credit_action (site.env.ctx s site.self l) u q,
        System.sys_action u call] s') : Moves site m u s s' := by
  have h := (Machine.commits_leaf (Env.exec_swaptrace (e := site.env) _ u q)).1 h
  obtain ⟨s₁, hcredit, hrest⟩ := Machine.commits_head.1 h
  obtain ⟨hsystem, heosio, -, heos⟩ := Env.credited (e := site.env) hu hcredit
  obtain ⟨s₂, hrest, -, hmoves, -⟩ := call_moves (m := m) hstakes hu' (heosio ▸ hfits) hrest
  obtain rfl := Machine.commits_nil.1 hrest
  have hxyz := congrFun (Env.swapped_xyz (e := site.env) hm (hswap.ctx (by rfl))) u
  rw [env_self, moved_sender _ hu] at hxyz
  have heos := congrFun heos u
  rw [env_self, moved_recipient _ (Ne.symm hu)] at heos
  refine ⟨hmoves.wealth.trans ?_, hmoves.fits⟩
  unfold wealth
  rw [heos, heosio, State.xyz_eq, hsystem, hxyz]
  change s.eos u + q.val + (s.xyz m.symbol.code u - q.val) + held s.eosio u = _
  omega

theorem own_moves (hm : System.Minted site.self m s.system) {st : CurrencyStats} (heos : Token.Eos s.token st)
    (hfits : s.eosio.Fits) (hu : u ≠ site.self) (hu' : u ≠ Name.eosio) (hexempt : ¬ System.Exempt u) {w : SysCall}
    (hstakes : w.stakes = true) (hw : w.account = u)
    (h : site.env.Commits s [⟨site.self, l, .sys w⟩] s') : Moves site m u s s' := by
  obtain ⟨s₁, queued, hexec, hrest⟩ := Machine.commits_cons.1 h
  obtain ⟨o, ho, rfl, rfl⟩ := Env.exec_sys.1 hexec
  have hauth : u ∈ l.map (·.actor) := hw ▸ Env.mem_actors (System.apply_sys_forwards site.self_ne_eosio ho).auth
  rw [List.append_nil] at hrest
  cases w with
  | deposit owner amount =>
    obtain rfl : owner = u := hw
    obtain ⟨-, q, accounts, call, -, hswap, hcall, rfl⟩ := System.swap_and_forward_eq_ok.1 ho
    obtain rfl := System.relabel_one hcall
    exact swap_moves hm hu hu' hfits hswap rfl hrest
  | delegatebw sender receiver net cpu transfer =>
    obtain rfl : sender = u := hw
    obtain ⟨-, q, accounts, -, -, -, hswap, rfl⟩ := System.delegatebw_eq_ok.1 ho
    exact swap_moves hm hu hu' hfits hswap rfl hrest
  | undelegatebw sender receiver net cpu =>
    obtain rfl : sender = u := hw
    obtain ⟨-, -, call, hcall, rfl⟩ := System.enforce_and_forward_eq_ok.1 ho
    obtain ⟨rfl, -⟩ := System.relabel_two hcall
    obtain ⟨s₁, hrest, -, hmoves, -⟩ := call_moves (m := m) rfl hu' hfits hrest
    obtain rfl := Machine.commits_nil.1 hrest
    exact hmoves
  | withdraw owner amount =>
    obtain rfl : owner = u := hw
    obtain ⟨-, hrest⟩ := (Env.commits_withdraw (e := site.env) hm hauth).1 h
    obtain ⟨s₁, hrest, hsystem, hmoves, -⟩ := call_moves (m := m) rfl hu' hfits hrest
    have hlast := eos_in_moves (m := m) (hsystem ▸ hm) hu hexempt hmoves.fits hrest
    exact ⟨hlast.wealth.trans hmoves.wealth, hlast.fits⟩
  | refund owner =>
    obtain rfl : owner = u := hw
    obtain ⟨-, rfl⟩ := System.forward_and_swap_excess_eq_ok.1 ho
    obtain ⟨s₁, hrest, hsystem, hmoves, hkept⟩ := call_moves (m := m) rfl hu' hfits hrest
    obtain ⟨st₁, heos₁⟩ := hkept ⟨st, heos⟩
    have hnonneg : 0 ≤ (System.get_eos_balance s.token owner).val := by
      rw [System.get_eos_balance_val]
      exact heos.sound.nonneg owner
    rcases (Env.commits_swapexcess (e := site.env) (by rfl) (System.get_eos_balance_symbol heos owner) hnonneg heos₁).1
      hrest with ⟨-, rfl⟩ | ⟨n, -, -, hrest⟩
    · exact hmoves
    · have hlast := eos_in_moves (m := m) (hsystem ▸ hm) hu hexempt hmoves.fits hrest
      exact ⟨hlast.wealth.trans hmoves.wealth, hlast.fits⟩
  | _ => cases hstakes

/-! ## One transaction of others -/

theorem others_keep (hu : u ≠ site.self) (hu' : u ≠ Name.eosio) (hfits : s.eosio.Fits) {acts : List Action}
    (hothers : OfOthers site u acts) (h : site.env.Commits s acts s') :
    wealth m u s ≤ wealth m u s' ∧ s'.eosio.Fits := by
  obtain ⟨hfair, hout⟩ := hothers
  have hsigned : ∀ a ∈ acts, site.env.Signed (site.env.Stranger u) a := fun a ha =>
    Env.signed_of_strangers (hfair a ha).1 (hout a ha)
  have hstep : ∀ t a t' queued, site.env.Signed (site.env.Stranger u) a → site.env.exec t a = .ok (t', queued) →
      (s.xyz m.symbol.code u ≤ t.xyz m.symbol.code u ∧ s.eos u ≤ t.eos u ∧ t.eosio.Fits ∧
        held t.eosio u = held s.eosio u) →
      s.xyz m.symbol.code u ≤ t'.xyz m.symbol.code u ∧ s.eos u ≤ t'.eos u ∧ t'.eosio.Fits ∧
        held t'.eosio u = held s.eosio u := by
    rintro t a t' queued ha hexec ⟨hxyz, heos, hfits, hheld⟩
    have hmem : u ∉ a.actors := fun hmem => (ha.other hmem hu).2 rfl
    refine ⟨le_trans hxyz (Env.exec_debited hexec hmem hu _),
      le_trans heos (Env.exec_eos_debited hu (undebited hu') ha hexec), exec_fits hexec hfits, ?_⟩
    cases Env.exec_effect hexec with
    | system | token | swap_in | nobody => exact hheld
    | @eosio call _ _ _ _ hx =>
      have hne : u ≠ call.account := fun he => hmem (by rw [he]; exact eosio_account hx)
      exact (call_held hne hx hfits).trans hheld
  obtain ⟨hxyz, heos, hfits', hheld⟩ := h.kept_on
    (fun _ _ _ _ ha hexec => Env.exec_signed Env.not_stranger_self ha hexec) hstep hsigned
    ⟨le_refl _, le_refl _, hfits, rfl⟩
  refine ⟨?_, hfits'⟩
  unfold wealth
  omega

/-! ## All of them -/

theorem OwnStake.fair {acts : List Action} (h : OwnStake site u acts) : site.Fair acts := by
  obtain ⟨l, w, rfl, hstakes, -, hself⟩ := h
  intro a ha
  obtain rfl := List.mem_singleton.1 ha
  refine ⟨hself, fun call hcall => ?_⟩
  cases hcall
  refine ⟨?_, fun he => absurd he site.self_ne_eosio⟩
  cases w <;> first | rfl | cases hstakes

/-- **Staking loses nothing.** On the chain of the tests, after a fair run, an account other
than the contract, `eosio`, `eosio.ram` and `eosio.stake` that deposits, stakes, unstakes,
withdraws and asks for its refunds through the wrappers has just as much as before, in EOS,
in XYZ and with `eosio` together, to the last unit. Whatever others do in between, as long
as they do not sign for the contract and call `eosio` for themselves, it never has less. -/
theorem staking_lossless {s₀ : State Tables} {txs : List (List Action)} (hstart : site.Started m s₀)
    (h : site.Runs s₀ s) {st : CurrencyStats} (hst : s.token.stat.find Symbol.EOS.code Symbol.EOS.code = some st)
    (hsym : st.supply.symbol = Symbol.EOS) (hu : u ≠ site.self) (hu' : u ≠ Name.eosio) (hram : u ≠ Name.eosio_ram)
    (hstake : u ≠ Name.eosio_stake) (hlives : Lives site u txs s s') :
    wealth m u s ≤ wealth m u s' ∧ ((∀ acts ∈ txs, OwnStake site u acts) → wealth m u s' = wealth m u s) := by
  have hm := h.minted hstart
  have heos : ∃ st, Token.Eos s.token st := ⟨st, h.eos hstart hst hsym⟩
  have hfits := h.fits hstart.fits
  clear h hstart hst
  induction hlives with
  | nil => exact ⟨le_refl _, fun _ => rfl⟩
  | @cons acts txs s s₁ s' hacts hc _ ih =>
    have hfair : site.Fair acts := hacts.elim OwnStake.fair And.left
    have hc := (folds.commits hfair.plain).1 hc
    have hm₁ := Env.minted_commits hc hm
    have heos₁ := Env.token_kept_commits throughToken Token.eos_kept hc heos
    by_cases hown : OwnStake site u acts
    · obtain ⟨l, w, rfl, hstakes, hw, -⟩ := hown
      obtain ⟨st, heos⟩ := heos
      have hmoves := own_moves hm heos hfits hu hu' (fun hx => hx.elim hram hstake) hstakes hw hc
      obtain ⟨hle, heq⟩ := ih hm₁ heos₁ hmoves.fits
      exact ⟨hmoves.wealth ▸ hle, fun hall => (heq fun acts hacts => hall acts (List.mem_cons_of_mem _ hacts)).trans
        hmoves.wealth⟩
    · obtain ⟨hmore, hfits₁⟩ := others_keep (m := m) hu hu' hfits (hacts.resolve_left hown) hc
      obtain ⟨hle, -⟩ := ih hm₁ heos₁ hfits₁
      exact ⟨le_trans hmore hle, fun hall => absurd (hall acts (List.mem_cons_self ..)) hown⟩

theorem staking_lossless_alice : Lives Tests.site Tiny.alice [[Tests.delegate], [Tests.undelegate], [Tests.reclaim]]
    Tests.swapped Tests.reclaimed ∧ Tests.reclaimed.xyz Tiny.XYZ.code Tiny.alice = 85 ∧
    wealth Tiny.max_supply Tiny.alice Tests.reclaimed = 1000 := by
  have hown : ∀ w : SysCall, w.stakes = true → w.account = Tiny.alice →
      OwnStake Tests.site Tiny.alice [⟨Tests.site.self, System.active Tiny.alice, .sys w⟩] := fun w hw hacc =>
    ⟨System.active Tiny.alice, w, rfl, hw, hacc, by decide⟩
  have hundelegate : Tests.site.Commits Tests.delegated [Tests.undelegate]
      (Tests.run Tests.delegated [Tests.undelegate]) := @Machine.commits_of_transact _ _ _ _ 20 _ _ _ rfl
  have hreclaim : Tests.site.Commits (Tests.run Tests.delegated [Tests.undelegate]) [Tests.reclaim] Tests.reclaimed :=
    @Machine.commits_of_transact _ _ _ _ 20 _ _ _ rfl
  have hlives : Lives Tests.site Tiny.alice [[Tests.delegate], [Tests.undelegate], [Tests.reclaim]] Tests.swapped
      Tests.reclaimed := .cons (.inl (hown _ rfl rfl)) Tests.commits_delegate
    (.cons (.inl (hown _ rfl rfl)) hundelegate (.cons (.inl (hown _ rfl rfl)) hreclaim .nil))
  obtain ⟨-, hsame⟩ := staking_lossless Tests.started Tests.runs_swapped Tiny.start_stat rfl (by decide) (by decide)
    (by decide) (by decide) hlives
  refine ⟨hlives, by decide, (hsame fun acts hacts => ?_).trans (by decide)⟩
  simp only [List.mem_cons, List.not_mem_nil, or_false] at hacts
  rcases hacts with rfl | rfl | rfl <;> exact hown _ rfl rfl

end Mocksys.Site

end Vaulta
