import Vaulta.MockLaws
import Vaulta.Quote

/-!
# Runs of the tests

What transactions can make of the chain of the tests, with the calls as they really run.
-/

namespace Vaulta

namespace Mocksys

namespace Site

variable (site : Site)

/-- Transactions of anybody, one after the other, as long as they are fair: nobody signs for
the contract, and everybody calls `eosio` for himself. -/
inductive Runs (s : State Tables) : State Tables → Prop
  | refl : Runs s s
  | commit {s₁ s' : State Tables} {acts : List Action} (h : Runs s s₁) (hacts : site.Fair acts)
      (hc : site.Commits s₁ acts s') : Runs s s'

/-- `s` is what `init` leaves, on a chain that began with nothing in either contract and only
good amounts in the tables of `eosio`, and where all was fair before. -/
def Started (m : Asset) (s : State Tables) : Prop :=
  ∃ g s₁ l, Env.Genesis g ∧ g.eosio.Fits ∧ site.Runs g s₁ ∧
    site.exec s₁ ⟨site.self, l, .init m⟩ = .ok (s, [])

variable {site} {m : Asset} {s s' s₀ s₁ : State Tables}

/-! ## Seen from the other chain -/

theorem Runs.reach {Start : State Tables → Prop} {Admissible : List Action → Prop} (hstart : Start s₀)
    (hfair : ∀ acts, site.Fair acts → Admissible acts) (h : site.Runs s₀ s) :
    ∃ trace, Machine.Reach site.env.exec Start Admissible ⟨s, [], trace⟩ := by
  induction h with
  | refl => exact ⟨[], .start hstart⟩
  | commit _ hacts hc ih =>
    obtain ⟨trace, hreach⟩ := ih
    exact hreach.commit (hfair _ hacts) ((folds.commits hacts.plain).1 hc)

theorem folds_wrapper {w : SysCall} {l : List PermissionLevel} (hauth : w.account ∈ l.map (·.actor))
    (hself : site.self ∉ l.map (·.actor)) (htakes : takes w = true) :
    site.Commits s [⟨site.self, l, .sys w⟩] s' ↔ site.env.Commits s [⟨site.self, l, .sys w⟩] s' := by
  refine folds.commits (Fair.plain fun a ha => ?_)
  obtain rfl := List.mem_singleton.1 ha
  refine ⟨hself, fun call hcall => ?_⟩
  cases hcall
  exact ⟨htakes, fun _ => hauth⟩

theorem Fair.foreign {acts : List Action} (h : site.Fair acts) : site.env.Foreign acts := fun a ha => (h a ha).1

theorem Runs.after (h : site.Runs s₀ s) : ∃ trace, site.env.After s₀ ⟨s, [], trace⟩ :=
  h.reach rfl fun _ hacts => hacts.foreign

theorem env_exec_self {l : List PermissionLevel} {call : Call} :
    site.env.exec s ⟨site.self, l, call⟩ = site.exec s ⟨site.self, l, call⟩ :=
  (env_elsewhere site.self_ne_eosio).trans (exec_elsewhere site.self_ne_eosio).symm

theorem Started.initialised (h : site.Started m s) : site.env.Initialised m s := by
  obtain ⟨g, s₁, l, hg, -, hruns, hinit⟩ := h
  obtain ⟨trace, hreach⟩ : ∃ trace, Machine.Reach site.env.exec Env.Genesis (fun _ => True) ⟨s₁, [], trace⟩ :=
    hruns.reach hg fun _ _ => trivial
  exact ⟨s₁, trace, l, hreach, env_exec_self.trans hinit⟩

theorem exec_fits {a : Action} {queued : List Action} (h : site.env.exec s a = .ok (s', queued)) (hs : s.eosio.Fits) :
    s'.eosio.Fits := by
  cases Env.exec_effect h with
  | system | token | swap_in | nobody => exact hs
  | eosio _ _ hx => exact call_fits hx hs

theorem Runs.fits (h : site.Runs s s') (hs : s.eosio.Fits) : s'.eosio.Fits := by
  induction h with
  | refl => exact hs
  | commit _ hacts hc ih => exact ((folds.commits hacts.plain).1 hc).kept (fun _ _ _ _ hexec => exec_fits hexec) ih

theorem Started.fits (h : site.Started m s) : s.eosio.Fits := by
  obtain ⟨g, s₁, l, -, hfits, hruns, hinit⟩ := h
  exact exec_fits (env_exec_self.trans hinit) (hruns.fits hfits)

theorem Runs.minted (hstart : site.Started m s₀) (h : site.Runs s₀ s) : System.Minted site.self m s.system := by
  obtain ⟨trace, hafter⟩ := h.after
  exact Env.after_minted hstart.initialised hafter

theorem Runs.eos (hstart : site.Started m s₀) (h : site.Runs s₀ s) {st : CurrencyStats}
    (hst : s.token.stat.find Symbol.EOS.code Symbol.EOS.code = some st) (hsym : st.supply.symbol = Symbol.EOS) :
    Token.Eos s.token st := by
  obtain ⟨trace, hafter⟩ := h.after
  exact Env.later_eos throughToken hstart.initialised hafter.later hst hsym

theorem Runs.covered (hstart : site.Started m s₀) (h : site.Runs s₀ s) :
    m.val - s.xyz m.symbol.code site.self ≤ s.eos site.self := by
  have hinit := hstart.initialised
  obtain ⟨trace, hafter⟩ := h.after
  have hinv := Env.pegInv keepsSelf hinit hafter
  have hpeg := hinv.peg
  have hreceived := hinv.received
  have howed : site.env.owed ([] : List Queued) = 0 := rfl
  have hbefore : 0 ≤ s₀.eos site.self := by
    rw [State.eos_eq]
    exact (Env.after_token_sound throughToken hinit (.start rfl)).nonneg _ _
  simp only [env_self, howed] at hpeg
  simp only at hreceived
  omega

end Site

end Mocksys

namespace Tests

open Mocksys

theorem fair_fund : site.Fair Tiny.fund := by
  intro a ha
  simp only [Tiny.fund, List.mem_cons, List.not_mem_nil, or_false] at ha
  rcases ha with rfl | rfl <;> exact ⟨by decide, fun call hcall => by cases hcall⟩

theorem fair_swap : site.Fair [Tiny.swap] := fair_single (by decide) fun call hcall => by cases hcall

theorem started : site.Started Tiny.max_supply start := by
  have hfund : site.Commits genesis Tiny.fund funded := @Machine.commits_of_transact _ _ _ _ 20 _ _ _ rfl
  exact ⟨genesis, funded, System.active site.self, ⟨rfl, rfl⟩, market_fits, .commit .refl fair_fund hfund, rfl⟩

theorem runs_swapped : site.Runs start swapped := by
  have hswap : site.Commits start [Tiny.swap] swapped := @Machine.commits_of_transact _ _ _ _ 20 _ _ _ rfl
  exact .commit .refl fair_swap hswap

end Tests

namespace Mocksys.Site

variable {site : Site} {m : Asset} {s s' s₀ s₁ : State Tables}

/-! ## The peg -/

/-- **No test breaks the peg.** Whatever the accounts of the tests do, by transfers, by
wrappers and by calls of `eosio`, there is always enough EOS in the contract for the XYZ
of all the others together, as long as nobody signs for the contract and everybody calls
`eosio` for himself. -/
theorem tests_backed (hstart : site.Started m s₀) (h : site.Runs s₀ s) :
    ∑ u ∈ Finset.univ.erase site.self, s.xyz m.symbol.code u ≤ s.eos site.self := by
  have hcovered := h.covered hstart
  have htotal : ∑ u, s.xyz m.symbol.code u = m.val := by
    simp only [State.xyz_eq]
    exact (h.minted hstart).sound.total
  rw [← Finset.add_sum_erase _ _ (Finset.mem_univ site.self)] at htotal
  omega

theorem tests_backed_delegate :
    ∑ u ∈ Finset.univ.erase Tests.site.self, Tests.delegated.xyz Tiny.XYZ.code u ≤ 60 := by
  have hruns : Tests.site.Runs Tests.start Tests.delegated :=
    .commit Tests.runs_swapped Tests.fair_delegate Tests.commits_delegate
  have heos : Tests.delegated.eos Tests.site.self = 60 := by decide
  have hbacked := tests_backed Tests.started hruns
  rwa [heos] at hbacked

/-! ## RAM -/

section Ram

variable {x x' : Tables} {t t' : Token.Tables} {u receiver : Name} {bytes : UInt32} {l : List PermissionLevel}
  {itr : ExchangeState}

theorem call_buyrambytes (hmarket : x.rammarket.find Name.eosio Symbol.RAMCORE = some itr)
    (h : site.eosio (.buyrambytes u receiver bytes) l x t = .ok (x', t')) :
    ∃ n, Bancor.quote itr.base.amount itr.quote.amount bytes = some n ∧
      (book t'.accounts).amount Symbol.EOS.code =
        moved ((book t.accounts).amount Symbol.EOS.code) u Name.eosio n.toInt := by
  obtain ⟨-, hc⟩ := eosio_eq_ok.1 h
  obtain ⟨o, ho, hrest⟩ := commits_inner_call.1 hc
  simp only [apply, buyrambytes, bind_eq_ok, MultiIndex.get_eq_ok, converted_eq_ok, Asset.make_eq_ok, pure_eq_ok,
    Except.ok.injEq] at ho
  obtain ⟨itr', hitr, n, hquote, _, ⟨rfl, -⟩, tables, -, rfl⟩ := ho
  obtain rfl : itr = itr' := Option.some.inj (hmarket.symm.trans hitr)
  obtain ⟨o, ho, hrest⟩ := commits_inner_call.1 hrest
  simp only [apply, buyram, bind_eq_ok, pure_eq_ok, Except.ok.injEq] at ho
  obtain ⟨tables', -, rfl⟩ := ho
  obtain ⟨-, -, hamount⟩ := inner_transfer rfl hrest
  exact ⟨n, hquote, hamount⟩

theorem call_buyrambytes_ok (hmarket : x.rammarket.find Name.eosio Symbol.RAMCORE = some itr) {n : Int64}
    (hquote : Bancor.quote itr.base.amount itr.quote.amount bytes = some n) {st : CurrencyStats}
    (heos : Token.Eos t st) (hpos : 0 < n.toInt) (hle : n.toInt ≤ (book t.accounts).amount Symbol.EOS.code u)
    (hu : u ≠ Name.eosio) (hacc : site.is_account Name.eosio = true) :
    ∃ x' t', site.eosio (.buyrambytes u receiver bytes) (System.active u) x t = .ok (x', t') := by
  have hsmall := heos.small
  have hmax := heos.sound.amount_le u
  have hmake : Asset.make n Symbol.EOS = .ok ⟨n, Symbol.EOS⟩ :=
    Asset.make_eq_ok.2 ⟨rfl, ⟨by omega, by omega⟩, System.eos_is_valid⟩
  obtain ⟨first, hfirst⟩ := set_last_action_ok ⟨Name.eosio, System.active u, site.is_account⟩ x ⟨4520896358299381760⟩
  obtain ⟨second, hsecond⟩ := set_last_action_ok ⟨Name.eosio, System.active u, site.is_account⟩
    { x with lastaction := first } ⟨4520896354024685568⟩
  obtain ⟨⟨x', t'⟩, hpay⟩ := @inner_transfer_ok site { x with lastaction := second } t st u Name.eosio n [] heos hpos hle
    hu hacc (by decide)
  have hasked : apply site.datastream ⟨Name.eosio, System.active u, site.is_account⟩ x (.buyrambytes u receiver bytes) =
      .ok { tables := { x with lastaction := first }
            inline := [⟨Name.eosio, System.active u, .sys (.buyram u receiver ⟨n, Symbol.EOS⟩)⟩] } := by
    simp only [apply, buyrambytes, bind_eq_ok, MultiIndex.get_eq_ok, converted_eq_ok, pure_eq_ok]
    exact ⟨itr, hmarket, n, hquote, _, hmake, _, hfirst, rfl⟩
  have hbought : apply site.datastream ⟨Name.eosio, System.active u, site.is_account⟩ { x with lastaction := first }
      (.buyram u receiver ⟨n, Symbol.EOS⟩) = .ok { tables := { x with lastaction := second }
                                                   inline := [pay_in ⟨Name.eosio, System.active u, site.is_account⟩
                                                     u ⟨n, Symbol.EOS⟩ []] } := by
    simp only [apply, buyram, bind_eq_ok, pure_eq_ok]
    exact ⟨_, hsecond, rfl⟩
  have hinner : Machine.Commits site.inner ({ x with lastaction := first }, t)
      [⟨Name.eosio, System.active u, .sys (.buyram u receiver ⟨n, Symbol.EOS⟩)⟩] (x', t') :=
    commits_inner_call.2 ⟨_, hbought, hpay⟩
  exact ⟨x', t', eosio_eq_ok.2 ⟨List.mem_singleton_self _, commits_inner_call.2 ⟨_, hasked, hinner⟩⟩⟩

theorem quote_val (hmarket : s.eosio.rammarket.find Name.eosio Symbol.RAMCORE = some itr) :
    (site.env.quote m s bytes).val = ((Bancor.quote itr.base.amount itr.quote.amount bytes).getD 0).toInt := by
  change (cost_plus_fee s.eosio bytes).toInt = _
  unfold cost_plus_fee
  rw [hmarket]

/-- What a payment to `eosio` leaves, in both tokens. -/
structure Paid (site : Site) (m : Asset) (u : Name) (n : Int) (s s' : State Tables) : Prop where
  eos : s'.eos = moved s.eos site.self Name.eosio n
  xyz : s'.xyz m.symbol.code = moved (s.xyz m.symbol.code) u site.self n

structure Settled (site : Site) (m : Asset) (u : Name) (n : Int) (s s' : State Tables) : Prop
    extends Paid site m u n s s' where
  pos : 0 < n
  le : n ≤ s.xyz m.symbol.code u

theorem settled_of_commits (hm : System.Minted site.self m s.system)
    (hmarket : s.eosio.rammarket.find Name.eosio Symbol.RAMCORE = some itr) (hu : u ≠ site.self)
    (hauth : u ∈ l.map (·.actor))
    (h : site.env.Commits s [⟨site.self, l, .sys (.buyrambytes u receiver bytes)⟩] s') :
    ∃ n, Bancor.quote itr.base.amount itr.quote.amount bytes = some n ∧ Settled site m u n.toInt s s' := by
  obtain ⟨accounts, hswap, hrest⟩ := (Env.commits_buyrambytes (e := site.env) hm hauth).1 h
  have hval : (site.env.quote m s bytes).val = _ := quote_val hmarket
  have hpos := hswap.pos
  have hle := Book.move_le hpos hswap.moved.book
  have hxyz := Env.swapped_xyz hm hswap
  obtain ⟨s₁, hcredit, hrest⟩ := Machine.commits_head.1 hrest
  obtain ⟨hsystem, heosio, -, heos⟩ := Env.credited hu hcredit
  obtain ⟨s₂, queued, hcall, hrest⟩ := Machine.commits_cons.1 hrest
  obtain ⟨rfl, p, hp, rfl⟩ := env_exec_call.1 hcall
  obtain ⟨-, rfl⟩ := (Env.commits_enforcebal rfl).1 hrest
  obtain ⟨n, hquote, hpaid⟩ := call_buyrambytes (heosio ▸ hmarket) hp
  rw [hquote, Option.getD_some] at hval
  refine ⟨n, hquote, ⟨⟨?_, ?_⟩, hval ▸ hpos, ?_⟩⟩
  · have hbefore : (book s₁.token.accounts).amount Symbol.EOS.code = s₁.eos := by
      funext w
      rw [State.eos_eq]
    funext w
    rw [State.eos_token, hpaid, hbefore, heos, hval, moved_moved]
    rfl
  · funext w
    rw [State.xyz_eq, hsystem, ← hval]
    exact congrFun hxyz w
  · rw [State.xyz_eq, ← hval]
    exact hle

theorem Settled.le_reserve {n : Int64} (h : Settled site m u n.toInt s s') (hE : 0 ≤ itr.quote.amount.toInt)
    (hquote : Bancor.quote itr.base.amount itr.quote.amount bytes = some n) :
    bytes.toNat ≤ itr.base.amount.toInt := by
  -- What the market does not have costs nothing, and nothing cannot be swapped.
  by_contra hlt
  have hzero := Bancor.quote_above hE (not_le.1 hlt) hquote
  have hpos := h.pos
  omega

theorem commits_of_quote (hm : System.Minted site.self m s.system) {st : CurrencyStats} (heos : Token.Eos s.token st)
    (hcover : m.val - s.xyz m.symbol.code site.self ≤ s.eos site.self)
    (hmarket : s.eosio.rammarket.find Name.eosio Symbol.RAMCORE = some itr) (hu : u ≠ site.self)
    (hu' : u ≠ Name.eosio) (hacc : site.is_account u = true) (heosio : site.is_account Name.eosio = true)
    (hauth : u ∈ l.map (·.actor)) {n : Int64}
    (hquote : Bancor.quote itr.base.amount itr.quote.amount bytes = some n) (hpos : 0 < n.toInt)
    (hle : n.toInt ≤ s.xyz m.symbol.code u) :
    ∃ s', site.env.Commits s [⟨site.self, l, .sys (.buyrambytes u receiver bytes)⟩] s' := by
  have hval : (site.env.quote m s bytes).val = n.toInt := by rw [quote_val hmarket, hquote, Option.getD_some]
  have hpair := pair_le_total hm.sound.nonneg hu
  rw [hm.sound.total, ← State.xyz_eq, ← State.xyz_eq] at hpair
  have hnonneg : 0 ≤ s.eos u := by
    rw [State.eos_eq]
    exact heos.sound.nonneg u
  obtain ⟨accounts, hswap⟩ := Env.swapped_ok (e := site.env) (q := site.env.quote m s bytes) hm (by rfl)
    (by rw [hval]; exact hpos) (by rw [hval]; exact hle)
  obtain ⟨s₁, hcredit⟩ := Env.credit_ok (e := site.env) (q := site.env.quote m s bytes) heos hu hacc
    (by rw [hval]; exact hpos) (by rw [hval]; change n.toInt ≤ s.eos site.self; omega)
  obtain ⟨-, heosio₁, -, heos₁⟩ := Env.credited hu hcredit
  obtain ⟨st₁, hafter⟩ := Env.token_kept_commits throughToken Token.eos_kept hcredit ⟨st, heos⟩
  have hpayer := congrFun heos₁ u
  rw [env_self, moved_recipient _ (Ne.symm hu), hval] at hpayer
  obtain ⟨x, token, hcall⟩ := @call_buyrambytes_ok site s₁.eosio s₁.token u receiver bytes itr (heosio₁ ▸ hmarket) n
    hquote st₁ hafter hpos (by rw [← State.eos_eq]; omega) hu' heosio
  obtain ⟨st₂, hlast⟩ := (throughToken _ _ _ _ _ _ hcall).kept Token.eos_kept ⟨st₁, hafter⟩
  obtain ⟨n', hquote', hpaid⟩ := call_buyrambytes (heosio₁ ▸ hmarket) hcall
  obtain rfl : n = n' := Option.some.inj (hquote.symm.trans hquote')
  have hbalance : System.get_eos_balance token u = System.get_eos_balance s.token u := by
    rw [System.get_eos_balance_inj hlast heos, hpaid, moved_sender _ hu', ← State.eos_eq, ← State.eos_eq, hpayer]
    omega
  exact ⟨_, (Env.commits_quote hm hauth hu hcredit hcall).2 ⟨accounts, hswap, hbalance, rfl⟩⟩

/-- **RAM at the price of the market.** On the chain of the tests, after a fair run and with a
RAM market of any size, the wrapper `buyrambytes` of an account other than the two contracts,
which signs it, commits exactly when there is a price, it is positive, and that account has
as much XYZ. The price that the contract computes is then the one that
`eosio` takes: it goes from the contract's EOS to `eosio`, and from the account's XYZ to the
contract. More RAM than the market has is not sold. -/
theorem buyrambytes_settles (hstart : site.Started m s₀) (h : site.Runs s₀ s) {st : CurrencyStats}
    (hst : s.token.stat.find Symbol.EOS.code Symbol.EOS.code = some st) (hsym : st.supply.symbol = Symbol.EOS)
    (hmarket : s.eosio.rammarket.find Name.eosio Symbol.RAMCORE = some itr) (hu' : u ≠ Name.eosio)
    (hacc : site.is_account u = true) (heosio : site.is_account Name.eosio = true)
    (hauth : u ∈ l.map (·.actor)) (hself : site.self ∉ l.map (·.actor)) :
    ((∃ s', site.Commits s [⟨site.self, l, .sys (.buyrambytes u receiver bytes)⟩] s') ↔
      ∃ n, Bancor.quote itr.base.amount itr.quote.amount bytes = some n ∧ 0 < n.toInt ∧
        n.toInt ≤ s.xyz m.symbol.code u) ∧
    ∀ s', site.Commits s [⟨site.self, l, .sys (.buyrambytes u receiver bytes)⟩] s' →
      ∃ n, Bancor.quote itr.base.amount itr.quote.amount bytes = some n ∧
        s'.eos = moved s.eos site.self Name.eosio n.toInt ∧
        s'.xyz m.symbol.code = moved (s.xyz m.symbol.code) u site.self n.toInt ∧
        (0 ≤ itr.quote.amount.toInt → bytes.toNat ≤ itr.base.amount.toInt) := by
  have hu : u ≠ site.self := fun he => hself (he ▸ hauth)
  have hm := h.minted hstart
  have hfold : ∀ s', site.Commits s _ s' ↔ site.env.Commits s _ s' :=
    fun _ => folds_wrapper (w := .buyrambytes u receiver bytes) hauth hself rfl
  have hsettled : ∀ s', site.Commits s [⟨site.self, l, .sys (.buyrambytes u receiver bytes)⟩] s' →
      ∃ n, Bancor.quote itr.base.amount itr.quote.amount bytes = some n ∧ Settled site m u n.toInt s s' :=
    fun s' hs' => settled_of_commits hm hmarket hu hauth ((hfold s').1 hs')
  refine ⟨⟨fun ⟨s', hs'⟩ => ?_, fun ⟨n, hquote, hpos, hle⟩ => ?_⟩, fun s' hs' => ?_⟩
  · obtain ⟨n, hquote, hsettles⟩ := hsettled s' hs'
    exact ⟨n, hquote, hsettles.pos, hsettles.le⟩
  · obtain ⟨s', hs'⟩ := commits_of_quote hm (h.eos hstart hst hsym) (h.covered hstart) hmarket hu hu' hacc heosio hauth
      hquote hpos hle
    exact ⟨s', (hfold s').2 hs'⟩
  · obtain ⟨n, hquote, hsettles⟩ := hsettled s' hs'
    exact ⟨n, hquote, hsettles.eos, hsettles.xyz, fun hE => hsettles.le_reserve hE hquote⟩

theorem buyrambytes_settles_twenty : ∃ s', Tests.site.Commits Tests.swapped [⟨Tests.site.self,
    System.active Tiny.alice, .sys (.buyrambytes Tiny.alice Tiny.bob 20)⟩] s' ∧
    s'.xyz Tiny.XYZ.code Tiny.alice = 48 ∧ s'.eos Name.eosio = 52 := by
  have hquote : Bancor.quote 85450299267 223190417222 20 = some 52 := by decide +kernel
  obtain ⟨hiff, heffect⟩ := @buyrambytes_settles Tests.site Tiny.max_supply Tests.swapped Tests.start Tiny.alice Tiny.bob
    20 (System.active Tiny.alice) _ Tests.started Tests.runs_swapped _ Tiny.start_stat rfl rfl (by decide) rfl rfl
    (by decide) (by decide)
  obtain ⟨s', hs'⟩ := hiff.2 ⟨52, hquote, by decide, by decide⟩
  obtain ⟨n, hn, heos, hxyz, -⟩ := heffect s' hs'
  obtain rfl : (52 : Int64) = n := Option.some.inj (hquote.symm.trans hn)
  refine ⟨s', hs', ?_, ?_⟩
  · refine (congrFun hxyz Tiny.alice).trans ?_
    decide
  · refine (congrFun heos Name.eosio).trans ?_
    decide

end Ram

end Mocksys.Site

end Vaulta
