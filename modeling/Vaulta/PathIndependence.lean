import Vaulta.Agents
import Vaulta.Release
import Vaulta.Swaps

/-!
# The order of swaps

All swaps draw on the same two balances of the contract. These never run out, so whether
a swap commits, and what its user has afterwards, does not depend on what others swap.
-/

namespace Vaulta

/-! ## Swaps -/

inductive Direction
  | to_xyz
  | to_eos
deriving DecidableEq

/-- A swap that the contract answers with a payout. -/
structure Swap (contract : Name) where
  user : Name
  authorization : List PermissionLevel
  direction : Direction
  amount : Int64
  memo : Memo
  user_ne : user ≠ contract
  not_exempt : ¬ System.Exempt user

namespace Swap

variable {contract : Name}

def action (symbol : Symbol) (w : Swap contract) : Action :=
  match w.direction with
  | .to_xyz => ⟨Name.eosio_token, w.authorization, .transfer w.user contract ⟨w.amount, Symbol.EOS⟩ w.memo⟩
  | .to_eos => ⟨contract, w.authorization, .transfer w.user contract ⟨w.amount, symbol⟩ w.memo⟩

/-- The EOS that the contract gets. -/
def given (w : Swap contract) : Int :=
  match w.direction with
  | .to_xyz => w.amount.toInt
  | .to_eos => -w.amount.toInt

/-- The EOS that `u` gets. It is also the XYZ that `u` gives. -/
def gain (u : Name) (w : Swap contract) : Int :=
  (if u = contract then w.given else 0) - if u = w.user then w.given else 0

structure Reverses (w w' : Swap contract) : Prop where
  user : w'.user = w.user
  amount : w'.amount = w.amount
  direction : w'.direction ≠ w.direction

theorem Reverses.given {w w' : Swap contract} (h : w.Reverses w') : w'.given = -w.given := by
  have hdir := h.direction
  unfold Swap.given
  rw [h.amount]
  cases hw : w.direction <;> cases hw' : w'.direction <;> simp_all

theorem Reverses.gain {w w' : Swap contract} (h : w.Reverses w') (u : Name) : w.gain u + w'.gain u = 0 := by
  unfold Swap.gain
  rw [h.user, h.given]
  split <;> split <;> omega

theorem gain_other {w : Swap contract} {u : Name} (hself : u ≠ contract) (hu : w.user ≠ u) : w.gain u = 0 := by
  simp [gain, hself, Ne.symm hu]

end Swap

namespace Tiny

def alice_in : Swap env.self := ⟨alice, System.active alice, .to_xyz, 100, [], by decide, by decide⟩

def alice_out : Swap env.self := { alice_in with direction := .to_eos }

def bob_in : Swap env.self := ⟨bob, System.active bob, .to_xyz, 100, [], by decide, by decide⟩

def share : Action :=
  ⟨Name.eosio_token, System.active alice, .transfer alice bob ⟨300, Symbol.EOS⟩ []⟩

def shared : State Unit := run start [share]

def swapped : State Unit := [alice_in, bob_in, alice_out].foldl (fun s w => run s [w.action XYZ]) shared

def give_away : Action :=
  ⟨Name.eosio_token, System.active env.self, .transfer env.self bob ⟨100, Symbol.EOS⟩ []⟩

end Tiny

/-! ## What a user sees -/

/-- The EOS of a user, and his row of XYZ. -/
structure Purse where
  eos : Int
  row : Option (Stored Name System.Account)

namespace Env

variable {σ : Type} (e : Env σ)

def Swaps (m : Asset) (w : Swap e.self) (s s' : State σ) : Prop := e.Commits s [w.action m.symbol] s'

/-- Nobody sees the balances of the contract. -/
def purse (m : Asset) (s : State σ) (u : Name) : Purse :=
  if u = e.self then ⟨0, none⟩ else ⟨s.eos u, s.system.accounts.rows u m.symbol.code⟩

/-- What a swap asks of its user, and what it leaves him. -/
inductive PurseStep (m : Asset) (s₀ : State σ) (w : Swap e.self) : Purse → Purse → Prop
  | to_xyz {n : Int} {row : Option (Stored Name System.Account)} {row' : Stored Name System.Account}
      (hdir : w.direction = .to_xyz) (hasks : e.Asks s₀ w.user w.authorization ⟨w.amount, Symbol.EOS⟩ w.memo)
      (hle : w.amount.toInt ≤ n)
      (hrow : System.Credited e.self w.user ⟨w.amount, m.symbol⟩ e.self row row') :
      PurseStep m s₀ w ⟨n, row⟩ ⟨n - w.amount.toInt, some row'⟩
  | to_eos {n : Int} {r : Stored Name System.Account} {a : Asset} (hdir : w.direction = .to_eos)
      (hasks : e.Asks s₀ w.user w.authorization ⟨w.amount, m.symbol⟩ w.memo)
      (hle : w.amount.toInt ≤ r.row.balance.val) (ha : r.row.balance.sub ⟨w.amount, m.symbol⟩ = .ok a) :
      PurseStep m s₀ w ⟨n, some r⟩ ⟨n + w.amount.toInt, some ⟨⟨a, true⟩, w.user⟩⟩

/-- Between swaps that follow each other from `s₀` on. -/
structure Swapping (m : Asset) (s₀ s : State σ) : Prop where
  ready : e.Ready m s
  home : ∃ b, s.system.accounts.rows e.self m.symbol.code = some ⟨⟨b, true⟩, e.self⟩
  eosio : s.eosio = s₀.eosio
  stat : s.token.stat = s₀.token.stat
  others : ∀ u k, k ≠ m.symbol.code → s.system.accounts.rows u k = s₀.system.accounts.rows u k

variable {e} {m : Asset} {s₀ s s' : State σ} {w : Swap e.self}

theorem credited_det {contract u p : Name} {v : Asset} {r : Option (Stored Name System.Account)}
    {r₁ r₂ : Stored Name System.Account} (h1 : System.Credited contract u v p r r₁) (h2 : System.Credited contract u v p r r₂) :
    r₁ = r₂ := by
  cases h1 with
  | fresh => cases h2; rfl
  | more ha =>
    cases h2 with
    | more ha' =>
      rw [ha] at ha'
      cases ha'
      rfl

theorem purseStep_det {v v₁ v₂ : Purse} (h1 : e.PurseStep m s₀ w v v₁) (h2 : e.PurseStep m s₀ w v v₂) : v₁ = v₂ := by
  cases h1 with
  | to_xyz hdir _ _ hrow =>
    cases h2 with
    | to_xyz _ _ _ hrow' => rw [credited_det hrow hrow']
    | to_eos hdir' => rw [hdir] at hdir'; cases hdir'
  | to_eos hdir _ _ ha =>
    cases h2 with
    | to_xyz hdir' => rw [hdir] at hdir'; cases hdir'
    | to_eos _ _ _ ha' =>
      rw [ha] at ha'
      cases ha'
      rfl

theorem Asks.congr {u : Name} {l : List PermissionLevel} {q : Asset} {memo : Memo}
    (heosio : s'.eosio = s.eosio) (hstat : s'.token.stat = s.token.stat) (h : e.Asks s u l q memo) :
    e.Asks s' u l q memo :=
  ⟨h.auth, heosio ▸ h.exists_, h.pos, h.small, h.memo, hstat ▸ h.eos⟩

theorem purse_user (w : Swap e.self) (s : State σ) :
    e.purse m s w.user = ⟨s.eos w.user, s.system.accounts.rows w.user m.symbol.code⟩ :=
  if_neg w.user_ne

/-! ## One swap -/

theorem Exchanged.balances {u : Name} {q : Int} (h : e.Exchanged m u q s s') (v : Name) :
    s'.eos v = s.eos v + ((if v = e.self then q else 0) - if v = u then q else 0) ∧
    s'.xyz m.symbol.code v = s.xyz m.symbol.code v - ((if v = e.self then q else 0) - if v = u then q else 0) := by
  rw [h.eos, h.xyz, moved_apply, moved_apply]
  constructor <;> omega

theorem Ready.exchange {u : Name} {q : Int} (h : e.Ready m s) (hu : u ≠ e.self) (hex : e.Exchanged m u q s s')
    (hm : System.Minted e.self m s'.system) (hstat : s'.token.stat = s.token.stat)
    (hsound : ∀ n, (book s.token.accounts).Sound Symbol.EOS n → (book s'.token.accounts).Sound Symbol.EOS n) :
    e.Ready m s' where
  minted := hm
  eos := by
    obtain ⟨st, hst, hsym, hs, hle⟩ := h.eos
    exact ⟨st, hstat ▸ hst, hsym, hsound _ hs, hle⟩
  backed := by
    obtain ⟨heos, hxyz⟩ := hex.balances e.self
    rw [if_pos rfl, if_neg (Ne.symm hu)] at heos hxyz
    have := h.backed
    omega

theorem purse_frame {u v : Name} {q : Int} (hex : e.Exchanged m u q s s')
    (hrow : v ≠ e.self → s'.system.accounts.rows v m.symbol.code = s.system.accounts.rows v m.symbol.code)
    (hv : v ≠ u) : e.purse m s' v = e.purse m s v := by
  unfold purse
  split
  · rfl
  · rename_i hself
    obtain ⟨heos, -⟩ := hex.balances v
    rw [if_neg hself, if_neg hv, sub_zero, add_zero] at heos
    rw [heos, hrow hself]

structure SwapEffect (e : Env σ) (m : Asset) (s₀ : State σ) (w : Swap e.self) (s s' : State σ) : Prop where
  next : e.Swapping m s₀ s'
  exchanged : e.Exchanged m w.user w.given s s'
  user : e.PurseStep m s₀ w (e.purse m s w.user) (e.purse m s' w.user)
  frame : ∀ u, u ≠ w.user → e.purse m s' u = e.purse m s u

theorem swap_effect (h : e.Swapping m s₀ s) (hs : e.Swaps m w s s') : e.SwapEffect m s₀ w s s' := by
  have hm' := minted_commits hs h.ready.minted
  have hne : w.user ≠ e.self := w.user_ne
  unfold Swaps Swap.action at hs
  cases hdir : w.direction with
  | to_xyz =>
    rw [hdir] at hs
    have hgiven : w.given = w.amount.toInt := by simp only [Swap.given, hdir]
    obtain ⟨token, system, hasks, htoken, hsystem, rfl⟩ := (commits_eos_swap h.ready.minted hne w.not_exempt).1 hs
    obtain ⟨r, a, r', -, -, -, hcredit, hrows⟩ := hsystem.rows (Ne.symm hne)
    have hex := exchanged_eos hasks.pos hasks.small htoken hsystem
    refine ⟨⟨?_, ?_, h.eosio, h.stat, ?_⟩, hgiven ▸ hex, ?_, fun u hu => ?_⟩
    · exact h.ready.exchange hne hex hm' rfl fun n hs => hs.move hasks.pos hasks.small htoken.book
    · -- The contract has paid.
      exact ⟨a, by rw [hrows, MultiIndex.put_apply, if_neg fun he => hne he.1.symm, MultiIndex.put_self]⟩
    · exact fun u k hk => (hsystem.rows_other (Ne.symm hne) (.inr hk)).trans (h.others u k hk)
    · have hle := Book.move_le hasks.pos htoken.book
      obtain ⟨heos, -⟩ := hex.balances w.user
      rw [if_neg hne, if_pos rfl, zero_sub, ← sub_eq_add_neg] at heos
      rw [purse_user, purse_user, heos, hrows, MultiIndex.put_self]
      exact .to_xyz hdir (hasks.congr h.eosio.symm h.stat.symm) (by rw [State.eos_eq]; exact hle) hcredit
    · exact purse_frame hex (fun hself => hsystem.rows_other (Ne.symm hne) (.inl ⟨hself, hu⟩)) hu
  | to_eos =>
    rw [hdir] at hs
    have hgiven : w.given = -w.amount.toInt := by simp only [Swap.given, hdir]
    obtain ⟨token, system, hasks, hsystem, htoken, rfl⟩ := (commits_xyz_swap h.ready.minted hne).1 hs
    obtain ⟨r, a, r', hr, hle, ha, hcredit, hrows⟩ := hsystem.rows hne
    have hex := exchanged_xyz hasks.pos hasks.small hsystem htoken
    obtain ⟨b, hb⟩ := h.home
    refine ⟨⟨?_, ?_, h.eosio, h.stat, ?_⟩, hgiven ▸ hex, ?_, fun u hu => ?_⟩
    · have hpos : 0 < Asset.val ⟨w.amount, Symbol.EOS⟩ := hasks.pos
      exact h.ready.exchange hne hex hm' rfl fun n hs => hs.move hpos hasks.small htoken.book
    · -- The contract was paid.
      rw [hb] at hcredit
      cases hcredit with
      | @more _ b' => exact ⟨b', by rw [hrows, MultiIndex.put_self]⟩
    · exact fun u k hk => (hsystem.rows_other hne (.inr hk)).trans (h.others u k hk)
    · obtain ⟨heos, -⟩ := hex.balances w.user
      rw [if_neg hne, if_pos rfl, zero_sub, neg_neg] at heos
      rw [purse_user, purse_user, heos, hr, hrows, MultiIndex.put_apply, if_neg fun he => hne he.1,
        MultiIndex.put_self]
      exact .to_eos hdir (hasks.congr h.eosio.symm h.stat.symm) hle ha
    · exact purse_frame hex (fun hself => hsystem.rows_other hne (.inl ⟨hu, hself⟩)) hu

theorem swap_enabled (h : e.Swapping m s₀ s) {v : Purse} (hv : e.PurseStep m s₀ w (e.purse m s w.user) v) :
    ∃ s', e.Swaps m w s s' := by
  have hne : w.user ≠ e.self := w.user_ne
  rw [purse_user] at hv
  unfold Swaps Swap.action
  generalize hp : (⟨s.eos w.user, s.system.accounts.rows w.user m.symbol.code⟩ : Purse) = p at hv
  cases hv with
  | to_xyz hdir hasks hle hrow =>
    obtain ⟨rfl, -⟩ := Purse.mk.inj hp
    rw [hdir]
    have hasks := hasks.congr h.eosio h.stat
    obtain ⟨s', hs', -⟩ := h.ready.eos_swap hne w.not_exempt hasks.exists_ hasks.auth hasks.memo hasks.pos hle
    exact ⟨s', hs'⟩
  | @to_eos _ r _ hdir hasks hle ha =>
    obtain ⟨-, hrow⟩ := Purse.mk.inj hp
    rw [hdir]
    have hasks := hasks.congr h.eosio h.stat
    have hxyz : r.row.balance.val = s.xyz m.symbol.code w.user := by rw [xyz_rows, hrow]; rfl
    obtain ⟨s', hs', -⟩ := h.ready.xyz_swap hne hasks.exists_ hasks.auth hasks.memo hasks.pos (hxyz ▸ hle)
    exact ⟨s', hs'⟩

/-- So swaps of different users are independent. -/
theorem swaps_independent (e : Env σ) (m : Asset) (s₀ : State σ) :
    Agents.Independent (e.Swaps m) (e.Swapping m s₀) Swap.user (e.purse m) (e.PurseStep m s₀) where
  keeps _ _ _ h hs := (swap_effect h hs).next
  seen _ _ _ h hs := (swap_effect h hs).user
  frame _ _ _ u h hs hu := (swap_effect h hs).frame u hu
  enabled _ _ _ h hv := swap_enabled h hv
  det _ _ _ _ h1 h2 := purseStep_det h1 h2

/-! ## Any number of swaps -/

theorem swaps_balances {ws : List (Swap e.self)} (h : e.Swapping m s₀ s)
    (hr : Agents.Runs (e.Swaps m) ws s s') (u : Name) :
    s'.eos u = s.eos u + (ws.map (Swap.gain u)).sum ∧
    s'.xyz m.symbol.code u = s.xyz m.symbol.code u - (ws.map (Swap.gain u)).sum := by
  induction hr with
  | nil => simp
  | cons hs _ ih =>
    have heffect := swap_effect h hs
    obtain ⟨heos, hxyz⟩ := heffect.exchanged.balances u
    obtain ⟨heos', hxyz'⟩ := ih heffect.next
    rw [List.map_cons, List.sum_cons, heos', hxyz', heos, hxyz]
    unfold Swap.gain
    omega

theorem swapping_start (h : e.Ready m s)
    (hhome : ∃ b, s.system.accounts.rows e.self m.symbol.code = some ⟨⟨b, true⟩, e.self⟩) : e.Swapping m s s :=
  ⟨h, hhome, rfl, rfl, fun _ _ _ => rfl⟩

theorem Swapping.home_eq (h : e.Swapping m s₀ s) (h' : e.Swapping m s₀ s')
    (hxyz : s'.xyz m.symbol.code e.self = s.xyz m.symbol.code e.self) :
    s'.system.accounts.rows e.self m.symbol.code = s.system.accounts.rows e.self m.symbol.code := by
  obtain ⟨b, hb⟩ := h.home
  obtain ⟨b', hb'⟩ := h'.home
  rw [xyz_rows, xyz_rows, hb, hb'] at hxyz
  have hsymbol : ∀ {s : State σ} {b : Asset}, System.Minted e.self m s.system →
      s.system.accounts.rows e.self m.symbol.code = some ⟨⟨b, true⟩, e.self⟩ → b.symbol = m.symbol :=
    fun hm hrow => hm.only _ _ _ (book_of_find (MultiIndex.find_eq_some.2 ⟨_, hrow⟩))
  have heq : b' = b := Asset.ext_val hxyz ((hsymbol h'.ready.minted hb').trans (hsymbol h.ready.minted hb).symm)
  rw [hb, hb', heq]

theorem rows_eq {s₁ s₂ : State σ} (h₁ : e.Swapping m s₀ s₁) (h₂ : e.Swapping m s₀ s₂)
    (hxyz : s₂.xyz m.symbol.code e.self = s₁.xyz m.symbol.code e.self)
    (hpurse : ∀ u, e.purse m s₂ u = e.purse m s₁ u) :
    s₂.system.accounts.rows = s₁.system.accounts.rows := by
  funext u k
  by_cases hk : k = m.symbol.code
  · subst hk
    by_cases hu : u = e.self
    · rw [hu]
      exact h₁.home_eq h₂ hxyz
    · have := hpurse u
      unfold purse at this
      rw [if_neg hu, if_neg hu] at this
      exact (Purse.mk.inj this).2
  · rw [h₂.others u k hk, h₁.others u k hk]

/-- The same swaps, with each user's own in the same order. -/
def SameOrders (ws ws' : List (Swap e.self)) : Prop :=
  ∀ u, ws'.filter (fun w => w.user = u) = ws.filter (fun w => w.user = u)

theorem sameOrders_of_ne {w w' : Swap e.self} {ws : List (Swap e.self)} (h : w.user ≠ w'.user) :
    SameOrders (w :: w' :: ws) (w' :: w :: ws) := by
  intro u
  by_cases hu : w.user = u
  · have hu' : ¬ w'.user = u := fun h' => h (hu.trans h'.symm)
    simp [hu, hu']
  · simp [List.filter_cons, hu]

theorem swaps_reorder {ws ws' : List (Swap e.self)} (h : e.Swapping m s s) (hr : Agents.Runs (e.Swaps m) ws s s')
    (hsame : SameOrders ws ws') : ∃ s'', Agents.Runs (e.Swaps m) ws' s s'' ∧ s''.eos = s'.eos ∧
      s''.xyz m.symbol.code = s'.xyz m.symbol.code ∧ s''.system.accounts.rows = s'.system.accounts.rows := by
  have hindep := swaps_independent e m s
  obtain ⟨s'', hr', hpurse⟩ := hindep.reorder h hr hsame
  have hsum : ∀ u, (ws'.map (Swap.gain u)).sum = (ws.map (Swap.gain u)).sum := fun u =>
    ((Agents.perm_of_mine hsame).map _).sum_eq
  have heos : s''.eos = s'.eos := by
    funext u
    rw [(swaps_balances h hr' u).1, (swaps_balances h hr u).1, hsum]
  have hxyz : s''.xyz m.symbol.code = s'.xyz m.symbol.code := by
    funext u
    rw [(swaps_balances h hr' u).2, (swaps_balances h hr u).2, hsum]
  have hs' := hr.invariant hindep.keeps h
  have hs'' := hr'.invariant hindep.keeps h
  exact ⟨s'', hr', heos, hxyz, rows_eq hs' hs'' (congrFun hxyz e.self) hpurse⟩

/-- What is left of a swap of `u` and the same amount back: what is swapped `between`. -/
structure RoundTrip (e : Env σ) (m : Asset) (u : Name) (between : List (Swap e.self)) (s s' : State σ) : Prop where
  eos : ∀ v, s'.eos v = s.eos v + (between.map (Swap.gain v)).sum
  xyz : ∀ v, s'.xyz m.symbol.code v = s.xyz m.symbol.code v - (between.map (Swap.gain v)).sum
  user : (∀ x ∈ between, x.user ≠ u) →
    s'.eos u = s.eos u ∧ s'.xyz m.symbol.code u = s.xyz m.symbol.code u
  /-- To all others, and to the contract, the two swaps might as well not have been. -/
  without : (∀ x ∈ between, x.user ≠ u) → ∃ s'', Agents.Runs (e.Swaps m) between s s'' ∧ s''.eos = s'.eos ∧
    s''.xyz m.symbol.code = s'.xyz m.symbol.code

theorem swaps_reversed {w back : Swap e.self} {between : List (Swap e.self)} (h : e.Swapping m s₀ s)
    (hback : w.Reverses back) (hr : Agents.Runs (e.Swaps m) (w :: (between ++ [back])) s s') :
    e.RoundTrip m w.user between s s' := by
  have hindep := swaps_independent e m s₀
  have hsum : ∀ u, ((w :: (between ++ [back])).map (Swap.gain u)).sum = (between.map (Swap.gain u)).sum := by
    intro u
    have hzero := hback.gain u
    simp only [List.map_cons, List.map_append, List.map_nil, List.sum_cons, List.sum_append, List.sum_nil]
    omega
  have heos : ∀ u, s'.eos u = s.eos u + (between.map (Swap.gain u)).sum := fun u => by
    rw [(swaps_balances h hr u).1, hsum]
  have hxyz : ∀ u, s'.xyz m.symbol.code u = s.xyz m.symbol.code u - (between.map (Swap.gain u)).sum := fun u => by
    rw [(swaps_balances h hr u).2, hsum]
  refine ⟨heos, hxyz, fun hother => ?_, fun hother => ?_⟩
  · have hnone : (between.map (Swap.gain w.user)).sum = 0 :=
      Machine.sum_map_eq_zero fun x hx => Swap.gain_other w.user_ne (hother x hx)
    exact ⟨by rw [heos, hnone, add_zero], by rw [hxyz, hnone, sub_zero]⟩
  · -- Nobody else sees the two swaps that are left out.
    have hown : ∀ u, ∃ v, Agents.Runs (e.PurseStep m s₀) (Agents.mine Swap.user u between) (e.purse m s u) v := by
      intro u
      by_cases hu : u = w.user
      · rw [Agents.mine_eq_nil fun x hx => hu ▸ hother x hx]
        exact ⟨_, .nil⟩
      · have hrun := hindep.project h hr u
        have hback : Agents.mine Swap.user u [back] = [] :=
          Agents.mine_cons_ne (by rw [hback.user]; exact hu)
        rw [Agents.mine_cons_ne hu, Agents.mine_append, hback, List.append_nil] at hrun
        exact ⟨_, hrun⟩
    obtain ⟨s'', hr'⟩ := hindep.of_project h hown
    refine ⟨s'', hr', ?_, ?_⟩
    · funext u
      rw [(swaps_balances h hr' u).1, heos]
    · funext u
      rw [(swaps_balances h hr' u).2, hxyz]

theorem swaps_asks (hm : System.Minted e.self m s.system) (hs : e.Swaps m w s s') :
    ∃ st, s.token.stat.find Symbol.EOS.code Symbol.EOS.code = some st ∧ st.supply.symbol = Symbol.EOS := by
  unfold Swaps Swap.action at hs
  cases hdir : w.direction with
  | to_xyz =>
    rw [hdir] at hs
    obtain ⟨-, -, hasks, -⟩ := (commits_eos_swap hm w.user_ne w.not_exempt).1 hs
    exact hasks.eos
  | to_eos =>
    rw [hdir] at hs
    obtain ⟨-, -, hasks, -⟩ := (commits_xyz_swap hm w.user_ne).1 hs
    exact hasks.eos

/-- **Swaps are path independent.** Take any state between transactions in which there is
no more EOS than `init` issued XYZ, and swaps that commit one after the other. In any
other order that keeps each user's own they commit too, and lead to the same EOS, the
same XYZ and the same rows. Nobody has more or less of both tokens together. A swap and,
anywhere later, the same amount back leave every balance as the swaps in between do. -/
theorem swaps_path_independent (hkeeps : e.KeepsSelf) (ht : e.ThroughToken) {trace : List Queued}
    (hinit : e.Initialised m s₀) (h : e.After s₀ ⟨s, [], trace⟩)
    (hsupply : ∀ st, s.token.stat.find Symbol.EOS.code Symbol.EOS.code = some st → st.supply.val ≤ m.val)
    {ws : List (Swap e.self)} (hr : Agents.Runs (e.Swaps m) ws s s') :
    (∀ ws', SameOrders ws ws' → ∃ s'', Agents.Runs (e.Swaps m) ws' s s'' ∧ s''.eos = s'.eos ∧
      s''.xyz m.symbol.code = s'.xyz m.symbol.code ∧ s''.system.accounts.rows = s'.system.accounts.rows) ∧
    (∀ u, s'.eos u + s'.xyz m.symbol.code u = s.eos u + s.xyz m.symbol.code u) ∧
    ∀ earlier w between back later, w.Reverses back → ws = earlier ++ w :: (between ++ [back]) ++ later →
      ∃ s₁ s₂, Agents.Runs (e.Swaps m) earlier s s₁ ∧ Agents.Runs (e.Swaps m) (w :: (between ++ [back])) s₁ s₂ ∧
        Agents.Runs (e.Swaps m) later s₂ s' ∧ e.RoundTrip m w.user between s₁ s₂ := by
  have hm := after_minted hinit h
  cases hr with
  | nil =>
    refine ⟨fun ws' hsame => ?_, fun _ => rfl, ?_⟩
    · rw [(Agents.perm_of_mine hsame).eq_nil]
      exact ⟨s, .nil, rfl, rfl, rfl⟩
    · rintro earlier w between back later - hws
      simp at hws
  | @cons w ws _ s₁ _ hw hrest =>
    -- The first swap tells that EOS is the token it should be.
    obtain ⟨st, hst, hsym⟩ := swaps_asks hm hw
    have hready := ready hkeeps ht hinit h hst hsym (hsupply st hst)
    have hstart : e.Swapping m s s := swapping_start hready (after_home hinit h)
    have hr := Agents.Runs.cons hw hrest
    refine ⟨fun ws' hsame => swaps_reorder hstart hr hsame, fun u => ?_, ?_⟩
    · obtain ⟨heos, hxyz⟩ := swaps_balances hstart hr u
      omega
    · intro earlier w' between back later hback hws
      rw [hws] at hr
      obtain ⟨s₂, hr, hlater⟩ := Agents.runs_append.1 hr
      obtain ⟨s₁, hearlier, hr⟩ := Agents.runs_append.1 hr
      have hs₁ := hearlier.invariant (swaps_independent e m s).keeps hstart
      exact ⟨s₁, s₂, hearlier, hr, hlater, swaps_reversed hs₁ hback hr⟩

theorem tiny_swaps (w : Swap Tiny.env.self) (s : State Unit)
    (h : Machine.transact Tiny.env.exec 20 s [w.action Tiny.XYZ] = some (.ok (Tiny.run s [w.action Tiny.XYZ]))) :
    Tiny.env.Swaps Tiny.max_supply w s (Tiny.run s [w.action Tiny.XYZ]) :=
  Machine.commits_of_transact h

theorem tiny_shared : ∃ trace, Tiny.env.After Tiny.start ⟨Tiny.shared, [], trace⟩ := by
  have hshare : Tiny.env.Commits Tiny.start [Tiny.share] Tiny.shared :=
    @Machine.commits_of_transact _ _ _ _ 20 _ _ _ rfl
  have hstart : Tiny.env.After Tiny.start ⟨Tiny.start, [], []⟩ := .start rfl
  exact hstart.commit (Tiny.foreign_single (by decide)) hshare

theorem tiny_round : Agents.Runs (Tiny.env.Swaps Tiny.max_supply) [Tiny.alice_in, Tiny.bob_in, Tiny.alice_out]
    Tiny.shared Tiny.swapped :=
  .cons (tiny_swaps Tiny.alice_in _ rfl) (.cons (tiny_swaps Tiny.bob_in _ rfl)
    (.cons (tiny_swaps Tiny.alice_out _ rfl) .nil))

/-- `alice` swaps and swaps back, and `bob` may swap before or in between. -/
theorem swaps_path_independent_alice : (∃ s'', Agents.Runs (Tiny.env.Swaps Tiny.max_supply)
      [Tiny.bob_in, Tiny.alice_in, Tiny.alice_out] Tiny.shared s'' ∧
      s''.system.accounts.rows = Tiny.swapped.system.accounts.rows) ∧
    Tiny.swapped.eos Tiny.alice = Tiny.shared.eos Tiny.alice := by
  obtain ⟨trace, hafter⟩ := tiny_shared
  obtain ⟨horder, -, hback⟩ := swaps_path_independent tiny_keepsSelf tiny_throughToken Tiny.initialised hafter
    (fun st hst => by cases hst; decide) tiny_round
  obtain ⟨s'', hr'', -, -, hrows⟩ := horder _ (sameOrders_of_ne (by decide))
  refine ⟨⟨s'', hr'', hrows⟩, ?_⟩
  obtain ⟨s₁, s₂, hearlier, -, hlater, htrip⟩ :=
    hback [] Tiny.alice_in [Tiny.bob_in] Tiny.alice_out [] ⟨rfl, rfl, by decide⟩ rfl
  rw [Agents.runs_nil] at hearlier hlater
  rw [hlater, ← hearlier]
  exact (htrip.user (by simp; decide)).1

/-- What the theorem does not say. If the contract signs on its own and gives away what
the XYZ are swapped back for, `alice` has to wait for `bob`. And when she swaps back, the
contract still has what `bob` swapped. -/
theorem swaps_in_order : Tiny.env.Initialised Tiny.max_supply Tiny.start ∧
    (∃ s trace s', Machine.Reach Tiny.env.exec (· = Tiny.start) (fun _ => True) ⟨s, [], trace⟩ ∧
      (∀ st, s.token.stat.find Symbol.EOS.code Symbol.EOS.code = some st → st.supply.val ≤ Tiny.max_supply.val) ∧
      Agents.Runs (Tiny.env.Swaps Tiny.max_supply) [Tiny.bob_in, Tiny.alice_out] s s' ∧
      SameOrders [Tiny.bob_in, Tiny.alice_out] [Tiny.alice_out, Tiny.bob_in] ∧
      ∀ s'', ¬ Agents.Runs (Tiny.env.Swaps Tiny.max_supply) [Tiny.alice_out, Tiny.bob_in] s s'') ∧
    ∃ s trace s', Tiny.env.After Tiny.start ⟨s, [], trace⟩ ∧
      (∀ st, s.token.stat.find Symbol.EOS.code Symbol.EOS.code = some st → st.supply.val ≤ Tiny.max_supply.val) ∧
      Agents.Runs (Tiny.env.Swaps Tiny.max_supply) [Tiny.alice_in, Tiny.bob_in, Tiny.alice_out] s s' ∧
      Tiny.alice_in.Reverses Tiny.alice_out ∧ s'.eos Tiny.env.self ≠ s.eos Tiny.env.self := by
  refine ⟨Tiny.initialised, ?_, ?_⟩
  · have hcommits : Tiny.env.Commits Tiny.start [Tiny.swap, Tiny.give_away]
        (Tiny.run Tiny.start [Tiny.swap, Tiny.give_away]) :=
      @Machine.commits_of_transact _ _ _ _ 20 _ _ _ rfl
    have hstart : Machine.Reach Tiny.env.exec (· = Tiny.start) (fun _ => True) ⟨Tiny.start, [], []⟩ := .start rfl
    obtain ⟨trace, hreach⟩ := hstart.commit trivial hcommits
    refine ⟨_, trace, _, hreach, fun st hst => by cases hst; decide,
      .cons (tiny_swaps Tiny.bob_in _ rfl) (.cons (tiny_swaps Tiny.alice_out _ rfl) .nil),
      sameOrders_of_ne (by decide), fun s'' hr => ?_⟩
    obtain ⟨s₁, hout, -⟩ := Agents.runs_cons.1 hr
    exact @Machine.not_commits_of_transact _ _ _ _ 20 _ _ _ "overdrawn balance" rfl hout
  · obtain ⟨trace, hafter⟩ := tiny_shared
    exact ⟨_, trace, _, hafter, fun st hst => by cases hst; decide, tiny_round, ⟨rfl, rfl, by decide⟩, by decide⟩

end Env

end Vaulta
