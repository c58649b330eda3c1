import Vaulta.Machine
import Vaulta.System

/-!
# The contract on its chain

The state that transactions work on, what one action does to it, and the states that
transactions can reach.
-/

namespace Vaulta

/-- The account the contract is on, and the rest of the chain: which accounts exist,
what `eosio` does with a call, and the price it takes for RAM. The state of `eosio` is
of some type `σ`, and nothing is known about it here. -/
structure Env (σ : Type) where
  self : Name
  is_account : σ → Name → Bool
  eosio : SysCall → List PermissionLevel → σ → Token.Tables → Except String (σ × Token.Tables)
  cost_plus_fee : σ → UInt32 → Int64
  self_ne_token : self ≠ Name.eosio_token
  self_ne_eosio : self ≠ Name.eosio
  self_ne_ram : self ≠ Name.eosio_ram
  self_ne_stake : self ≠ Name.eosio_stake
  self_is_account : ∀ x, is_account x self = true

structure State (σ : Type) where
  system : System.Tables
  token : Token.Tables
  eosio : σ

namespace Env

variable {σ : Type} (e : Env σ)

def ctx (s : State σ) (code : Name) (authorization : List PermissionLevel) : Ctx :=
  ⟨code, authorization, e.is_account s.eosio⟩

def view (s : State σ) (authorization : List PermissionLevel) : System.View :=
  { e.ctx s e.self authorization with eos := s.token, cost_plus_fee := e.cost_plus_fee s.eosio }

@[simp] theorem ctx_self (s : State σ) (code : Name) (l : List PermissionLevel) :
    (e.ctx s code l).self = code := rfl

@[simp] theorem view_self (s : State σ) (l : List PermissionLevel) : (e.view s l).self = e.self := rfl

@[simp] theorem view_toCtx (s : State σ) (l : List PermissionLevel) :
    (e.view s l).toCtx = e.ctx s e.self l := rfl

/-- Only the contract listens, and only to transfers of `eosio.token`. -/
def notify (s : State σ) (a : Action) (notified : List Name) : Except String (List Action) :=
  match a.call with
  | .transfer sender recipient quantity memo =>
    if e.self ∈ notified then
      System.on_transfer (e.ctx s e.self a.authorization) s.system sender recipient quantity memo
    else .ok []
  | _ => .ok []

theorem mem_actors {e : Env σ} {s : State σ} {code n : Name} {l : List PermissionLevel}
    (h : (e.ctx s code l).has_auth n = true) : n ∈ l.map (·.actor) := (Ctx.has_auth_iff _ _).1 h

/-- One action: the new state, and the actions that run next. The contract is
privileged, so nobody checks the authority of the actions it queues. -/
def exec (s : State σ) (a : Action) : Except String (State σ × List Action) :=
  if a.account = e.self then do
    let o ← System.apply (e.view s a.authorization) s.system a.call
    return ({ s with system := o.tables }, o.inline)
  else if a.account = Name.eosio_token then do
    let o ← Token.apply (e.ctx s Name.eosio_token a.authorization) s.token a.call
    let inline ← e.notify s a o.notified
    return ({ s with token := o.tables }, o.inline ++ inline)
  else if a.account = Name.eosio then
    match a.call with
    | .sys call => do
      let (eosio, token) ← e.eosio call a.authorization s.eosio s.token
      return ({ s with eosio, token }, [])
    | _ => .error "unknown action"
  else
    -- No contract there.
    .ok (s, [])

end Env

/-! ## Balances -/

def State.eos {σ : Type} (s : State σ) (u : Name) : Int :=
  ((s.token.accounts.find u Symbol.EOS.code).map (·.balance.val)).getD 0

/-- What `u` has of the contract's token with ticker `k`. -/
def State.xyz {σ : Type} (s : State σ) (k : SymbolCode) (u : Name) : Int :=
  ((s.system.accounts.find u k).map (·.balance.val)).getD 0

/-! ## Runs -/

abbrev Config (σ : Type) := Machine.Config (State σ) Action

abbrev Queued := Machine.Queued Action

namespace Env

variable {σ : Type} (e : Env σ)

abbrev Step (c c' : Config σ) : Prop := Machine.Step e.exec c c'

abbrev Commits (s : State σ) (acts : List Action) (s' : State σ) : Prop :=
  Machine.Commits e.exec s acts s'

abbrev Leaves (s : State σ) (acts : List Action) (s' : State σ) : Prop := Machine.Leaves e.exec s acts s'

/-- Both contracts start with empty tables. -/
def Genesis (s : State σ) : Prop := s.system = .empty ∧ s.token = .empty

/-- All that can ever happen: any actions, in any order, by anybody. -/
def Reachable (c : Config σ) : Prop := Machine.Reach e.exec Genesis (fun _ => True) c

/-- The contract's own authority is on none of the actions. -/
def Foreign (acts : List Action) : Prop := ∀ a ∈ acts, e.self ∉ a.actors

/-- `s` is what the successful `init` of a new contract leaves. -/
def Initialised (maximum_supply : Asset) (s : State σ) : Prop :=
  ∃ s₀ trace authorization, e.Reachable ⟨s₀, [], trace⟩ ∧
    e.exec s₀ ⟨e.self, authorization, .init maximum_supply⟩ = .ok (s, [])

/-- What can happen after that, as long as nobody else signs for the contract. -/
def After (s₀ : State σ) (c : Config σ) : Prop := Machine.Reach e.exec (· = s₀) e.Foreign c

/-- What can happen after that, whoever signs. -/
def Later (s₀ : State σ) (c : Config σ) : Prop := Machine.Reach e.exec (· = s₀) (fun _ => True) c

variable {e}

theorem After.later {s₀ : State σ} {c : Config σ} (h : e.After s₀ c) : e.Later s₀ c := h.mono fun _ _ => trivial

theorem Genesis.initialised {s₀ s₁ s : State σ} (h : Genesis s₀) {acts : List Action} (hacts : e.Commits s₀ acts s₁)
    {l : List PermissionLevel} {m : Asset} (hinit : e.exec s₁ ⟨e.self, l, .init m⟩ = .ok (s, [])) :
    e.Initialised m s := by
  have hreach : e.Reachable ⟨s₀, [], []⟩ := .start h
  obtain ⟨trace, hreach⟩ := hreach.commit trivial hacts
  exact ⟨s₁, trace, l, hreach, hinit⟩

end Env

/-! ## A small chain

Every account exists, and `eosio` accepts every call and does nothing. -/

namespace Tiny

def env : Env Unit where
  self := ⟨4985098226929388544⟩
  is_account _ _ := true
  eosio _ _ x token := .ok (x, token)
  cost_plus_fee _ _ := 0
  self_ne_token := by decide
  self_ne_eosio := by decide
  self_ne_ram := by decide
  self_ne_stake := by decide
  self_is_account _ := rfl

def alice : Name := ⟨3773036822876127232⟩

def bob : Name := ⟨4399453885987553280⟩

example : [env.self, alice, bob].map Name.to_string = ["core.vaulta", "alice", "bob"] := by decide

def XYZ : Symbol := ⟨0x5A5958, 4⟩

def max_supply : Asset := ⟨1000000, XYZ⟩

def genesis : State Unit := ⟨.empty, .empty, ()⟩

def init : Action := ⟨env.self, System.active env.self, .init max_supply⟩

theorem reach_genesis : env.Reachable ⟨genesis, [], []⟩ := .start ⟨rfl, rfl⟩

def fund : List Action :=
  [⟨Name.eosio_token, System.active Name.eosio_token, .create alice ⟨5000, Symbol.EOS⟩⟩,
   ⟨Name.eosio_token, System.active alice, .issue alice ⟨1000, Symbol.EOS⟩ []⟩]

/-- What the transaction leaves, when it commits. -/
def run (s : State Unit) (acts : List Action) : State Unit :=
  match Machine.transact env.exec 20 s acts with
  | some (.ok s') => s'
  | _ => s

def funded : State Unit := run genesis fund

def start : State Unit := run funded [init]

theorem commits_fund : env.Commits genesis fund funded := @Machine.commits_of_transact _ _ _ _ 20 _ _ _ rfl

theorem initialised : env.Initialised max_supply start := by
  have hgenesis : Env.Genesis genesis := ⟨rfl, rfl⟩
  exact hgenesis.initialised (l := System.active env.self) commits_fund rfl

theorem start_stat : start.token.stat.find Symbol.EOS.code Symbol.EOS.code =
    some ⟨⟨1000, Symbol.EOS⟩, ⟨5000, Symbol.EOS⟩, alice⟩ := rfl

theorem foreign_single {a : Action} (h : env.self ∉ a.actors) : env.Foreign [a] := by
  simpa [Env.Foreign] using h

def swap : Action :=
  ⟨Name.eosio_token, System.active alice, .transfer alice env.self ⟨100, Symbol.EOS⟩ []⟩

def give : Action := ⟨env.self, System.active alice, .transfer alice bob ⟨30, XYZ⟩ []⟩

/-- `alice` has 70 XYZ, and `bob` has 30. -/
def both : State Unit := run (run start [swap]) [give]

def block : Action := ⟨env.self, System.active bob, .blockswapto bob true⟩

def spend : Action := ⟨env.self, System.active alice, .sys (.buyramself alice ⟨40, XYZ⟩)⟩

end Tiny

end Vaulta
