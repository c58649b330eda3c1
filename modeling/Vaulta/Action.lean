import Vaulta.Chain

/-!
# Actions

The calls that the two contracts and `eosio` take, with all their arguments. The
wrapper builds the calls it forwards with its own action types, so a call says what is
asked for, and the account of the action says who is asked.
-/

namespace Vaulta

/-- A memo, as the bytes it has. -/
abbrev Memo := List UInt8

/-! ## Authorities, as `newaccount` and `updateauth` pass them on -/

/-- A public key, in the bytes it came in. -/
structure PublicKey where
  data : List UInt8
deriving DecidableEq, Repr

structure PermissionLevelWeight where
  permission : PermissionLevel
  weight : UInt16
deriving DecidableEq, Repr

structure KeyWeight where
  key : PublicKey
  weight : UInt16
deriving DecidableEq, Repr

structure WaitWeight where
  wait_sec : UInt32
  weight : UInt16
deriving DecidableEq, Repr

structure Authority where
  threshold : UInt32 := 0
  keys : List KeyWeight := []
  accounts : List PermissionLevelWeight := []
  waits : List WaitWeight := []
deriving DecidableEq, Repr

/-! ## Calls -/

/-- The calls of the "SYSTEM ACTIONS" section. The contract takes all of them, and
forwards each one to `eosio` as a call of the same type, but for `newaccount2`. An
argument that is an `Option` is a `binary_extension`, and an absent one is passed on as absent. -/
inductive SysCall
  | bidname (bidder newname : Name) (bid : Asset)
  | bidrefund (bidder newname : Name)
  | buyram (payer receiver : Name) (quant : Asset)
  | buyramburn (payer : Name) (quantity : Asset) (memo : Memo)
  | buyrambytes (payer receiver : Name) (bytes : UInt32)
  | buyramself (payer : Name) (quant : Asset)
  | ramburn (owner : Name) (bytes : Int64) (memo : Memo)
  | ramtransfer (sender recipient : Name) (bytes : Int64) (memo : Memo)
  | sellram (account : Name) (bytes : Int64)
  | deposit (owner : Name) (amount : Asset)
  | buyrex (sender : Name) (amount : Asset)
  | mvfrsavings (owner : Name) (rex : Asset)
  | mvtosavings (owner : Name) (rex : Asset)
  | sellrex (sender : Name) (rex : Asset)
  | withdraw (owner : Name) (amount : Asset)
  | newaccount (creator name : Name) (owner active : Authority)
  | newaccount2 (creator name : Name) (key : PublicKey)
  | powerup (payer receiver : Name) (days : UInt32) (net_frac cpu_frac : Int64) (max_payment : Asset)
  | delegatebw (sender receiver : Name) (stake_net_quantity stake_cpu_quantity : Asset) (transfer : Bool)
  | undelegatebw (sender receiver : Name) (unstake_net_quantity unstake_cpu_quantity : Asset)
  | voteproducer (voter proxy : Name) (producers : List Name)
  | voteupdate (voter_name : Name)
  | unstaketorex (owner receiver : Name) (from_net from_cpu : Asset)
  | refund (owner : Name)
  | claimrewards (owner : Name)
  | linkauth (account code type requirement : Name) (authorized_by : Option Name)
  | unlinkauth (account code type : Name) (authorized_by : Option Name)
  | updateauth (account permission parent : Name) (auth : Authority) (authorized_by : Option Name)
  | deleteauth (account permission : Name) (authorized_by : Option Name)
  | setabi (account : Name) (abi : List UInt8) (memo : Option Memo)
  | setcode (account : Name) (vmtype vmversion : UInt8) (code : List UInt8) (memo : Option Memo)
  | donatetorex (payer : Name) (quantity : Asset) (memo : Memo)
  | giftram (sender receiver : Name) (ram_bytes : Int64) (memo : Memo)
  | ungiftram (sender recipient : Name) (memo : Memo)

/-- Every call. `transfer`, `open_` and `close` are calls of both token contracts.
`from`, `to` and `open` are keywords here, so they are `sender`, `recipient` and `open_`. -/
inductive Call
  | init (maximum_supply : Asset)
  | transfer (sender recipient : Name) (quantity : Asset) (memo : Memo)
  | open_ (owner : Name) (symbol : Symbol) (ram_payer : Name)
  | close (owner : Name) (symbol : Symbol)
  | swapto (sender recipient : Name) (quantity : Asset) (memo : Memo)
  | blockswapto (account : Name) (block : Bool)
  | enforcebal (account : Name) (expected_eos_balance : Asset)
  | swapexcess (account : Name) (eos_before : Asset)
  | swaptrace (account : Name) (quantity : Asset)
  | noop (memo : Memo)
  | sys (call : SysCall)
  | create (issuer : Name) (maximum_supply : Asset)
  | issue (recipient : Name) (quantity : Asset) (memo : Memo)
  | issuefixed (recipient : Name) (supply : Asset) (memo : Memo)
  | setmaxsupply (issuer : Name) (maximum_supply : Asset)
  | retire (quantity : Asset) (memo : Memo)

structure Action where
  account : Name
  authorization : List PermissionLevel
  call : Call

def Action.actors (a : Action) : List Name := a.authorization.map (·.actor)

/-! ## What a contract sees -/

/-- What the chain tells a contract while it runs an action. -/
structure Ctx where
  self : Name
  authorization : List PermissionLevel
  is_account : Name → Bool

namespace Ctx

/-- Any permission of the account counts. -/
def has_auth (c : Ctx) (n : Name) : Bool := c.authorization.any (·.actor = n)

def require_auth (c : Ctx) (n : Name) : Except String Unit :=
  check (c.has_auth n) ("missing authority of " ++ n.to_string)

theorem has_auth_iff (c : Ctx) (n : Name) :
    c.has_auth n = true ↔ n ∈ c.authorization.map (·.actor) := by
  simp [has_auth]

@[simp] theorem require_auth_eq_ok {c : Ctx} {n : Name} {u : Unit} :
    c.require_auth n = .ok u ↔ c.has_auth n = true := check_eq_ok

end Ctx

/-- What an action of a contract leaves: its tables, the accounts to notify and the
actions to run next. -/
structure Outcome (T : Type) where
  tables : T
  notified : List Name := []
  inline : List Action := []

end Vaulta
