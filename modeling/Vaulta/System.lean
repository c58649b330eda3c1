import Vaulta.Token

/-!
# The system contract

`system.entry.cpp`: the XYZ token, the swap between EOS and XYZ, and the wrapper
around the actions of `eosio`.
-/

namespace Vaulta.System

structure Account where
  balance : Asset
  released : Bool := false
deriving DecidableEq, Repr

instance : PrimaryKey Account SymbolCode := ⟨fun a => a.balance.symbol.code⟩

structure Config where
  token_symbol : Symbol
deriving DecidableEq, Repr

instance : PrimaryKey Config Unit := ⟨fun _ => ()⟩

structure BlockedRecipient where
  account : Name
deriving DecidableEq, Repr

instance : PrimaryKey BlockedRecipient Name := ⟨fun b => b.account⟩

abbrev Accounts := MultiIndex Name Name SymbolCode Account

structure Tables where
  config : MultiIndex Name Name Unit Config
  stat : Stats
  accounts : Accounts
  blocked : MultiIndex Name Name Name BlockedRecipient

def Tables.empty : Tables := ⟨.empty, .empty, .empty, .empty⟩

/-- What the contract reads of other contracts: the tables of `eosio.token`, and the
price of RAM with its fee. The price is computed in floating point from the RAM market
of `eosio`, and nothing here depends on which price it is. -/
structure View extends Ctx where
  eos : Token.Tables
  cost_plus_fee : UInt32 → Int64

/-! ## The actions it sends -/

def active (account : Name) : List PermissionLevel := [⟨account, Name.active⟩]

def transfer_action (code auth sender recipient : Name) (quantity : Asset) (memo : Memo) : Action :=
  ⟨code, active auth, .transfer sender recipient quantity memo⟩

def swaptrace_action (c : Ctx) (account : Name) (quantity : Asset) : Action :=
  ⟨c.self, active c.self, .swaptrace account quantity⟩

def swapexcess_action (c : Ctx) (account : Name) (eos_before : Asset) : Action :=
  ⟨c.self, active c.self, .swapexcess account eos_before⟩

def enforcebal_action (c : Ctx) (account : Name) (expected_eos_balance : Asset) : Action :=
  ⟨c.self, active account, .enforcebal account expected_eos_balance⟩

def sys_action (account : Name) (call : SysCall) : Action :=
  ⟨Name.eosio, active account, .sys call⟩

/-! ## Balances -/

def add_balance (c : Ctx) (t : Accounts) (owner : Name) (value : Asset) (ram_payer : Name) :
    Except String Accounts :=
  match t.find owner value.symbol.code with
  | none => t.emplace owner (if ram_payer = owner then owner else c.self) ⟨value, ram_payer = owner⟩
  | some _ => t.modify owner value.symbol.code none fun a => do
      return { a with balance := ← a.balance.add value }

def sub_balance (t : Accounts) (owner : Name) (value : Asset) : Except String Accounts := do
  let sender ← t.get owner value.symbol.code "no balance object found"
  check (value.amount ≤ sender.balance.amount) "overdrawn balance"
  if !sender.released then
    -- This clears out the RAM consumed by the scope overhead.
    let t ← t.erase owner value.symbol.code
    t.emplace owner owner ⟨← sender.balance.sub value, true⟩
  else
    t.modify owner value.symbol.code (some owner) fun a => do
      return { a with balance := ← a.balance.sub value }

/-! ## Helpers -/

def get_token_symbol (c : Ctx) (t : Tables) : Except String Symbol := do
  let cfg ← t.config.get c.self () "Contract is not initialized"
  return cfg.token_symbol

def enforce_symbol (c : Ctx) (t : Tables) (quantity : Asset) : Except String Unit := do
  check (quantity.symbol = (← get_token_symbol c t)) "Wrong token used"

def credit_eos_to (c : Ctx) (account : Name) (quantity : Asset) : Except String Action := do
  check (0 < quantity.amount) "Credit amount must be greater than 0"
  let swap_amount ← Asset.make quantity.amount Symbol.EOS
  return transfer_action Name.eosio_token c.self c.self account swap_amount []

def swap_before_forwarding (c : Ctx) (t : Tables) (account : Name) (quantity : Asset) :
    Except String (Accounts × List Action) := do
  check (quantity.symbol = (← get_token_symbol c t)) "Wrong token used"
  check (0 < quantity.amount) "Swap before amount must be greater than 0"
  let accounts ← sub_balance t.accounts account quantity
  let accounts ← add_balance c accounts c.self quantity c.self
  let credit ← credit_eos_to c account quantity
  return (accounts, [swaptrace_action c account quantity, credit])

def swap_after_forwarding (c : Ctx) (account : Name) (quantity : Asset) : Except String Action := do
  let swap_amount ← Asset.make quantity.amount Symbol.EOS
  check (0 < swap_amount.amount) "Swap after amount must be greater than 0"
  return transfer_action Name.eosio_token account account c.self swap_amount []

def get_eos_balance (eos : Token.Tables) (account : Name) : Asset :=
  match eos.accounts.find account Symbol.EOS.code with
  | none => ⟨0, Symbol.EOS⟩
  | some found => found.balance

/-! ## The token -/

def init (c : Ctx) (t : Tables) (maximum_supply : Asset) : Except String (Outcome Tables) := do
  c.require_auth c.self
  check (t.config.find c.self () = none) "This system contract is already initialized"
  let sym := maximum_supply.symbol
  check maximum_supply.is_valid "invalid supply"
  check (0 < maximum_supply.amount) "max-supply must be positive"
  let config ← t.config.set c.self c.self ⟨sym⟩
  let stat ← t.stat.emplace sym.code c.self
    { supply := maximum_supply, max_supply := maximum_supply, issuer := c.self }
  let accounts ← add_balance c t.accounts c.self maximum_supply c.self
  return { tables := { t with config, stat, accounts } }

def transfer (c : Ctx) (t : Tables) (sender recipient : Name) (quantity : Asset) (memo : Memo) :
    Except String (Outcome Tables) := do
  check (sender ≠ recipient) "cannot transfer to self"
  c.require_auth sender
  check (c.is_account recipient) "to account does not exist"
  let sym := quantity.symbol.code
  let st ← t.stat.get sym sym "unable to find key"
  check quantity.is_valid "invalid quantity"
  check (0 < quantity.amount) "must transfer positive quantity"
  check (quantity.symbol = st.supply.symbol) "symbol precision mismatch"
  check (memo.length ≤ 256) "memo has more than 256 bytes"
  let payer := if c.has_auth recipient then recipient else sender
  let accounts ← sub_balance t.accounts sender quantity
  let accounts ← add_balance c accounts recipient quantity payer
  let tables := { t with accounts }
  let notified := [sender, recipient]
  if recipient = c.self then
    check (quantity.symbol = (← get_token_symbol c tables)) "Wrong token used"
    return { tables, notified, inline := [← credit_eos_to c sender quantity] }
  else
    return { tables, notified }

def open_ (c : Ctx) (t : Tables) (owner : Name) (symbol : Symbol) (ram_payer : Name) :
    Except String (Outcome Tables) := do
  c.require_auth ram_payer
  check (c.is_account owner) "owner account does not exist"
  let sym_code_raw := symbol.code
  let st ← t.stat.get sym_code_raw sym_code_raw "symbol does not exist"
  check (st.supply.symbol = symbol) "symbol precision mismatch"
  match t.accounts.find owner sym_code_raw with
  | none => do
    let accounts ← t.accounts.emplace owner ram_payer ⟨⟨0, symbol⟩, ram_payer = owner⟩
    return { tables := { t with accounts } }
  | some _ => return { tables := t }

def close (c : Ctx) (t : Tables) (owner : Name) (symbol : Symbol) : Except String (Outcome Tables) := do
  c.require_auth owner
  let it ← t.accounts.get owner symbol.code
    "Balance row already deleted or never existed. Action won't have any effect."
  check (it.balance.amount = 0) "Cannot close because the balance is not zero."
  let accounts ← t.accounts.erase owner symbol.code
  return { tables := { t with accounts } }

/-! ## The swap -/

/-- Runs when `eosio.token` notifies the contract of a transfer. -/
def on_transfer (c : Ctx) (t : Tables) (sender recipient : Name) (quantity : Asset) (memo : Memo) :
    Except String (List Action) := do
  if sender = c.self ∨ recipient ≠ c.self then
    return []
  check (0 < quantity.amount) "Swap amount must be greater than 0"
  if sender = Name.eosio_ram then
    return []
  if sender = Name.eosio_stake then
    return []
  check (quantity.symbol = Symbol.EOS) "Invalid symbol"
  let swap_amount ← Asset.make quantity.amount (← get_token_symbol c t)
  return [transfer_action c.self c.self c.self sender swap_amount memo]

def blockswapto (c : Ctx) (t : Tables) (account : Name) (block : Bool) :
    Except String (Outcome Tables) := do
  -- The account owner or this contract can block or unblock an account.
  if !c.has_auth c.self then
    c.require_auth account
  match block, t.blocked.find c.self account with
  | true, none => do
    let blocked ← t.blocked.emplace c.self account ⟨account⟩
    return { tables := { t with blocked } }
  | true, some _ => return { tables := t }
  | false, none => return { tables := t }
  | false, some _ => do
    let blocked ← t.blocked.erase c.self account
    return { tables := { t with blocked } }

def swapto (c : Ctx) (t : Tables) (sender recipient : Name) (quantity : Asset) (memo : Memo) :
    Except String (Outcome Tables) := do
  c.require_auth sender
  check (t.blocked.find c.self recipient = none)
    ("Recipient is blocked from receiving swapped tokens: " ++ recipient.to_string)
  if quantity.symbol = Symbol.EOS then
    -- First swap the EOS to XYZ, then transfer the swapped XYZ to the target account.
    let swapped ← Asset.make quantity.amount (← get_token_symbol c t)
    return { tables := t, inline :=
      [transfer_action Name.eosio_token sender sender c.self quantity memo,
       transfer_action c.self sender sender recipient swapped memo] }
  else if quantity.symbol = (← get_token_symbol c t) then
    -- First swap the XYZ to EOS, then transfer the swapped EOS to the target account.
    let swapped ← Asset.make quantity.amount Symbol.EOS
    return { tables := t, inline :=
      [transfer_action c.self sender sender c.self quantity memo,
       transfer_action Name.eosio_token sender sender recipient swapped memo] }
  else
    .error "Invalid symbol"

def enforcebal (c : View) (t : Tables) (account : Name) (expected_eos_balance : Asset) :
    Except String (Outcome Tables) := do
  let eos_balance := get_eos_balance c.eos account
  check (eos_balance = expected_eos_balance)
    ("EOS balance mismatch: " ++ eos_balance.to_string ++ " != " ++ expected_eos_balance.to_string)
  return { tables := t }

def swapexcess (c : View) (t : Tables) (account : Name) (eos_before : Asset) :
    Except String (Outcome Tables) := do
  c.require_auth c.self
  let eos_after := get_eos_balance c.eos account
  if ← eos_after.gt eos_before then
    let excess ← eos_after.sub eos_before
    return { tables := t, inline := [← swap_after_forwarding c.toCtx account excess] }
  else
    return { tables := t }

def swaptrace (c : Ctx) (t : Tables) (_account : Name) (_quantity : Asset) :
    Except String (Outcome Tables) := do
  c.require_auth c.self
  return { tables := t }

/-! ## The wrapper

Most of its actions have one of four shapes, which the definitions here share. -/

/-- Authenticate, and pass the call on. -/
def forward (c : Ctx) (t : Tables) (account : Name) (call : SysCall) :
    Except String (Outcome Tables) := do
  c.require_auth account
  return { tables := t, inline := [sys_action account call] }

/-- Authenticate, swap `quantity` to EOS, and pass the call on. -/
def swap_and_forward (c : Ctx) (t : Tables) (account : Name) (quantity : Except String Asset)
    (call : Except String SysCall) : Except String (Outcome Tables) := do
  c.require_auth account
  let (accounts, swap) ← swap_before_forwarding c t account (← quantity)
  return { tables := { t with accounts }, inline := swap ++ [sys_action account (← call)] }

/-- Authenticate, check the symbols, and pass the call on. -/
def enforce_and_forward (c : Ctx) (t : Tables) (account : Name) (quantities : List Asset)
    (call : Except String SysCall) : Except String (Outcome Tables) := do
  c.require_auth account
  quantities.forM (enforce_symbol c t)
  return { tables := t, inline := [sys_action account (← call)] }

/-- Authenticate, pass the call on, and swap what it pays out to XYZ. -/
def forward_and_swap_excess (c : View) (t : Tables) (account : Name) (call : SysCall) :
    Except String (Outcome Tables) := do
  c.require_auth account
  let eos_balance := get_eos_balance c.eos account
  return { tables := t, inline := [sys_action account call, swapexcess_action c.toCtx account eos_balance] }

def to_eos (quantity : Asset) : Except String Asset := Asset.make quantity.amount Symbol.EOS

def bidname (c : Ctx) (t : Tables) (bidder newname : Name) (bid : Asset) :=
  swap_and_forward c t bidder (.ok bid) do return .bidname bidder newname (← to_eos bid)

def bidrefund (c : View) (t : Tables) (bidder newname : Name) :=
  forward_and_swap_excess c t bidder (.bidrefund bidder newname)

def buyram (c : Ctx) (t : Tables) (payer receiver : Name) (quant : Asset) :=
  swap_and_forward c t payer (.ok quant) do return .buyram payer receiver (← to_eos quant)

def buyramburn (c : Ctx) (t : Tables) (payer : Name) (quantity : Asset) (memo : Memo) :=
  swap_and_forward c t payer (.ok quantity) do return .buyramburn payer (← to_eos quantity) memo

def buyrambytes (c : View) (t : Tables) (payer receiver : Name) (bytes : UInt32) :
    Except String (Outcome Tables) := do
  c.require_auth payer
  let cost ← Asset.make (c.cost_plus_fee bytes) (← get_token_symbol c.toCtx t)
  let (accounts, swap) ← swap_before_forwarding c.toCtx t payer cost
  -- The user's balance should not have changed from the amount it was before
  -- any swaps took place.
  return { tables := { t with accounts }, inline := swap ++
    [sys_action payer (.buyrambytes payer receiver bytes),
     enforcebal_action c.toCtx payer (get_eos_balance c.eos payer)] }

def buyramself (c : Ctx) (t : Tables) (payer : Name) (quant : Asset) :=
  swap_and_forward c t payer (.ok quant) do return .buyramself payer (← to_eos quant)

def ramburn (c : Ctx) (t : Tables) (owner : Name) (bytes : Int64) (memo : Memo) :=
  forward c t owner (.ramburn owner bytes memo)

def ramtransfer (c : Ctx) (t : Tables) (sender recipient : Name) (bytes : Int64) (memo : Memo) :=
  forward c t sender (.ramtransfer sender recipient bytes memo)

def sellram (c : View) (t : Tables) (account : Name) (bytes : Int64) :=
  forward_and_swap_excess c t account (.sellram account bytes)

def deposit (c : Ctx) (t : Tables) (owner : Name) (amount : Asset) :=
  swap_and_forward c t owner (.ok amount) do return .deposit owner (← to_eos amount)

/-- No swap here: the EOS is already deposited. -/
def buyrex (c : Ctx) (t : Tables) (sender : Name) (amount : Asset) :=
  enforce_and_forward c t sender [amount] do return .buyrex sender (← to_eos amount)

def mvfrsavings (c : Ctx) (t : Tables) (owner : Name) (rex : Asset) :=
  forward c t owner (.mvfrsavings owner rex)

def mvtosavings (c : Ctx) (t : Tables) (owner : Name) (rex : Asset) :=
  forward c t owner (.mvtosavings owner rex)

def sellrex (c : Ctx) (t : Tables) (sender : Name) (rex : Asset) :=
  forward c t sender (.sellrex sender rex)

def withdraw (c : Ctx) (t : Tables) (owner : Name) (amount : Asset) :
    Except String (Outcome Tables) := do
  c.require_auth owner
  enforce_symbol c t amount
  let eos ← to_eos amount
  return { tables := t, inline :=
    [sys_action owner (.withdraw owner eos), ← swap_after_forwarding c owner eos] }

def newaccount (c : Ctx) (t : Tables) (creator name : Name) (owner active : Authority) :=
  forward c t creator (.newaccount creator name owner active)

def newaccount2 (c : Ctx) (t : Tables) (creator name : Name) (key : PublicKey) :=
  let auth : Authority := { threshold := 1, keys := [{ key, weight := 1 }] }
  forward c t creator (.newaccount creator name auth auth)

def powerup (c : View) (t : Tables) (payer receiver : Name) (days : UInt32) (net_frac cpu_frac : Int64)
    (max_payment : Asset) : Except String (Outcome Tables) := do
  c.require_auth payer
  -- Read before the swap: what is above it afterwards is swapped back.
  let eos_balance_before_swap := get_eos_balance c.eos payer
  let (accounts, swap) ← swap_before_forwarding c.toCtx t payer max_payment
  let eos_payment ← to_eos max_payment
  return { tables := { t with accounts }, inline := swap ++
    [sys_action payer (.powerup payer receiver days net_frac cpu_frac eos_payment),
     swapexcess_action c.toCtx payer eos_balance_before_swap] }

def delegatebw (c : Ctx) (t : Tables) (sender receiver : Name)
    (stake_net_quantity stake_cpu_quantity : Asset) (transfer : Bool) :=
  swap_and_forward c t sender (stake_net_quantity.add stake_cpu_quantity) do
    return .delegatebw sender receiver (← to_eos stake_net_quantity) (← to_eos stake_cpu_quantity) transfer

def undelegatebw (c : Ctx) (t : Tables) (sender receiver : Name)
    (unstake_net_quantity unstake_cpu_quantity : Asset) :=
  enforce_and_forward c t sender [unstake_cpu_quantity, unstake_net_quantity] do
    return .undelegatebw sender receiver (← to_eos unstake_net_quantity) (← to_eos unstake_cpu_quantity)

def voteproducer (c : Ctx) (t : Tables) (voter proxy : Name) (producers : List Name) :=
  forward c t voter (.voteproducer voter proxy producers)

def voteupdate (c : Ctx) (t : Tables) (voter_name : Name) :=
  forward c t voter_name (.voteupdate voter_name)

def unstaketorex (c : Ctx) (t : Tables) (owner receiver : Name) (from_net from_cpu : Asset) :=
  enforce_and_forward c t owner [from_net, from_cpu] do
    return .unstaketorex owner receiver (← to_eos from_net) (← to_eos from_cpu)

def refund (c : View) (t : Tables) (owner : Name) :=
  forward_and_swap_excess c t owner (.refund owner)

def claimrewards (c : View) (t : Tables) (owner : Name) :=
  forward_and_swap_excess c t owner (.claimrewards owner)

def linkauth (c : Ctx) (t : Tables) (account code type requirement : Name)
    (authorized_by : Option Name) :=
  forward c t account (.linkauth account code type requirement authorized_by)

def unlinkauth (c : Ctx) (t : Tables) (account code type : Name) (authorized_by : Option Name) :=
  forward c t account (.unlinkauth account code type authorized_by)

def updateauth (c : Ctx) (t : Tables) (account permission parent : Name) (auth : Authority)
    (authorized_by : Option Name) :=
  forward c t account (.updateauth account permission parent auth authorized_by)

def deleteauth (c : Ctx) (t : Tables) (account permission : Name) (authorized_by : Option Name) :=
  forward c t account (.deleteauth account permission authorized_by)

def setabi (c : Ctx) (t : Tables) (account : Name) (abi : List UInt8) (memo : Option Memo) :=
  forward c t account (.setabi account abi memo)

def setcode (c : Ctx) (t : Tables) (account : Name) (vmtype vmversion : UInt8) (code : List UInt8)
    (memo : Option Memo) :=
  forward c t account (.setcode account vmtype vmversion code memo)

def donatetorex (c : Ctx) (t : Tables) (payer : Name) (quantity : Asset) (memo : Memo) :=
  swap_and_forward c t payer (.ok quantity) do return .donatetorex payer (← to_eos quantity) memo

def giftram (c : Ctx) (t : Tables) (sender receiver : Name) (ram_bytes : Int64) (memo : Memo) :=
  forward c t sender (.giftram sender receiver ram_bytes memo)

def ungiftram (c : Ctx) (t : Tables) (sender recipient : Name) (memo : Memo) :=
  forward c t sender (.ungiftram sender recipient memo)

def noop (t : Tables) (_memo : Memo) : Except String (Outcome Tables) := return { tables := t }

def apply_sys (c : View) (t : Tables) : SysCall → Except String (Outcome Tables)
  | .bidname bidder newname bid => bidname c.toCtx t bidder newname bid
  | .bidrefund bidder newname => bidrefund c t bidder newname
  | .buyram payer receiver quant => buyram c.toCtx t payer receiver quant
  | .buyramburn payer quantity memo => buyramburn c.toCtx t payer quantity memo
  | .buyrambytes payer receiver bytes => buyrambytes c t payer receiver bytes
  | .buyramself payer quant => buyramself c.toCtx t payer quant
  | .ramburn owner bytes memo => ramburn c.toCtx t owner bytes memo
  | .ramtransfer sender recipient bytes memo => ramtransfer c.toCtx t sender recipient bytes memo
  | .sellram account bytes => sellram c t account bytes
  | .deposit owner amount => deposit c.toCtx t owner amount
  | .buyrex sender amount => buyrex c.toCtx t sender amount
  | .mvfrsavings owner rex => mvfrsavings c.toCtx t owner rex
  | .mvtosavings owner rex => mvtosavings c.toCtx t owner rex
  | .sellrex sender rex => sellrex c.toCtx t sender rex
  | .withdraw owner amount => withdraw c.toCtx t owner amount
  | .newaccount creator name owner active => newaccount c.toCtx t creator name owner active
  | .newaccount2 creator name key => newaccount2 c.toCtx t creator name key
  | .powerup payer receiver days net_frac cpu_frac max_payment =>
    powerup c t payer receiver days net_frac cpu_frac max_payment
  | .delegatebw sender receiver net cpu transfer => delegatebw c.toCtx t sender receiver net cpu transfer
  | .undelegatebw sender receiver net cpu => undelegatebw c.toCtx t sender receiver net cpu
  | .voteproducer voter proxy producers => voteproducer c.toCtx t voter proxy producers
  | .voteupdate voter_name => voteupdate c.toCtx t voter_name
  | .unstaketorex owner receiver from_net from_cpu =>
    unstaketorex c.toCtx t owner receiver from_net from_cpu
  | .refund owner => refund c t owner
  | .claimrewards owner => claimrewards c t owner
  | .linkauth account code type requirement authorized_by =>
    linkauth c.toCtx t account code type requirement authorized_by
  | .unlinkauth account code type authorized_by => unlinkauth c.toCtx t account code type authorized_by
  | .updateauth account permission parent auth authorized_by =>
    updateauth c.toCtx t account permission parent auth authorized_by
  | .deleteauth account permission authorized_by =>
    deleteauth c.toCtx t account permission authorized_by
  | .setabi account abi memo => setabi c.toCtx t account abi memo
  | .setcode account vmtype vmversion code memo => setcode c.toCtx t account vmtype vmversion code memo
  | .donatetorex payer quantity memo => donatetorex c.toCtx t payer quantity memo
  | .giftram sender receiver ram_bytes memo => giftram c.toCtx t sender receiver ram_bytes memo
  | .ungiftram sender recipient memo => ungiftram c.toCtx t sender recipient memo

def apply (c : View) (t : Tables) : Call → Except String (Outcome Tables)
  | .init maximum_supply => init c.toCtx t maximum_supply
  | .transfer sender recipient quantity memo => transfer c.toCtx t sender recipient quantity memo
  | .open_ owner symbol ram_payer => open_ c.toCtx t owner symbol ram_payer
  | .close owner symbol => close c.toCtx t owner symbol
  | .swapto sender recipient quantity memo => swapto c.toCtx t sender recipient quantity memo
  | .blockswapto account block => blockswapto c.toCtx t account block
  | .enforcebal account expected_eos_balance => enforcebal c t account expected_eos_balance
  | .swapexcess account eos_before => swapexcess c t account eos_before
  | .swaptrace account quantity => swaptrace c.toCtx t account quantity
  | .noop memo => noop t memo
  | .sys call => apply_sys c t call
  | _ => .error "unknown action"

end Vaulta.System
