import Vaulta.Bancor
import Vaulta.System

/-!
# The system contract of the tests

`mocksys.entry.cpp`: the contract that stands for `eosio`. It takes payments with inline
transfers, and keeps what is deposited, staked or to be refunded in tables of its own.
-/

namespace Vaulta

def Symbol.RAMCORE : Symbol := ⟨0x45524f434d4152, 4⟩
def Symbol.RAM : Symbol := ⟨0x4d4152, 0⟩
def Symbol.REX : Symbol := ⟨0x584552, 4⟩

def Name.eosio_ramfee : Name := ⟨6138663590285202592⟩

example : Name.eosio_ramfee.to_string = "eosio.ramfee" ∧
    [Symbol.RAMCORE, Symbol.RAM, Symbol.REX].map (·.code.to_string) = ["RAMCORE", "RAM", "REX"] := by decide

/-- `>=`. -/
def Asset.ge (a b : Asset) : Except String Bool := do
  check (b.symbol = a.symbol) "comparison of assets with different symbols is not allowed"
  return b.amount ≤ a.amount

namespace Mocksys

/-! ## Tables -/

structure LastAction where
  action : Name

instance : PrimaryKey LastAction Unit := ⟨fun _ => ()⟩

/-- Of the two connectors only the balances. -/
structure ExchangeState where
  supply : Asset
  base : Asset
  quote : Asset

instance : PrimaryKey ExchangeState Symbol := ⟨fun s => s.supply.symbol⟩

structure RexPool where
  total_lendable : Asset
  total_rex : Asset

instance : PrimaryKey RexPool Unit := ⟨fun _ => ()⟩

/-- A row of `rexfund`, `staked` or `unstaking`. -/
structure Fund where
  owner : Name
  balance : Asset

instance : PrimaryKey Fund Name := ⟨fun f => f.owner⟩

structure RexBalance where
  owner : Name
  matured_rex : Int64

instance : PrimaryKey RexBalance Name := ⟨fun b => b.owner⟩

/-- A row of `stakes` or `refunds`. -/
structure Weights where
  owner : Name
  net : Asset
  cpu : Asset

instance : PrimaryKey Weights Name := ⟨fun w => w.owner⟩

structure Votes where
  voter : Name
  producers : List Name

instance : PrimaryKey Votes Name := ⟨fun v => v.voter⟩

abbrev Funds := MultiIndex Name Name Name Fund

abbrev AllWeights := MultiIndex Name Name Name Weights

structure Tables where
  lastaction : MultiIndex Name Name Unit LastAction
  rammarket : MultiIndex Name Name Symbol ExchangeState
  rexpool : MultiIndex Name Name Unit RexPool
  rexfund : Funds
  rexbal : MultiIndex Name Name Name RexBalance
  staked : Funds
  unstaking : Funds
  stakes : AllWeights
  refunds : AllWeights
  votes : MultiIndex Name Name Name Votes

def Tables.empty : Tables :=
  ⟨.empty, .empty, .empty, .empty, .empty, .empty, .empty, .empty, .empty, .empty⟩

/-! ## Helpers -/

def set_last_action (c : Ctx) (t : Tables) (action : Name) : Except String Tables := do
  return { t with lastaction := ← t.lastaction.set c.self c.self ⟨action⟩ }

/-- A conversion of a double that is out of range ends the action. -/
def converted {α : Type} : Option α → Except String α
  | some n => .ok n
  | none => .error "conversion out of range"

/-- The first part of a row, or some more for one that is there. -/
def add_fund (c : Ctx) (t : Funds) (owner : Name) (amount : Asset) : Except String Funds :=
  match t.find c.self owner with
  | none => t.emplace c.self owner ⟨owner, amount⟩
  | some _ => t.modify c.self owner (some owner) fun f => do
      return { f with balance := ← f.balance.add amount }

def sub_fund (c : Ctx) (t : Funds) (owner : Name) (amount : Asset) (missing : String) : Except String Funds := do
  let itr ← t.get c.self owner missing
  check (← itr.balance.ge amount) "insufficient balance"
  t.modify c.self owner (some owner) fun f => do
    return { f with balance := ← f.balance.sub amount }

def add_weights (c : Ctx) (t : AllWeights) (owner : Name) (net cpu : Asset) : Except String AllWeights :=
  match t.find c.self owner with
  | none => t.emplace c.self owner ⟨owner, net, cpu⟩
  | some _ => t.modify c.self owner (some owner) fun w => do
      return { w with net := ← w.net.add net, cpu := ← w.cpu.add cpu }

def sub_weights (c : Ctx) (t : AllWeights) (owner : Name) (net cpu : Asset) : Except String AllWeights := do
  let itr ← t.get c.self owner "no stake found"
  check (← itr.net.ge net) "insufficient net stake"
  check (← itr.cpu.ge cpu) "insufficient cpu stake"
  t.modify c.self owner (some owner) fun w => do
    return { w with net := ← w.net.sub net, cpu := ← w.cpu.sub cpu }

def pay_in (c : Ctx) (payer : Name) (quantity : Asset) (memo : Memo) : Action :=
  System.transfer_action Name.eosio_token payer payer c.self quantity memo

def pay_out (c : Ctx) (recipient : Name) (quantity : Asset) : Action :=
  System.transfer_action Name.eosio_token c.self c.self recipient quantity []

/-! ## Names and RAM -/

def bidname (c : Ctx) (t : Tables) (bidder _newname : Name) (bid : Asset) : Except String (Outcome Tables) := do
  c.require_auth bidder
  check (bid.symbol = Symbol.EOS) "asset must be system token"
  check (0 < bid.amount) "insufficient bid"
  return { tables := ← set_last_action c t ⟨4292831259513585664⟩, inline := [pay_in c bidder bid []] }

def bidrefund (c : Ctx) (t : Tables) (bidder _newname : Name) : Except String (Outcome Tables) := do
  let bid ← Asset.make 10000 Symbol.EOS
  return { tables := ← set_last_action c t ⟨4292903715935354880⟩, inline := [pay_out c bidder bid] }

def buyram (c : Ctx) (t : Tables) (payer _receiver : Name) (quantity : Asset) :
    Except String (Outcome Tables) := do
  return { tables := ← set_last_action c t ⟨4520896354024685568⟩, inline := [pay_in c payer quantity []] }

def buyramself (c : Ctx) (t : Tables) (payer : Name) (quantity : Asset) : Except String (Outcome Tables) := do
  return { tables := ← set_last_action c t ⟨4520896367086452736⟩, inline := [pay_in c payer quantity []] }

def buyramburn (c : Ctx) (t : Tables) (payer : Name) (quantity : Asset) (memo : Memo) :
    Except String (Outcome Tables) := do
  return { tables := ← set_last_action c t ⟨4520896358231359488⟩, inline := [pay_in c payer quantity memo] }

def setrammarket (c : Ctx) (t : Tables) (ram eos : Asset) : Except String (Outcome Tables) := do
  check (ram.symbol = Symbol.RAM) "ram symbol must be RAM"
  check (eos.symbol = Symbol.EOS) "eos symbol must be EOS"
  match t.rammarket.find c.self Symbol.RAMCORE with
  | none => do
    let supply ← Asset.make 100000000000000 Symbol.RAMCORE
    let rammarket ← t.rammarket.emplace c.self c.self ⟨supply, ram, eos⟩
    return { tables := { t with rammarket } }
  | some _ => do
    let rammarket ← t.rammarket.modify c.self Symbol.RAMCORE (some c.self) fun rm =>
      return { rm with base := { rm.base with amount := ram.amount }
                       quote := { rm.quote with amount := eos.amount } }
    return { tables := { t with rammarket } }

def buyrambytes (c : Ctx) (t : Tables) (payer receiver : Name) (bytes : UInt32) :
    Except String (Outcome Tables) := do
  let itr ← t.rammarket.get c.self Symbol.RAMCORE "no RAM market"
  let cost_plus_fee ← converted (Bancor.quote itr.base.amount itr.quote.amount bytes)
  let eos_quantity ← Asset.make cost_plus_fee Symbol.EOS
  return { tables := ← set_last_action c t ⟨4520896358299381760⟩
           inline := [⟨c.self, System.active payer, .sys (.buyram payer receiver eos_quantity)⟩] }

def ram_to_tokens (t : Tables) (quantity : Asset) (symbol : Symbol) : Except String Asset := do
  let itr ← t.rammarket.get Name.eosio Symbol.RAMCORE "no RAM market"
  check (quantity.symbol ≠ symbol) "cannot convert to the same symbol"
  let out ← Asset.make 0 symbol
  if quantity.symbol = itr.base.symbol ∧ symbol = itr.quote.symbol then
    let amount ← converted (Bancor.get_bancor_output itr.base.amount itr.quote.amount quantity.amount)
    return { out with amount }
  else if quantity.symbol = itr.quote.symbol ∧ symbol = itr.base.symbol then
    let amount ← converted (Bancor.get_bancor_output itr.quote.amount itr.base.amount quantity.amount)
    return { out with amount }
  else
    .error "invalid conversion"

/-- What the seller pays on top, from the EOS that he has before the sale. -/
def ramfee (account : Name) (eos_quantity : Asset) : Except String (List Action) :=
  let fee := (eos_quantity.amount + 199) / 200
  if 0 < fee then do
    return [System.transfer_action Name.eosio_token account account Name.eosio_ramfee (← Asset.make fee Symbol.EOS) []]
  else
    return []

def ramburn (c : Ctx) (t : Tables) (_owner : Name) (_bytes : UInt32) (_memo : Memo) :
    Except String (Outcome Tables) := do
  return { tables := ← set_last_action c t ⟨13376954637488226304⟩ }

def ramtransfer (c : Ctx) (t : Tables) (_sender _recipient : Name) (_bytes : UInt32) (_memo : Memo) :
    Except String (Outcome Tables) := do
  return { tables := ← set_last_action c t ⟨13377269355920403968⟩ }

/-- It takes 32 bits of what the wrapper sends, the lower half. -/
def sellram (c : Ctx) (t : Tables) (account : Name) (bytes : Int64) : Except String (Outcome Tables) := do
  let eos_quantity ← ram_to_tokens t (← Asset.make (Int64.ofInt (bytes.toInt % 2 ^ 32)) Symbol.RAM) Symbol.EOS
  let fees ← ramfee account eos_quantity
  return { tables := ← set_last_action c t ⟨14025084013874511872⟩, inline := fees ++ [pay_out c account eos_quantity] }

/-! ## REX -/

def deposit (c : Ctx) (t : Tables) (owner : Name) (amount : Asset) : Except String (Outcome Tables) := do
  c.require_auth owner
  check (amount.symbol = Symbol.EOS) "asset must be system token"
  check (0 < amount.amount) "insufficient deposit"
  let rexfund ← add_fund c t.rexfund owner amount
  return { tables := ← set_last_action c { t with rexfund } ⟨5380477996647841792⟩, inline := [pay_in c owner amount []] }

def eos_to_rex (c : Ctx) (t : Tables) (amount : Asset) : Except String Asset := do
  let it ← t.rexpool.get c.self () "REX pool not found"
  let r0 := it.total_rex.amount.toUInt64
  let bought ← converted (Bancor.quotient_unsigned
    (Bancor.double (Bancor.of_int64 it.total_rex.amount * Bancor.of_int64 amount.amount))
    (Bancor.of_int64 it.total_lendable.amount))
  let r1 := r0 + bought
  Asset.make (r1 - r0).toInt64 Symbol.REX

def rex_to_eos (c : Ctx) (t : Tables) (rex : Int64) : Except String Asset := do
  let it ← t.rexpool.get c.self () "REX pool not found"
  let s0 := it.total_lendable.amount.toUInt64
  let r0 := it.total_rex.amount.toUInt64
  let r1 := r0 + rex.toUInt64
  let s1 ← converted (Bancor.quotient_unsigned
    (Bancor.double (Bancor.of_uint64 s0 * Bancor.of_uint64 r1)) (Bancor.of_uint64 r0))
  Asset.make (s1 - s0).toInt64 Symbol.EOS

def buyrex (c : Ctx) (t : Tables) (sender : Name) (amount : Asset) : Except String (Outcome Tables) := do
  c.require_auth sender
  let rexfund ← sub_fund c t.rexfund sender amount "no deposit found"
  let staked ← add_fund c t.staked sender (← eos_to_rex c t amount)
  return { tables := ← set_last_action c { t with rexfund, staked } ⟨4520898742026502144⟩ }

def setrex (c : Ctx) (t : Tables) (total_lendable total_rex : Asset) : Except String (Outcome Tables) := do
  let rexpool ← t.rexpool.set c.self c.self ⟨total_lendable, total_rex⟩
  return { tables := { t with rexpool } }

def add_matured (c : Ctx) (t : MultiIndex Name Name Name RexBalance) (owner : Name) (rex : Asset) :
    Except String (MultiIndex Name Name Name RexBalance) :=
  match t.find c.self owner with
  | none => t.emplace c.self owner ⟨owner, rex.amount⟩
  | some _ => t.modify c.self owner (some owner) fun b =>
      return { b with matured_rex := b.matured_rex + rex.amount }

def mvfrsavings (c : Ctx) (t : Tables) (owner : Name) (rex : Asset) : Except String (Outcome Tables) := do
  c.require_auth owner
  let staked ← sub_fund c t.staked owner rex "no staked found"
  let unstaking ← add_fund c t.unstaking owner rex
  let rexbal ← add_matured c t.rexbal owner rex
  return { tables := ← set_last_action c { t with staked, unstaking, rexbal } ⟨10869292682943606784⟩ }

def sellrex (c : Ctx) (t : Tables) (owner : Name) (rex : Asset) : Except String (Outcome Tables) := do
  c.require_auth owner
  let unstaking ← sub_fund c t.unstaking owner rex "no unstaking found"
  let eos ← rex_to_eos c t rex.amount
  let rexfund ← add_fund c t.rexfund owner eos
  return { tables := ← set_last_action c { t with unstaking, rexfund } ⟨14025084088499568640⟩ }

def withdraw (c : Ctx) (t : Tables) (owner : Name) (quantity : Asset) : Except String (Outcome Tables) := do
  c.require_auth owner
  let rexfund ← sub_fund c t.rexfund owner quantity "no deposit found"
  return { tables := ← set_last_action c { t with rexfund } ⟨16407410437513019392⟩, inline := [pay_out c owner quantity] }

/-! ## Resources -/

/-- Some custom logic for tests, for what happens when `max_payment` isn't fully taken. -/
def powerup_payment (max_payment : Asset) : Except String Asset :=
  if 10000 < max_payment.amount then Asset.make 10000 Symbol.EOS else .ok max_payment

def powerup (c : Ctx) (t : Tables) (payer _receiver : Name) (_days : UInt32) (_net_frac _cpu_frac : Int64)
    (max_payment : Asset) : Except String (Outcome Tables) := do
  c.require_auth payer
  check (max_payment.symbol = Symbol.EOS) "asset must be system token"
  check (0 < max_payment.amount) "insufficient payment"
  let quantity ← powerup_payment max_payment
  return { tables := ← set_last_action c t ⟨12481915391452381184⟩, inline := [pay_in c payer quantity []] }

def delegatebw (c : Ctx) (t : Tables) (sender _receiver : Name) (stake_net_quantity stake_cpu_quantity : Asset)
    (_transfer : Bool) : Except String (Outcome Tables) := do
  c.require_auth sender
  check (stake_net_quantity.symbol = Symbol.EOS) "net asset must be system token"
  check (stake_cpu_quantity.symbol = Symbol.EOS) "cpu asset must be system token"
  check (0 ≤ stake_net_quantity.amount) "must stake net a positive amount"
  check (0 ≤ stake_cpu_quantity.amount) "must stake cpu a positive amount"
  check (0 < stake_net_quantity.amount + stake_cpu_quantity.amount) "must stake a positive amount"
  let stakes ← add_weights c t.stakes sender stake_net_quantity stake_cpu_quantity
  let total ← stake_net_quantity.add stake_cpu_quantity
  return { tables := ← set_last_action c { t with stakes } ⟨5378043540636893184⟩, inline := [pay_in c sender total []] }

def undelegatebw (c : Ctx) (t : Tables) (sender _receiver : Name) (unstake_net_quantity unstake_cpu_quantity : Asset) :
    Except String (Outcome Tables) := do
  c.require_auth sender
  check (unstake_net_quantity.symbol = Symbol.EOS) "net asset must be system token"
  check (unstake_cpu_quantity.symbol = Symbol.EOS) "cpu asset must be system token"
  check (0 ≤ unstake_net_quantity.amount) "must unstake net a positive amount"
  check (0 ≤ unstake_cpu_quantity.amount) "must unstake cpu a positive amount"
  check (0 < unstake_net_quantity.amount + unstake_cpu_quantity.amount) "must unstake a positive amount"
  let stakes ← sub_weights c t.stakes sender unstake_net_quantity unstake_cpu_quantity
  let refunds ← add_weights c t.refunds sender unstake_net_quantity unstake_cpu_quantity
  return { tables := ← set_last_action c { t with stakes, refunds } ⟨15335505127214321600⟩ }

def refund (c : Ctx) (t : Tables) (owner : Name) : Except String (Outcome Tables) := do
  c.require_auth owner
  let itr ← t.refunds.get c.self owner "no refund found"
  let total ← itr.net.add itr.cpu
  let refunds ← t.refunds.erase c.self owner
  return { tables := ← set_last_action c { t with refunds } ⟨13445401734377635840⟩, inline := [pay_out c owner total] }

def set_votes (c : Ctx) (t : MultiIndex Name Name Name Votes) (voter : Name) (producers : List Name) :
    Except String (MultiIndex Name Name Name Votes) :=
  match t.find c.self voter with
  | none => t.emplace c.self voter ⟨voter, producers⟩
  | some _ => t.modify c.self voter (some voter) fun v => return { v with producers }

def voteproducer (c : Ctx) (t : Tables) (voter : Name) (producers : List Name) : Except String (Outcome Tables) := do
  c.require_auth voter
  let votes ← set_votes c t.votes voter producers
  return { tables := ← set_last_action c { t with votes } ⟨15938989903989314928⟩ }

/-! ## Dispatch -/

/-- `mocksys` declares three calls with other types than the wrappers do. This is what it
reads of the data of such a call, or why it cannot. -/
structure Datastream where
  /-- 64 bits and a text, read as 32 bits and a text. -/
  bytes_memo : Int64 → Memo → Except String (UInt32 × Memo)
  /-- A proxy and producers, read as producers. -/
  producers : Name → List Name → Except String (List Name)

def apply (ds : Datastream) (c : Ctx) (t : Tables) : SysCall → Except String (Outcome Tables)
  | .bidname bidder newname bid => bidname c t bidder newname bid
  | .bidrefund bidder newname => bidrefund c t bidder newname
  | .buyram payer receiver quant => buyram c t payer receiver quant
  | .buyramself payer quant => buyramself c t payer quant
  | .buyramburn payer quantity memo => buyramburn c t payer quantity memo
  | .buyrambytes payer receiver bytes => buyrambytes c t payer receiver bytes
  | .ramburn owner bytes memo => do
    let (bytes, memo) ← ds.bytes_memo bytes memo
    ramburn c t owner bytes memo
  | .ramtransfer sender recipient bytes memo => do
    let (bytes, memo) ← ds.bytes_memo bytes memo
    ramtransfer c t sender recipient bytes memo
  | .sellram account bytes => sellram c t account bytes
  | .deposit owner amount => deposit c t owner amount
  | .buyrex sender amount => buyrex c t sender amount
  | .mvfrsavings owner rex => mvfrsavings c t owner rex
  | .sellrex sender rex => sellrex c t sender rex
  | .withdraw owner amount => withdraw c t owner amount
  | .powerup payer receiver days net_frac cpu_frac max_payment =>
    powerup c t payer receiver days net_frac cpu_frac max_payment
  | .delegatebw sender receiver net cpu transfer => delegatebw c t sender receiver net cpu transfer
  | .undelegatebw sender receiver net cpu => undelegatebw c t sender receiver net cpu
  | .refund owner => refund c t owner
  | .voteproducer voter proxy producers => do
    voteproducer c t voter (← ds.producers proxy producers)
  | _ => .error "unknown action"

/-- Whether a call is one of these. -/
def takes : SysCall → Bool
  | .bidname .. | .bidrefund .. | .buyram .. | .buyramself .. | .buyramburn .. | .buyrambytes .. | .ramburn ..
  | .ramtransfer .. | .sellram .. | .deposit .. | .buyrex .. | .mvfrsavings .. | .sellrex .. | .withdraw .. | .powerup ..
  | .delegatebw .. | .undelegatebw .. | .refund .. | .voteproducer .. => true
  | _ => false

example : [4292831259513585664, 4292903715935354880, 4520896354024685568, 4520896367086452736, 4520896358231359488,
    4520896358299381760, 13376954637488226304, 13377269355920403968, 14025084013874511872, 5380477996647841792,
    4520898742026502144, 10869292682943606784, 14025084088499568640, 16407410437513019392, 12481915391452381184,
    5378043540636893184, 15335505127214321600, 13445401734377635840, 15938989903989314928].map
      (fun n => (Name.mk n).to_string) =
    ["bidname", "bidrefund", "buyram", "buyramself", "buyramburn", "buyrambytes", "ramburn", "ramtransfer", "sellram",
      "deposit", "buyrex", "mvfrsavings", "sellrex", "withdraw", "powerup", "delegatebw", "undelegatebw", "refund",
      "voteproducer"] := by decide

end Mocksys

end Vaulta
