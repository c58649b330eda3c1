import Vaulta.Action
import Vaulta.MultiIndex

/-!
# The token contract

`token.entry.cpp`: the plain token that holds EOS at `eosio.token`.
-/

namespace Vaulta

structure CurrencyStats where
  supply : Asset
  max_supply : Asset
  issuer : Name
deriving DecidableEq, Repr

instance : PrimaryKey CurrencyStats SymbolCode := ⟨fun s => s.supply.symbol.code⟩

/-- The `stat` table has one scope for each ticker. -/
abbrev Stats := MultiIndex Name SymbolCode SymbolCode CurrencyStats

namespace Token

structure Account where
  balance : Asset
deriving DecidableEq, Repr

instance : PrimaryKey Account SymbolCode := ⟨fun a => a.balance.symbol.code⟩

abbrev Accounts := MultiIndex Name Name SymbolCode Account

structure Tables where
  stat : Stats
  accounts : Accounts

def Tables.empty : Tables := ⟨.empty, .empty⟩

def sub_balance (t : Accounts) (owner : Name) (value : Asset) : Except String Accounts := do
  let sender ← t.get owner value.symbol.code "no balance object found"
  check (value.amount ≤ sender.balance.amount) "overdrawn balance"
  t.modify owner value.symbol.code (some owner) fun a => do
    return { a with balance := ← a.balance.sub value }

def add_balance (t : Accounts) (owner : Name) (value : Asset) (ram_payer : Name) :
    Except String Accounts :=
  match t.find owner value.symbol.code with
  | none => t.emplace owner ram_payer ⟨value⟩
  | some _ => t.modify owner value.symbol.code none fun a => do
      return { a with balance := ← a.balance.add value }

def create (c : Ctx) (t : Tables) (issuer : Name) (maximum_supply : Asset) :
    Except String (Outcome Tables) := do
  c.require_auth c.self
  let sym := maximum_supply.symbol
  check maximum_supply.is_valid "invalid supply"
  check (0 < maximum_supply.amount) "max-supply must be positive"
  check (t.stat.find sym.code sym.code = none) "token with symbol already exists"
  let stat ← t.stat.emplace sym.code c.self
    { supply := ⟨0, sym⟩, max_supply := maximum_supply, issuer := issuer }
  return { tables := { t with stat } }

def issue (c : Ctx) (t : Tables) (recipient : Name) (quantity : Asset) (memo : Memo) :
    Except String (Outcome Tables) := do
  let sym := quantity.symbol
  check sym.is_valid "invalid symbol name"
  check (memo.length ≤ 256) "memo has more than 256 bytes"
  let st ← t.stat.get sym.code sym.code "token with symbol does not exist, create token before issue"
  check (recipient = st.issuer) "tokens can only be issued to issuer account"
  c.require_auth st.issuer
  check quantity.is_valid "invalid quantity"
  check (0 < quantity.amount) "must issue positive quantity"
  check (quantity.symbol = st.supply.symbol) "symbol precision mismatch"
  check (quantity.amount ≤ st.max_supply.amount - st.supply.amount) "quantity exceeds available supply"
  let stat ← t.stat.modify sym.code sym.code none fun s => do
    return { s with supply := ← s.supply.add quantity }
  let accounts ← add_balance t.accounts st.issuer quantity st.issuer
  return { tables := { stat, accounts } }

def get_supply (t : Tables) (sym_code : SymbolCode) : Except String Asset := do
  let st ← t.stat.get sym_code sym_code "invalid supply symbol code"
  return st.supply

def issuefixed (c : Ctx) (t : Tables) (recipient : Name) (supply : Asset) (memo : Memo) :
    Except String (Outcome Tables) := do
  let circulating_supply ← get_supply t supply.symbol.code
  check (circulating_supply.symbol = supply.symbol) "symbol precision mismatch"
  let quantity ← supply.sub circulating_supply
  issue c t recipient quantity memo

def setmaxsupply (c : Ctx) (t : Tables) (issuer : Name) (maximum_supply : Asset) :
    Except String (Outcome Tables) := do
  let sym := maximum_supply.symbol
  check maximum_supply.is_valid "invalid supply"
  check (0 < maximum_supply.amount) "max-supply must be positive"
  let st ← t.stat.get sym.code sym.code "token supply does not exist"
  check (issuer = st.issuer) "only issuer can set token maximum supply"
  c.require_auth st.issuer
  check (maximum_supply.symbol = st.supply.symbol) "symbol precision mismatch"
  check (st.supply.amount ≤ maximum_supply.amount) "max supply is less than available supply"
  let stat ← t.stat.modify sym.code sym.code none fun s =>
    return { s with max_supply := maximum_supply }
  return { tables := { t with stat } }

def retire (c : Ctx) (t : Tables) (quantity : Asset) (memo : Memo) :
    Except String (Outcome Tables) := do
  let sym := quantity.symbol
  check sym.is_valid "invalid symbol name"
  check (memo.length ≤ 256) "memo has more than 256 bytes"
  let st ← t.stat.get sym.code sym.code "token with symbol does not exist"
  c.require_auth st.issuer
  check quantity.is_valid "invalid quantity"
  check (0 < quantity.amount) "must retire positive quantity"
  check (quantity.symbol = st.supply.symbol) "symbol precision mismatch"
  let stat ← t.stat.modify sym.code sym.code none fun s => do
    return { s with supply := ← s.supply.sub quantity }
  let accounts ← sub_balance t.accounts st.issuer quantity
  return { tables := { stat, accounts } }

def transfer (c : Ctx) (t : Tables) (sender recipient : Name) (quantity : Asset) (memo : Memo) :
    Except String (Outcome Tables) := do
  check (sender ≠ recipient) "cannot transfer to self"
  c.require_auth sender
  check (c.is_account recipient) "to account does not exist"
  let sym := quantity.symbol.code
  let st ← t.stat.get sym sym "unable to find key"
  check quantity.is_valid "invalid quantity"
  check (0 < quantity.amount) "must transfer positive quantity"
  check (quantity.symbol = st.supply.symbol) "symbol precision mismatch"
  check (memo.length ≤ 256) "memo has more than 256 bytes"
  let payer := if c.has_auth recipient then recipient else sender
  let accounts ← sub_balance t.accounts sender quantity
  let accounts ← add_balance accounts recipient quantity payer
  return { tables := { t with accounts }, notified := [sender, recipient] }

def open_ (c : Ctx) (t : Tables) (owner : Name) (symbol : Symbol) (ram_payer : Name) :
    Except String (Outcome Tables) := do
  c.require_auth ram_payer
  check (c.is_account owner) "owner account does not exist"
  let sym_code := symbol.code
  let st ← t.stat.get sym_code sym_code "symbol does not exist"
  check (st.supply.symbol = symbol) "symbol precision mismatch"
  match t.accounts.find owner sym_code with
  | none => do
    let accounts ← t.accounts.emplace owner ram_payer ⟨⟨0, symbol⟩⟩
    return { tables := { t with accounts } }
  | some _ => return { tables := t }

def close (c : Ctx) (t : Tables) (owner : Name) (symbol : Symbol) : Except String (Outcome Tables) := do
  c.require_auth owner
  let it ← t.accounts.get owner symbol.code
    "Balance row already deleted or never existed. Action won't have any effect."
  check (it.balance.amount = 0) "Cannot close because the balance is not zero."
  let accounts ← t.accounts.erase owner symbol.code
  return { tables := { t with accounts } }

def apply (c : Ctx) (t : Tables) : Call → Except String (Outcome Tables)
  | .create issuer maximum_supply => create c t issuer maximum_supply
  | .issue recipient quantity memo => issue c t recipient quantity memo
  | .issuefixed recipient supply memo => issuefixed c t recipient supply memo
  | .setmaxsupply issuer maximum_supply => setmaxsupply c t issuer maximum_supply
  | .retire quantity memo => retire c t quantity memo
  | .transfer sender recipient quantity memo => transfer c t sender recipient quantity memo
  | .open_ owner symbol ram_payer => open_ c t owner symbol ram_payer
  | .close owner symbol => close c t owner symbol
  | _ => .error "unknown action"

end Token

end Vaulta
