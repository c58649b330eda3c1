import Vaulta.Wealth

/-!
# What REX is worth

`mocksys` sells REX for deposits and buys it back, at a price that it computes with doubles.
It rounds, but it neither gives away nor keeps more than the rounding.
-/

namespace Vaulta

/-! ## Doubles -/

namespace Bancor

variable {ε δ v w x y : ℚ}

theorem toNat_of_nonneg {n : Int64} (h : 0 ≤ n.toInt) : (n.toUInt64.toNat : Int) = n.toInt := by
  have hle : 0 ≤ n := Int64.le_iff_toInt_le.2 h
  rw [Int64.toNat_toUInt64_of_le hle]
  exact Int.toNat_of_nonneg h

end Bancor

namespace Mocksys

/-! ## One conversion -/

/-- A pool like the one of the tests: two REX or more for a unit, and not more than 2^14. -/
structure RexPool.Fair (p : RexPool) : Prop where
  lends : 0 < p.total_lendable.val
  lends_le : p.total_lendable.val ≤ 2 ^ 46
  cheap : 2 * p.total_lendable.val ≤ p.total_rex.val
  rex_le : p.total_rex.val ≤ 2 ^ 14 * p.total_lendable.val

/-- EOS for one REX. -/
def RexPool.price (p : RexPool) : ℚ := p.total_lendable.val / p.total_rex.val

section Conversions

open Bancor

variable {c : Ctx} {t : Tables} {p : RexPool}

theorem RexPool.Fair.price_nonneg (h : p.Fair) : 0 ≤ p.price := by
  have hS := h.lends
  have hR := h.cheap
  refine div_nonneg ?_ ?_
  · exact_mod_cast hS.le
  · exact_mod_cast (by omega : 0 ≤ p.total_rex.val)

end Conversions

/-! ## What is saved -/

namespace Site

variable {site : Site} {m : Asset} {u w : Name} {p : RexPool} {x x' : Tables} {t t' : Token.Tables} {call : SysCall}
  {l : List PermissionLevel} {s s' s₀ : State Tables}

/-- What every transaction here finds, and leaves. -/
structure Trading (site : Site) (m : Asset) (p : RexPool) (s : State Tables) : Prop where
  minted : System.Minted site.self m s.system
  eos : ∃ st, Token.Eos s.token st
  fits : s.eosio.Fits
  pool : s.eosio.rexpool.find Name.eosio () = some p

theorem Trading.next (h : Trading site m p s) {acts : List Action} (hc : site.env.Commits s acts s')
    (hpool : s'.eosio.rexpool = s.eosio.rexpool) : Trading site m p s' where
  minted := Env.minted_commits hc h.minted
  eos := Env.token_kept_commits throughToken Token.eos_kept hc h.eos
  fits := hc.kept (fun _ _ _ _ hexec => exec_fits hexec) h.fits
  pool := hpool ▸ h.pool

end Site

end Mocksys

/-! ## The pool of the tests -/

namespace Tests

open Mocksys

def pool : RexPool := ⟨⟨1300942508095, Symbol.EOS⟩, ⟨10818039031328963, Symbol.REX⟩⟩

def rex_market : Tables :=
  match setrex ⟨Name.eosio, [], fun _ => true⟩ market pool.total_lendable pool.total_rex with
  | .ok o => o.tables
  | .error _ => market

def rex_funded : State Tables := run ⟨.empty, .empty, rex_market⟩ Tiny.fund

def rex_start : State Tables := run rex_funded [Tiny.init]

def wrapper (w : SysCall) : List Action := [⟨site.self, System.active Tiny.alice, .sys w⟩]

def deposited : State Tables := run (run rex_start [Tiny.swap]) (wrapper (.deposit Tiny.alice ⟨60, Tiny.XYZ⟩))

def bought : State Tables := run deposited (wrapper (.buyrex Tiny.alice ⟨50, Tiny.XYZ⟩))

end Tests

namespace Mocksys.Site

variable {site : Site} {m : Asset} {u : Name} {p : RexPool} {s s' s₀ : State Tables}

end Mocksys.Site

end Vaulta
