import Vaulta.Wrappers

/-!
# What is forwarded

Every wrapper passes one call on to `eosio`: for the account that it has authenticated,
under that account's `active` permission, and with the contract's tokens renamed to EOS.
-/

namespace Vaulta

/-! ## The calls -/

namespace SysCall

/-- The parameter whose authority a wrapper asks for. -/
def account : SysCall → Name
  | .bidname bidder .. => bidder
  | .bidrefund bidder .. => bidder
  | .buyram payer .. => payer
  | .buyramburn payer .. => payer
  | .buyrambytes payer .. => payer
  | .buyramself payer .. => payer
  | .ramburn owner .. => owner
  | .ramtransfer sender .. => sender
  | .sellram account .. => account
  | .deposit owner .. => owner
  | .buyrex sender .. => sender
  | .mvfrsavings owner .. => owner
  | .mvtosavings owner .. => owner
  | .sellrex sender .. => sender
  | .withdraw owner .. => owner
  | .newaccount creator .. => creator
  | .newaccount2 creator .. => creator
  | .powerup payer .. => payer
  | .delegatebw sender .. => sender
  | .undelegatebw sender .. => sender
  | .voteproducer voter .. => voter
  | .voteupdate voter_name => voter_name
  | .unstaketorex owner .. => owner
  | .refund owner => owner
  | .claimrewards owner => owner
  | .linkauth account .. => account
  | .unlinkauth account .. => account
  | .updateauth account .. => account
  | .deleteauth account .. => account
  | .setabi account .. => account
  | .setcode account .. => account
  | .donatetorex payer .. => payer
  | .giftram sender .. => sender
  | .ungiftram sender .. => sender

/-- The amounts that become EOS: all but those of REX. -/
def relabelled : SysCall → List Asset
  | .bidname _ _ bid => [bid]
  | .buyram _ _ quant => [quant]
  | .buyramburn _ quantity _ => [quantity]
  | .buyramself _ quant => [quant]
  | .deposit _ amount => [amount]
  | .buyrex _ amount => [amount]
  | .withdraw _ amount => [amount]
  | .powerup _ _ _ _ _ max_payment => [max_payment]
  | .delegatebw _ _ net cpu _ => [net, cpu]
  | .undelegatebw _ _ net cpu => [net, cpu]
  | .unstaketorex _ _ from_net from_cpu => [from_net, from_cpu]
  | .donatetorex _ quantity _ => [quantity]
  | _ => []

/-- What `eosio` gets. -/
def forwarded : SysCall → SysCall
  | .bidname bidder newname bid => .bidname bidder newname bid.in_eos
  | .buyram payer receiver quant => .buyram payer receiver quant.in_eos
  | .buyramburn payer quantity memo => .buyramburn payer quantity.in_eos memo
  | .buyramself payer quant => .buyramself payer quant.in_eos
  | .deposit owner amount => .deposit owner amount.in_eos
  | .buyrex sender amount => .buyrex sender amount.in_eos
  | .withdraw owner amount => .withdraw owner amount.in_eos
  | .newaccount2 creator name key =>
    let auth : Authority := { threshold := 1, keys := [{ key, weight := 1 }] }
    .newaccount creator name auth auth
  | .powerup payer receiver days net_frac cpu_frac max_payment =>
    .powerup payer receiver days net_frac cpu_frac max_payment.in_eos
  | .delegatebw sender receiver net cpu transfer => .delegatebw sender receiver net.in_eos cpu.in_eos transfer
  | .undelegatebw sender receiver net cpu => .undelegatebw sender receiver net.in_eos cpu.in_eos
  | .unstaketorex owner receiver from_net from_cpu =>
    .unstaketorex owner receiver from_net.in_eos from_cpu.in_eos
  | .donatetorex payer quantity memo => .donatetorex payer quantity.in_eos memo
  | call => call

def swaps : SysCall → Bool
  | .bidname .. | .buyram .. | .buyramburn .. | .buyrambytes .. | .buyramself .. | .deposit ..
  | .powerup .. | .delegatebw .. | .donatetorex .. => true
  | _ => false

end SysCall

/-! ## One wrapper -/

namespace System

/-- What a wrapper leaves, and what it asks of `eosio`. -/
structure Forwards (c : Ctx) (t : Tables) (w : SysCall) (o : Outcome Tables) : Prop where
  auth : c.has_auth w.account = true
  once : o.inline.filter (fun a => a.account = Name.eosio) = [sys_action w.account w.forwarded]
  symbol : ∀ a ∈ w.relabelled, t.config.find c.self () = some ⟨a.symbol⟩
  still : w.swaps = false → o.tables = t

theorem to_eos_eq_ok {q a : Asset} :
    to_eos q = .ok a ↔ a = q.in_eos ∧ -(2 ^ 62 - 1) ≤ q.val ∧ q.val ≤ 2 ^ 62 - 1 := make_eos_eq_ok

theorem relabel_one {q : Asset} {f : Asset → SysCall} {w : SysCall}
    (h : (to_eos q >>= fun a => pure (f a)) = .ok w) : w = f q.in_eos := by
  simp only [bind_eq_ok, to_eos_eq_ok, pure_eq_ok, Except.ok.injEq] at h
  obtain ⟨_, ⟨rfl, -⟩, rfl⟩ := h
  rfl

theorem relabel_two {q q' : Asset} {f : Asset → Asset → SysCall} {w : SysCall}
    (h : (to_eos q >>= fun a => to_eos q' >>= fun a' => pure (f a a')) = .ok w) :
    w = f q.in_eos q'.in_eos ∧ (-(2 ^ 62 - 1) ≤ q.val ∧ q.val ≤ 2 ^ 62 - 1) ∧
      -(2 ^ 62 - 1) ≤ q'.val ∧ q'.val ≤ 2 ^ 62 - 1 := by
  simp only [bind_eq_ok, to_eos_eq_ok, pure_eq_ok, Except.ok.injEq] at h
  obtain ⟨_, ⟨rfl, hq⟩, _, ⟨rfl, hq'⟩, rfl⟩ := h
  exact ⟨rfl, hq, hq'⟩

theorem filter_swapped {c : Ctx} (hself : c.self ≠ Name.eosio) (u v : Name) (q : Asset) (call : SysCall)
    (rest : List Action) :
    (swaptrace_action c u q :: credit_action c u q :: sys_action v call :: rest).filter
      (fun a => a.account = Name.eosio) =
      sys_action v call :: rest.filter (fun a => a.account = Name.eosio) := by
  have htoken : Name.eosio_token ≠ Name.eosio := by decide
  simp [swaptrace_action, credit_action, transfer_action, sys_action, hself, htoken]

section Shapes

variable {c : View} {t : Tables} {o : Outcome Tables} {w : SysCall}

theorem forward_forwards (hcall : w.relabelled = []) (h : forward c.toCtx t w.account w.forwarded = .ok o) :
    Forwards c.toCtx t w o := by
  obtain ⟨hauth, rfl⟩ := forward_eq_ok.1 h
  exact ⟨hauth, by simp [sys_action], by simp [hcall], fun _ => rfl⟩

theorem excess_forwards (hself : c.self ≠ Name.eosio) (hcall : w.relabelled = [])
    (h : forward_and_swap_excess c t w.account w.forwarded = .ok o) : Forwards c.toCtx t w o := by
  obtain ⟨hauth, rfl⟩ := forward_and_swap_excess_eq_ok.1 h
  exact ⟨hauth, by simp [sys_action, swapexcess_action, hself], by simp [hcall], fun _ => rfl⟩

theorem enforce_forwards {quantities : List Asset} {call : Except String SysCall}
    (hcall : ∀ w', call = .ok w' → w' = w.forwarded) (hsub : w.relabelled ⊆ quantities)
    (h : enforce_and_forward c.toCtx t w.account quantities call = .ok o) : Forwards c.toCtx t w o := by
  obtain ⟨hauth, hsym, w', hw, rfl⟩ := enforce_and_forward_eq_ok.1 h
  obtain rfl := hcall w' hw
  exact ⟨hauth, by simp [sys_action], fun a ha => hsym a (hsub ha), fun _ => rfl⟩

theorem swap_forwards (hself : c.self ≠ Name.eosio) {quantity : Except String Asset}
    {call : Except String SysCall} (hcall : ∀ w', call = .ok w' → w' = w.forwarded) (hswaps : w.swaps = true)
    (hsym : ∀ q w', quantity = .ok q → call = .ok w' → ∀ a ∈ w.relabelled, a.symbol = q.symbol)
    (h : swap_and_forward c.toCtx t w.account quantity call = .ok o) : Forwards c.toCtx t w o := by
  obtain ⟨hauth, q, accounts, w', hq, hswap, hw, rfl⟩ := swap_and_forward_eq_ok.1 h
  have hsame := hsym q w' hq hw
  obtain rfl := hcall w' hw
  refine ⟨hauth, ?_, fun a ha => ?_, fun hs => ?_⟩
  · rw [filter_swapped hself, List.filter_nil]
  · rw [hsame a ha]
    exact hswap.symbol
  · rw [hswaps] at hs
    cases hs

end Shapes

theorem delegatebw_eq_ok {c : Ctx} {t : Tables} {sender receiver : Name} {net cpu : Asset} {transfer : Bool}
    {o : Outcome Tables} : delegatebw c t sender receiver net cpu transfer = .ok o ↔
      c.has_auth sender = true ∧ ∃ q accounts, net.add cpu = .ok q ∧
        (-(2 ^ 62 - 1) ≤ net.val ∧ net.val ≤ 2 ^ 62 - 1) ∧ (-(2 ^ 62 - 1) ≤ cpu.val ∧ cpu.val ≤ 2 ^ 62 - 1) ∧
        Swapped c t sender q accounts ∧
        o = { tables := { t with accounts },
              inline := [swaptrace_action c sender q, credit_action c sender q,
                sys_action sender (.delegatebw sender receiver net.in_eos cpu.in_eos transfer)] } := by
  rw [delegatebw, swap_and_forward_eq_ok]
  refine and_congr_right fun _ => ?_
  constructor
  · rintro ⟨q, accounts, w, hq, hswap, hw, rfl⟩
    obtain ⟨rfl, hnet, hcpu⟩ := relabel_two hw
    exact ⟨q, accounts, hq, hnet, hcpu, hswap, rfl⟩
  · rintro ⟨q, accounts, hq, hnet, hcpu, hswap, rfl⟩
    refine ⟨q, accounts, _, hq, hswap, ?_, rfl⟩
    rw [to_eos_eq_ok.2 ⟨rfl, hnet⟩, to_eos_eq_ok.2 ⟨rfl, hcpu⟩]
    rfl

theorem delegatebw_forwards {c : Ctx} (hself : c.self ≠ Name.eosio) {t : Tables} {sender receiver : Name}
    {net cpu : Asset} {transfer : Bool} {o : Outcome Tables}
    (h : delegatebw c t sender receiver net cpu transfer = .ok o) :
    Forwards c t (.delegatebw sender receiver net cpu transfer) o := by
  obtain ⟨hauth, q, accounts, hq, -, hcpu, hswap, rfl⟩ := delegatebw_eq_ok.1 h
  obtain ⟨hsame, hsum, -⟩ := (Asset.add_eq_ok hcpu).1 hq
  refine ⟨hauth, filter_swapped hself _ _ _ _ _, ?_, fun hs => by cases hs⟩
  intro a ha
  simp only [SysCall.relabelled, List.mem_cons, List.not_mem_nil, or_false] at ha
  rcases ha with rfl | rfl
  · rw [← hsum]
    exact hswap.symbol
  · rw [hsame, ← hsum]
    exact hswap.symbol

theorem withdraw_forwards {c : Ctx} {t : Tables} {owner : Name} {amount : Asset} {o : Outcome Tables}
    (h : withdraw c t owner amount = .ok o) : Forwards c t (.withdraw owner amount) o := by
  obtain ⟨hauth, hcfg, -, -, rfl⟩ := withdraw_eq_ok.1 h
  have htoken : Name.eosio_token ≠ Name.eosio := by decide
  refine ⟨hauth, ?_, ?_, fun _ => rfl⟩
  · simp [sys_action, transfer_action, htoken, SysCall.account, SysCall.forwarded, Asset.in_eos]
  · simp only [SysCall.relabelled, List.mem_singleton, forall_eq]
    exact hcfg

section Apply

variable {c : View} {t : Tables} {o : Outcome Tables} (hself : c.self ≠ Name.eosio)
include hself

theorem buyrambytes_forwards {payer receiver : Name} {bytes : UInt32}
    (h : buyrambytes c t payer receiver bytes = .ok o) :
    Forwards c.toCtx t (.buyrambytes payer receiver bytes) o := by
  obtain ⟨hauth, symbol, accounts, -, -, rfl⟩ := buyrambytes_eq_ok.1 h
  refine ⟨hauth, ?_, by simp [SysCall.relabelled], fun hs => by cases hs⟩
  rw [filter_swapped hself]
  simp [enforcebal_action, hself, SysCall.account, SysCall.forwarded]

theorem powerup_forwards {payer receiver : Name} {days : UInt32} {net_frac cpu_frac : Int64}
    {max_payment : Asset} (h : powerup c t payer receiver days net_frac cpu_frac max_payment = .ok o) :
    Forwards c.toCtx t (.powerup payer receiver days net_frac cpu_frac max_payment) o := by
  obtain ⟨hauth, accounts, hswap, rfl⟩ := powerup_eq_ok.1 h
  refine ⟨hauth, ?_, ?_, fun hs => by cases hs⟩
  · rw [filter_swapped hself]
    simp [swapexcess_action, hself, SysCall.account, SysCall.forwarded, Asset.in_eos]
  · simp only [SysCall.relabelled, List.mem_singleton, forall_eq]
    exact hswap.symbol

theorem swap_one_forwards {w : SysCall} {q : Asset} {f : Asset → SysCall} (hw : w.forwarded = f q.in_eos)
    (hswaps : w.swaps = true) (hone : w.relabelled = [q])
    (h : swap_and_forward c.toCtx t w.account (.ok q) (to_eos q >>= fun a => pure (f a)) = .ok o) :
    Forwards c.toCtx t w o := by
  refine swap_forwards hself (fun w' hw' => hw ▸ relabel_one hw') hswaps ?_ h
  intro q' _ hq _ a ha
  cases hq
  rw [hone, List.mem_singleton] at ha
  rw [ha]

theorem apply_sys_forwards {w : SysCall} (h : apply_sys c t w = .ok o) : Forwards c.toCtx t w o := by
  cases w with
  | bidname | buyram | buyramburn | buyramself | deposit | donatetorex =>
    exact swap_one_forwards hself rfl rfl rfl h
  | bidrefund | sellram | refund | claimrewards => exact excess_forwards hself rfl h
  | buyrex =>
    exact enforce_forwards (fun _ hw => relabel_one hw) (List.Subset.refl _) h
  | undelegatebw =>
    refine enforce_forwards (fun _ hw => (relabel_two hw).1) ?_ h
    -- The symbol of the second amount is checked first.
    simp [SysCall.relabelled]
  | unstaketorex =>
    exact enforce_forwards (fun _ hw => (relabel_two hw).1) (List.Subset.refl _) h
  | buyrambytes => exact buyrambytes_forwards hself h
  | withdraw => exact withdraw_forwards h
  | powerup => exact powerup_forwards hself h
  | delegatebw => exact delegatebw_forwards hself h
  | _ => exact forward_forwards rfl h

end Apply

theorem Follow.level {c : Ctx} {account : Name} {a : Action} (h : Follow c account a) :
    ∀ l ∈ a.authorization, l = ⟨c.self, Name.active⟩ ∨ l = ⟨account, Name.active⟩ := by
  intro l hl
  cases h with
  | forward => exact .inr (List.mem_singleton.1 hl)
  | excess => exact .inl (List.mem_singleton.1 hl)
  | enforce => exact .inr (List.mem_singleton.1 hl)
  | swap => exact .inr (List.mem_singleton.1 hl)

end System

/-- The calls that a user makes of the wrapper. -/
def Call.wrapper : Call → Bool
  | .swapto .. | .sys _ => true
  | _ => false

namespace Tiny

def voting : Name := ⟨15939058973341122560⟩

def owner : Name := ⟨12044502819693133824⟩

example : [voting, owner].map Name.to_string = ["voting", "owner"] := by decide

/-- A new `active` permission for `alice`, signed with less than that. -/
def take_over : Action :=
  ⟨env.self, [⟨alice, voting⟩], .sys (.updateauth alice Name.active owner { threshold := 1 } none)⟩

end Tiny

namespace Env

variable {σ : Type} {e : Env σ} {s s' : State σ} {authorization : List PermissionLevel} {queued : List Action}

/-! ## Any wrapper -/

/-- **Forwarding is faithful.** A wrapper that succeeds asks `eosio` for one thing, which
is what it was asked for itself, but for the amounts of the token, which it passes on in
EOS. It passes on nothing else as EOS. A wrapper that does not swap changes nothing. -/
theorem wrappers_forward {w : SysCall} (h : e.exec s ⟨e.self, authorization, .sys w⟩ = .ok (s', queued)) :
    w.account ∈ authorization.map (·.actor) ∧
    queued.filter (fun a => a.account = Name.eosio) =
      [⟨Name.eosio, System.active w.account, .sys w.forwarded⟩] ∧
    (∀ a ∈ w.relabelled, s.system.config.find e.self () = some ⟨a.symbol⟩) ∧
    (w.swaps = false → s' = s) := by
  obtain ⟨o, ho, rfl, rfl⟩ := exec_sys.1 h
  have hf := System.apply_sys_forwards e.self_ne_eosio ho
  refine ⟨mem_actors hf.auth, hf.once, hf.symbol, fun hs => ?_⟩
  rw [hf.still hs]

theorem wrappers_forward_alice : ∃ s queued, Tiny.env.exec (Tiny.run Tiny.start [Tiny.swap]) Tiny.spend =
    .ok (s, queued) ∧ queued.filter (fun a => a.account = Name.eosio) =
      [⟨Name.eosio, System.active Tiny.alice, .sys (.buyramself Tiny.alice ⟨40, Symbol.EOS⟩)⟩] := by
  obtain ⟨s, queued, h⟩ : ∃ s queued,
      Tiny.env.exec (Tiny.run Tiny.start [Tiny.swap]) Tiny.spend = .ok (s, queued) := ⟨_, _, rfl⟩
  exact ⟨s, queued, h, (wrappers_forward h).2.1⟩

/-- **No stake is under-swapped.** Whatever two amounts `delegatebw` is given, when it
forwards them they are of the token, and their sum, the true one, has gone from the
balance of the sender to the contract. -/
theorem delegatebw_exact {sender receiver : Name} {net cpu : Asset} {transfer : Bool}
    (h : e.exec s ⟨e.self, authorization, .sys (.delegatebw sender receiver net cpu transfer)⟩ =
      .ok (s', queued)) :
    ∃ symbol, s.system.config.find e.self () = some ⟨symbol⟩ ∧ net.symbol = symbol ∧ cpu.symbol = symbol ∧
      0 < net.val + cpu.val ∧ net.val + cpu.val ≤ s.xyz symbol.code sender ∧
      s'.xyz symbol.code = moved (s.xyz symbol.code) sender e.self (net.val + cpu.val) ∧
      (∀ u k, k ≠ symbol.code → book s'.system.accounts u k = book s.system.accounts u k) ∧
      ∃ q : Asset, q.val = net.val + cpu.val ∧
        queued = [⟨e.self, System.active e.self, .swaptrace sender q⟩, e.credit sender q,
          System.sys_action sender (.delegatebw sender receiver net.in_eos cpu.in_eos transfer)] := by
  obtain ⟨o, ho, rfl, rfl⟩ := exec_sys.1 h
  obtain ⟨-, q, accounts, hq, -, hcpu, hswap, rfl⟩ := System.delegatebw_eq_ok.1 ho
  obtain ⟨hsame, hsum, hval, -⟩ := (Asset.add_eq_ok hcpu).1 hq
  have hpos := hswap.pos
  have hbook := hswap.moved.book
  have hle := Book.move_le hpos hbook
  have hcode : q.of net.symbol.code = q.val := by rw [← hsum, Asset.of_self]
  refine ⟨net.symbol, ?_, rfl, hsame, by omega, ?_, ?_, ?_, q, hval, rfl⟩
  · rw [← hsum]
    exact hswap.symbol
  · rw [State.xyz_eq, ← hval, ← hsum]
    exact hle
  · funext u
    have hu := congrFun (hswap.moved.amount hpos hswap.small net.symbol.code) u
    rw [hcode, hval, view_self] at hu
    simpa only [State.xyz_eq, moved_apply] using hu
  · intro u k hk
    rw [← hsum] at hk
    exact Book.move_ne hbook hk u

theorem delegatebw_exact_alice : ∃ s queued, Tiny.env.exec (Tiny.run Tiny.start [Tiny.swap])
    ⟨Tiny.env.self, System.active Tiny.alice,
      .sys (.delegatebw Tiny.alice Tiny.bob ⟨30, Tiny.XYZ⟩ ⟨10, Tiny.XYZ⟩ false)⟩ = .ok (s, queued) ∧
    s.xyz Tiny.XYZ.code = moved ((Tiny.run Tiny.start [Tiny.swap]).xyz Tiny.XYZ.code) Tiny.alice Tiny.env.self 40 := by
  obtain ⟨s, queued, h⟩ : ∃ s queued, Tiny.env.exec (Tiny.run Tiny.start [Tiny.swap])
    ⟨Tiny.env.self, System.active Tiny.alice,
      .sys (.delegatebw Tiny.alice Tiny.bob ⟨30, Tiny.XYZ⟩ ⟨10, Tiny.XYZ⟩ false)⟩ = .ok (s, queued) := ⟨_, _, rfl⟩
  obtain ⟨_, -, rfl, -, -, -, hmoved, -⟩ := delegatebw_exact h
  exact ⟨s, queued, h, hmoved⟩

theorem sends_as_active {call : Call} (hcall : call.wrapper = true)
    (h : e.exec s ⟨e.self, authorization, call⟩ = .ok (s', queued)) {b : Action} (hb : b ∈ queued)
    {l : PermissionLevel} (hl : l ∈ b.authorization) (hne : l.actor ≠ e.self) :
    l.permission = Name.active ∧ ∃ p, ⟨l.actor, p⟩ ∈ authorization := by
  have hsigned : ∀ {account}, (e.ctx s e.self authorization).has_auth account = true → l = ⟨account, Name.active⟩ →
      l.permission = Name.active ∧ ∃ p, ⟨l.actor, p⟩ ∈ authorization := by
    rintro account hauth rfl
    obtain ⟨l', hl', rfl⟩ := List.mem_map.1 (mem_actors hauth)
    exact ⟨rfl, l'.permission, hl'⟩
  have hfollow : ∀ {account}, (e.ctx s e.self authorization).has_auth account = true →
      System.Follow (e.ctx s e.self authorization) account b →
      l.permission = Name.active ∧ ∃ p, ⟨l.actor, p⟩ ∈ authorization := by
    intro account hauth hf
    rcases hf.level l hl with rfl | hlevel
    · exact absurd rfl hne
    · exact hsigned hauth hlevel
  obtain ⟨o, heffect, -, rfl⟩ := exec_system rfl h
  simp only at heffect
  cases heffect with
  | init | transfer | opened | closed | blocked | excess | traced => cases hcall
  | idle => cases hb
  | swapto_eos hauth =>
    simp only [List.mem_cons, List.not_mem_nil, or_false] at hb
    rcases hb with rfl | rfl <;> exact hsigned hauth (List.mem_singleton.1 hl)
  | swapto_xyz hauth =>
    simp only [List.mem_cons, List.not_mem_nil, or_false] at hb
    rcases hb with rfl | rfl <;> exact hsigned hauth (List.mem_singleton.1 hl)
  | swapped hauth _ hrest =>
    simp only [List.mem_cons] at hb
    rcases hb with rfl | rfl | hb
    · exact absurd (congrArg PermissionLevel.actor (List.mem_singleton.1 hl)) hne
    · exact absurd (congrArg PermissionLevel.actor (List.mem_singleton.1 hl)) hne
    · exact hfollow hauth (hrest b hb)
  | passed hauth hrest => exact hfollow hauth (hrest b hb)

/-- **Permissions become `active`.** What a wrapper sends in the name of others than the
contract, it sends under `active`, for an account that signed for the wrapper with any of
its permissions. And it does send what it was asked to pass on. -/
theorem wrappers_act_as_active {call : Call} (hcall : call.wrapper = true)
    (h : e.exec s ⟨e.self, authorization, call⟩ = .ok (s', queued)) :
    (∀ b ∈ queued, ∀ l ∈ b.authorization, l.actor ≠ e.self →
      l.permission = Name.active ∧ ∃ p, ⟨l.actor, p⟩ ∈ authorization) ∧
    ∀ w, call = .sys w → ⟨Name.eosio, [⟨w.account, Name.active⟩], .sys w.forwarded⟩ ∈ queued := by
  refine ⟨fun b hb l hl hne => sends_as_active hcall h hb hl hne, ?_⟩
  rintro w rfl
  obtain ⟨o, ho, -, rfl⟩ := exec_sys.1 h
  have honce := (System.apply_sys_forwards e.self_ne_eosio ho).once
  have hmem : System.sys_action w.account w.forwarded ∈ o.inline.filter (fun a => a.account = Name.eosio) := by
    rw [honce]
    exact List.mem_singleton_self _
  exact List.mem_of_mem_filter hmem

theorem wrappers_act_as_active_voting : ∃ s queued, Tiny.env.exec Tiny.start Tiny.take_over = .ok (s, queued) ∧
    (∀ b ∈ queued, ∀ l ∈ b.authorization, l.actor ≠ Tiny.env.self → l.permission = Name.active) ∧
    ⟨Name.eosio, [⟨Tiny.alice, Name.active⟩],
      .sys (.updateauth Tiny.alice Name.active Tiny.owner { threshold := 1 } none)⟩ ∈ queued := by
  obtain ⟨s, queued, h⟩ : ∃ s queued, Tiny.env.exec Tiny.start Tiny.take_over = .ok (s, queued) := ⟨_, _, rfl⟩
  obtain ⟨hactive, hsent⟩ := wrappers_act_as_active rfl h
  exact ⟨s, queued, h, fun b hb l hl hne => (hactive b hb l hl hne).1, hsent _ rfl⟩

/-- So `voting` can replace `active`, which it was never given. -/
theorem permission_escalates : ∃ s queued b l, Tiny.env.exec Tiny.start Tiny.take_over = .ok (s, queued) ∧
    b ∈ queued ∧ l ∈ b.authorization ∧ l.actor ≠ Tiny.env.self ∧ l ∉ Tiny.take_over.authorization := by
  refine ⟨_, _, System.sys_action Tiny.alice (.updateauth Tiny.alice Name.active Tiny.owner { threshold := 1 } none),
    ⟨Tiny.alice, Name.active⟩, rfl, ?_, ?_, by decide, by decide⟩
  · exact List.mem_singleton_self _
  · exact List.mem_singleton_self _

end Env

end Vaulta
