import Vaulta.Ledger
import Vaulta.System

/-!
# The two ledgers

`sub_balance` and `add_balance` of both contracts, as debits and credits of a book.
-/

namespace Vaulta

/-! ## Tables of balances -/

/-- A row that holds one balance, and lies under the ticker of that balance. -/
class Holding (ρ : Type) [PrimaryKey ρ SymbolCode] where
  balance : ρ → Asset
  key_eq : ∀ r : ρ, primary_key r = (balance r).symbol.code

instance : Holding Token.Account := ⟨fun a => a.balance, fun _ => rfl⟩

instance : Holding System.Account := ⟨fun a => a.balance, fun _ => rfl⟩

@[simp] theorem Token.holding (a : Token.Account) : Holding.balance a = a.balance := rfl

@[simp] theorem System.holding (a : System.Account) : Holding.balance a = a.balance := rfl

section Book

variable {ρ : Type} [PrimaryKey ρ SymbolCode] [Holding ρ]

/-- The balances of a table, without the rest of its rows. -/
def book (t : MultiIndex Name Name SymbolCode ρ) : Book Name :=
  fun u k => (t.find u k).map Holding.balance

theorem book_of_find {t : MultiIndex Name Name SymbolCode ρ} {u : Name} {k : SymbolCode} {a : ρ}
    (h : t.find u k = some a) : book t u k = some (Holding.balance a) := by
  simp [book, h]

theorem book_of_none {t : MultiIndex Name Name SymbolCode ρ} {u : Name} {k : SymbolCode}
    (h : t.find u k = none) : book t u k = none := by
  simp [book, h]

theorem book_code {t : MultiIndex Name Name SymbolCode ρ} {u : Name} {k : SymbolCode} {a : Asset}
    (h : book t u k = some a) : a.symbol.code = k := by
  obtain ⟨row, hr, rfl⟩ := Option.map_eq_some_iff.1 h
  obtain ⟨p, hp⟩ := MultiIndex.find_eq_some.1 hr
  rw [← Holding.key_eq]
  exact t.keyed _ _ _ hp

theorem book_store (t : MultiIndex Name Name SymbolCode ρ) (u : Name) (r : Stored Name ρ) :
    book (t.store u r) =
      (book t).set u (Holding.balance r.row).symbol.code (some (Holding.balance r.row)) := by
  funext w k
  simp only [book, MultiIndex.find, MultiIndex.store_rows, MultiIndex.put_apply, Book.set_apply,
    Holding.key_eq]
  split <;> rfl

theorem book_remove (t : MultiIndex Name Name SymbolCode ρ) (u : Name) (k : SymbolCode) :
    book (t.remove u k) = (book t).set u k none := by
  funext w k'
  simp only [book, MultiIndex.find, MultiIndex.remove_rows, MultiIndex.put_apply, Book.set_apply]
  split <;> rfl

@[simp] theorem book_grow (t : MultiIndex Name Name SymbolCode ρ) (u p : Name) :
    book (t.grow u p) = book t := rfl

@[simp] theorem book_shrink (t : MultiIndex Name Name SymbolCode ρ) (u : Name) :
    book (t.shrink u) = book t := rfl

theorem book_emplace {t : MultiIndex Name Name SymbolCode ρ} {u p : Name} {r : ρ}
    (h : t.find u (primary_key r) = none) :
    (t.emplace u p r).map book =
      .ok ((book t).set u (Holding.balance r).symbol.code (some (Holding.balance r))) := by
  rw [MultiIndex.emplace_eq_ok.2 ⟨MultiIndex.find_eq_none.1 h, rfl⟩]
  simp only [Except.map, book_grow, book_store]

theorem book_modify {t : MultiIndex Name Name SymbolCode ρ} {u : Name} {k : SymbolCode} {row : ρ}
    {p : Option Name} {f : ρ → Except String ρ} {b : Except String Asset} (h : t.find u k = some row)
    (hf : (f row).map Holding.balance = b) (hb : ∀ a, b = .ok a → a.symbol.code = k) :
    (t.modify u k p f).map book = b.map fun a => (book t).set u k (some a) := by
  obtain ⟨q, hq⟩ := MultiIndex.find_eq_some.1 h
  subst hf
  rw [MultiIndex.modify_of_find hq fun row' h' => by
    rw [Holding.key_eq]
    exact hb _ (by simp [h', Except.map])]
  cases hr : f row with
  | error e => rfl
  | ok row' =>
    have hk := hb (Holding.balance row') (by simp [hr, Except.map])
    simp only [Except.map, book_store, hk]

end Book

theorem map_eq_ok {ε α β : Type} {x : Except ε α} {f : α → β} {b : β} :
    x.map f = .ok b ↔ ∃ a, x = .ok a ∧ f a = b := by
  cases x <;> simp [Except.map]

/-! ## `eosio.token` -/

namespace Token

theorem sub_balance_book (t : Accounts) (u : Name) (v : Asset) :
    (sub_balance t u v).map book = (book t).debit u v := by
  unfold sub_balance Book.debit MultiIndex.get
  cases hf : t.find u v.symbol.code with
  | none => simp [book_of_none hf, bind, Except.bind, Except.map]
  | some row =>
    have hk := book_code (book_of_find hf)
    simp only [book_of_find hf, ok_bind, holding]
    by_cases hle : v.amount ≤ row.balance.amount
    · simp only [check_true hle, ok_bind]
      rw [book_modify hf (b := row.balance.sub v)]
      · cases row.balance.sub v <;> rfl
      · cases row.balance.sub v <;> rfl
      · intro a ha; rw [Asset.sub_symbol ha]; exact hk
    · simp [check, hle, bind, Except.bind, Except.map]

theorem add_balance_book (t : Accounts) (u : Name) (v : Asset) (p : Name) :
    (add_balance t u v p).map book = (book t).credit u v := by
  unfold add_balance Book.credit
  cases hf : t.find u v.symbol.code with
  | none =>
    simp only [book_of_none hf]
    exact book_emplace (r := (⟨v⟩ : Account)) hf
  | some row =>
    have hk := book_code (book_of_find hf)
    simp only [book_of_find hf]
    rw [book_modify hf (b := row.balance.add v)]
    · cases row.balance.add v <;> rfl
    · cases row.balance.add v <;> rfl
    · intro a ha; rw [Asset.add_symbol ha]; exact hk

theorem debit_of_sub_balance {t t' : Accounts} {u : Name} {v : Asset} (h : sub_balance t u v = .ok t') :
    (book t).debit u v = .ok (book t') := by
  rw [← sub_balance_book, map_eq_ok]
  exact ⟨t', h, rfl⟩

theorem sub_balance_of_debit {t : Accounts} {u : Name} {v : Asset} {b : Book Name}
    (h : (book t).debit u v = .ok b) : ∃ t', sub_balance t u v = .ok t' ∧ book t' = b := by
  rwa [← sub_balance_book, map_eq_ok] at h

theorem credit_of_add_balance {t t' : Accounts} {u p : Name} {v : Asset}
    (h : add_balance t u v p = .ok t') : (book t).credit u v = .ok (book t') := by
  rw [← add_balance_book t u v p, map_eq_ok]
  exact ⟨t', h, rfl⟩

theorem add_balance_of_credit (t : Accounts) (u p : Name) (v : Asset) {b : Book Name}
    (h : (book t).credit u v = .ok b) : ∃ t', add_balance t u v p = .ok t' ∧ book t' = b := by
  rwa [← add_balance_book t u v p, map_eq_ok] at h

def Moved (t t' : Accounts) (sender recipient : Name) (value : Asset) (ram_payer : Name) : Prop :=
  ∃ m, sub_balance t sender value = .ok m ∧ add_balance m recipient value ram_payer = .ok t'

theorem Moved.book {t t' : Accounts} {u w p : Name} {v : Asset} (h : Moved t t' u w v p) :
    (book t).move u w v = .ok (book t') := by
  obtain ⟨m, h1, h2⟩ := h
  rw [Book.move, debit_of_sub_balance h1, ok_bind, credit_of_add_balance h2]

theorem Moved.amount {t t' : Accounts} {u w p : Name} {v : Asset} (h : Moved t t' u w v p)
    (hpos : 0 < v.val) (hle : v.val ≤ 2 ^ 62 - 1) (k : SymbolCode) :
    (Vaulta.book t').amount k = moved ((Vaulta.book t).amount k) u w (v.of k) :=
  Book.amount_move hpos hle h.book k

theorem moved_of_move (t : Accounts) (u w p : Name) (v : Asset) {b : Book Name}
    (h : (Vaulta.book t).move u w v = .ok b) : ∃ t', Moved t t' u w v p ∧ Vaulta.book t' = b := by
  simp only [Book.move, bind_eq_ok] at h
  obtain ⟨b₁, h1, h2⟩ := h
  obtain ⟨m, hm, rfl⟩ := sub_balance_of_debit h1
  obtain ⟨t', ht, hb⟩ := add_balance_of_credit m w p v h2
  exact ⟨t', ⟨m, hm, ht⟩, hb⟩

end Token

/-! ## The system contract -/

namespace System

theorem sub_balance_book (t : Accounts) (u : Name) (v : Asset) :
    (sub_balance t u v).map book = (book t).debit u v := by
  unfold sub_balance Book.debit MultiIndex.get
  cases hf : t.find u v.symbol.code with
  | none => simp [book_of_none hf, bind, Except.bind, Except.map]
  | some row =>
    have hk := book_code (book_of_find hf)
    simp only [book_of_find hf, ok_bind, holding]
    by_cases hle : v.amount ≤ row.balance.amount
    · simp only [check_true hle, ok_bind]
      cases hr : row.released with
      | true =>
        simp only [Bool.not_true, Bool.false_eq_true, if_false]
        rw [book_modify hf (b := row.balance.sub v)]
        · cases row.balance.sub v <;> rfl
        · cases row.balance.sub v <;> rfl
        · intro a ha; rw [Asset.sub_symbol ha]; exact hk
      | false =>
        -- The erased row comes back under the same ticker, with the new balance.
        have hn : t.rows u v.symbol.code ≠ none := by
          rw [ne_eq, ← MultiIndex.find_eq_none, hf]; simp
        simp only [Bool.not_false, if_true, MultiIndex.erase_eq_ok.2 ⟨hn, rfl⟩, ok_bind]
        cases hs : row.balance.sub v with
        | error e => rfl
        | ok a =>
          have ha : a.symbol.code = v.symbol.code := by rw [Asset.sub_symbol hs]; exact hk
          have hg : ((t.remove u v.symbol.code).shrink u).find u a.symbol.code = none := by
            simp [MultiIndex.find, ha]
          simp only [ok_bind]
          rw [book_emplace (r := (⟨a, true⟩ : Account)) hg, book_shrink, book_remove]
          simp only [holding, ha, Book.set_set]
          rfl
    · simp [check, hle, bind, Except.bind, Except.map]

theorem add_balance_book (c : Ctx) (t : Accounts) (u : Name) (v : Asset) (p : Name) :
    (add_balance c t u v p).map book = (book t).credit u v := by
  unfold add_balance Book.credit
  cases hf : t.find u v.symbol.code with
  | none =>
    simp only [book_of_none hf]
    exact book_emplace (r := (⟨v, p = u⟩ : Account)) hf
  | some row =>
    have hk := book_code (book_of_find hf)
    simp only [book_of_find hf]
    rw [book_modify hf (b := row.balance.add v)]
    · cases row.balance.add v <;> rfl
    · cases row.balance.add v <;> rfl
    · intro a ha; rw [Asset.add_symbol ha]; exact hk

theorem debit_of_sub_balance {t t' : Accounts} {u : Name} {v : Asset} (h : sub_balance t u v = .ok t') :
    (book t).debit u v = .ok (book t') := by
  rw [← sub_balance_book, map_eq_ok]
  exact ⟨t', h, rfl⟩

theorem sub_balance_of_debit {t : Accounts} {u : Name} {v : Asset} {b : Book Name}
    (h : (book t).debit u v = .ok b) : ∃ t', sub_balance t u v = .ok t' ∧ book t' = b := by
  rwa [← sub_balance_book, map_eq_ok] at h

theorem credit_of_add_balance {c : Ctx} {t t' : Accounts} {u p : Name} {v : Asset}
    (h : add_balance c t u v p = .ok t') : (book t).credit u v = .ok (book t') := by
  rw [← add_balance_book c t u v p, map_eq_ok]
  exact ⟨t', h, rfl⟩

theorem add_balance_of_credit (c : Ctx) (t : Accounts) (u p : Name) (v : Asset) {b : Book Name}
    (h : (book t).credit u v = .ok b) : ∃ t', add_balance c t u v p = .ok t' ∧ book t' = b := by
  rwa [← add_balance_book c t u v p, map_eq_ok] at h

def Moved (c : Ctx) (t t' : Accounts) (sender recipient : Name) (value : Asset) (ram_payer : Name) : Prop :=
  ∃ m, sub_balance t sender value = .ok m ∧ add_balance c m recipient value ram_payer = .ok t'

theorem Moved.book {c : Ctx} {t t' : Accounts} {u w p : Name} {v : Asset} (h : Moved c t t' u w v p) :
    (book t).move u w v = .ok (book t') := by
  obtain ⟨m, h1, h2⟩ := h
  rw [Book.move, debit_of_sub_balance h1, ok_bind, credit_of_add_balance h2]

theorem Moved.amount {c : Ctx} {t t' : Accounts} {u w p : Name} {v : Asset} (h : Moved c t t' u w v p)
    (hpos : 0 < v.val) (hle : v.val ≤ 2 ^ 62 - 1) (k : SymbolCode) :
    (Vaulta.book t').amount k = moved ((Vaulta.book t).amount k) u w (v.of k) :=
  Book.amount_move hpos hle h.book k

theorem moved_of_move (c : Ctx) (t : Accounts) (u w p : Name) (v : Asset) {b : Book Name}
    (h : (Vaulta.book t).move u w v = .ok b) : ∃ t', Moved c t t' u w v p ∧ Vaulta.book t' = b := by
  simp only [Book.move, bind_eq_ok] at h
  obtain ⟨b₁, h1, h2⟩ := h
  obtain ⟨m, hm, rfl⟩ := sub_balance_of_debit h1
  obtain ⟨t', ht, hb⟩ := add_balance_of_credit c m w p v h2
  exact ⟨t', ⟨m, hm, ht⟩, hb⟩

end System

end Vaulta
