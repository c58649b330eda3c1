import Vaulta.Chain

/-!
# Tables whose rows somebody pays for

A table has one set of rows for each scope. A row is stored under the key it computes
from its own content, and one account is billed for its memory. The chain also bills
the scope itself: to whoever pays for its first row, until its last row is gone.
-/

namespace Vaulta

class PrimaryKey (ρ : Type) (κ : outParam Type) where
  primary_key : ρ → κ

export PrimaryKey (primary_key)

/-- A row, and the account billed for it. -/
structure Stored (π ρ : Type) where
  row : ρ
  payer : π

/-- A scope in use: who pays for it, and how many rows it has. -/
structure TableId (π : Type) where
  payer : π
  count : Nat

/-- Rows by scope and key. Every row lies under its own key. -/
structure MultiIndex (π σ κ ρ : Type) [PrimaryKey ρ κ] where
  rows : σ → κ → Option (Stored π ρ)
  table : σ → Option (TableId π)
  keyed : ∀ s k r, rows s k = some r → primary_key r.row = k

namespace MultiIndex

section Put

variable {π σ κ ρ : Type} [DecidableEq σ] [DecidableEq κ]

def put (rows : σ → κ → Option (Stored π ρ)) (s : σ) (k : κ) (r : Option (Stored π ρ)) :
    σ → κ → Option (Stored π ρ) :=
  fun s' k' => if s' = s ∧ k' = k then r else rows s' k'

theorem put_apply (rows : σ → κ → Option (Stored π ρ)) (s s' : σ) (k k' : κ)
    (r : Option (Stored π ρ)) : put rows s k r s' k' = if s' = s ∧ k' = k then r else rows s' k' := rfl

@[simp] theorem put_self (rows : σ → κ → Option (Stored π ρ)) (s : σ) (k : κ) (r : Option (Stored π ρ)) :
    put rows s k r s k = r := if_pos ⟨rfl, rfl⟩

@[simp] theorem put_put (rows : σ → κ → Option (Stored π ρ)) (s : σ) (k : κ)
    (r r' : Option (Stored π ρ)) : put (put rows s k r) s k r' = put rows s k r' := by
  funext s' k'
  simp only [put_apply]
  split <;> rfl

end Put

section Operations

variable {π σ κ ρ : Type} [PrimaryKey ρ κ]

def empty : MultiIndex π σ κ ρ := ⟨fun _ _ => none, fun _ => none, by simp⟩

def find (t : MultiIndex π σ κ ρ) (s : σ) (k : κ) : Option ρ := (t.rows s k).map (·.row)

def get (t : MultiIndex π σ κ ρ) (s : σ) (k : κ) (msg : String) : Except String ρ :=
  match t.find s k with
  | some row => .ok row
  | none => .error msg

variable [DecidableEq σ] [DecidableEq κ]

def store (t : MultiIndex π σ κ ρ) (s : σ) (r : Stored π ρ) : MultiIndex π σ κ ρ where
  rows := put t.rows s (primary_key r.row) (some r)
  table := t.table
  keyed := by
    intro s' k' r' h
    unfold put at h
    split at h
    · obtain ⟨-, rfl⟩ := ‹_ ∧ _›
      cases h; rfl
    · exact t.keyed _ _ _ h

def remove (t : MultiIndex π σ κ ρ) (s : σ) (k : κ) : MultiIndex π σ κ ρ where
  rows := put t.rows s k none
  table := t.table
  keyed := by
    intro s' k' r' h
    unfold put at h
    split at h
    · cases h
    · exact t.keyed _ _ _ h

/-- One more row in the scope. The first one pays for the scope. -/
def grow (t : MultiIndex π σ κ ρ) (s : σ) (payer : π) : MultiIndex π σ κ ρ :=
  { t with
    table := fun s' => if s' ≠ s then t.table s' else
      match t.table s with
      | none => some ⟨payer, 1⟩
      | some i => some { i with count := i.count + 1 } }

/-- One row less in the scope. After the last one the scope is given back. -/
def shrink (t : MultiIndex π σ κ ρ) (s : σ) : MultiIndex π σ κ ρ :=
  { t with
    table := fun s' => if s' ≠ s then t.table s' else
      match t.table s with
      | none => none
      | some i => if i.count ≤ 1 then none else some { i with count := i.count - 1 } }

def emplace (t : MultiIndex π σ κ ρ) (s : σ) (payer : π) (row : ρ) :
    Except String (MultiIndex π σ κ ρ) := do
  check (t.rows s (primary_key row) = none)
    "could not insert object, most likely a uniqueness constraint was violated"
  return (t.store s ⟨row, payer⟩).grow s payer

/-- `payer = none` is `same_payer`: the row stays billed as it is. -/
def modify (t : MultiIndex π σ κ ρ) (s : σ) (k : κ) (payer : Option π) (updater : ρ → Except String ρ) :
    Except String (MultiIndex π σ κ ρ) :=
  match t.rows s k with
  | none => .error "cannot pass end iterator to modify"
  | some r => do
    let row ← updater r.row
    check (primary_key row = k) "updater cannot change primary key when modifying an object"
    return t.store s ⟨row, payer.getD r.payer⟩

def erase (t : MultiIndex π σ κ ρ) (s : σ) (k : κ) : Except String (MultiIndex π σ κ ρ) := do
  check (t.rows s k ≠ none) "cannot pass end iterator to erase"
  return (t.remove s k).shrink s

/-- `set` of a singleton: the row is written whether it is there or not. -/
def set (t : MultiIndex π σ κ ρ) (s : σ) (payer : π) (row : ρ) : Except String (MultiIndex π σ κ ρ) :=
  match t.find s (primary_key row) with
  | none => t.emplace s payer row
  | some _ => t.modify s (primary_key row) (some payer) fun _ => .ok row

end Operations

/-! ## What the operations do -/

section Lemmas

variable {π σ κ ρ : Type} [PrimaryKey ρ κ]

@[simp] theorem empty_rows (s : σ) (k : κ) : (empty : MultiIndex π σ κ ρ).rows s k = none := rfl

theorem find_eq_some {t : MultiIndex π σ κ ρ} {s : σ} {k : κ} {row : ρ} :
    t.find s k = some row ↔ ∃ p, t.rows s k = some ⟨row, p⟩ := by
  simp only [find, Option.map_eq_some_iff]
  constructor
  · rintro ⟨⟨row, p⟩, h, rfl⟩; exact ⟨p, h⟩
  · rintro ⟨p, h⟩; exact ⟨_, h, rfl⟩

theorem find_eq_none {t : MultiIndex π σ κ ρ} {s : σ} {k : κ} : t.find s k = none ↔ t.rows s k = none :=
  Option.map_eq_none_iff

@[simp] theorem get_eq_ok {t : MultiIndex π σ κ ρ} {s : σ} {k : κ} {msg : String} {row : ρ} :
    t.get s k msg = .ok row ↔ t.find s k = some row := by
  unfold get; split <;> simp [*]

variable [DecidableEq σ]

@[simp] theorem grow_rows (t : MultiIndex π σ κ ρ) (s : σ) (p : π) : (t.grow s p).rows = t.rows := rfl

@[simp] theorem shrink_rows (t : MultiIndex π σ κ ρ) (s : σ) : (t.shrink s).rows = t.rows := rfl

theorem grow_table_none {t : MultiIndex π σ κ ρ} {s : σ} (p : π) (h : t.table s = none) :
    (t.grow s p).table s = some ⟨p, 1⟩ := by
  simp [grow, h]

theorem shrink_table_one {t : MultiIndex π σ κ ρ} {s : σ} {p : π} (h : t.table s = some ⟨p, 1⟩) :
    (t.shrink s).table s = none := by
  simp [shrink, h]

theorem grow_table_ne {t : MultiIndex π σ κ ρ} {s s' : σ} (p : π) (h : s' ≠ s) :
    (t.grow s p).table s' = t.table s' := by
  simp [grow, h]

theorem shrink_table_ne {t : MultiIndex π σ κ ρ} {s s' : σ} (h : s' ≠ s) :
    (t.shrink s).table s' = t.table s' := by
  simp [shrink, h]

variable [DecidableEq κ]

@[simp] theorem store_rows (t : MultiIndex π σ κ ρ) (s : σ) (r : Stored π ρ) :
    (t.store s r).rows = put t.rows s (primary_key r.row) (some r) := rfl

theorem find_store (t : MultiIndex π σ κ ρ) (s s' : σ) (k : κ) (r : Stored π ρ) :
    (t.store s r).find s' k = if s' = s ∧ k = primary_key r.row then some r.row else t.find s' k := by
  simp only [find, store_rows, put_apply]
  split <;> rfl

theorem store_empty_rows (s : σ) (r : Stored π ρ) {s' : σ} {k : κ} {r' : Stored π ρ} :
    ((empty : MultiIndex π σ κ ρ).store s r).rows s' k = some r' ↔
      s' = s ∧ k = primary_key r.row ∧ r' = r := by
  rw [store_rows, put_apply]
  split <;> rename_i h
  · simp [h, eq_comm]
  · simp only [empty_rows, reduceCtorEq, false_iff]
    exact fun h' => h ⟨h'.1, h'.2.1⟩

@[simp] theorem store_table (t : MultiIndex π σ κ ρ) (s : σ) (r : Stored π ρ) :
    (t.store s r).table = t.table := rfl

@[simp] theorem remove_rows (t : MultiIndex π σ κ ρ) (s : σ) (k : κ) :
    (t.remove s k).rows = put t.rows s k none := rfl

theorem emplace_eq_ok {t t' : MultiIndex π σ κ ρ} {s : σ} {p : π} {row : ρ} :
    t.emplace s p row = .ok t' ↔
      t.rows s (primary_key row) = none ∧ t' = (t.store s ⟨row, p⟩).grow s p := by
  simp only [emplace, bind_eq_ok, check_eq_ok, pure_eq_ok, Except.ok.injEq, exists_and_left,
    exists_const, eq_comm (a := t')]

theorem modify_eq_ok {t t' : MultiIndex π σ κ ρ} {s : σ} {k : κ} {p : Option π}
    {f : ρ → Except String ρ} :
    t.modify s k p f = .ok t' ↔ ∃ r row, t.rows s k = some r ∧ f r.row = .ok row ∧
      primary_key row = k ∧ t' = t.store s ⟨row, p.getD r.payer⟩ := by
  unfold modify
  split <;> rename_i h
  · simp [h]
  · simp only [h, bind_eq_ok, check_eq_ok, pure_eq_ok, Except.ok.injEq, exists_and_left,
      exists_const, Option.some.injEq, exists_eq_left', eq_comm (a := t')]

theorem modify_of_find {t : MultiIndex π σ κ ρ} {s : σ} {k : κ} {r : Stored π ρ} {p : Option π}
    {f : ρ → Except String ρ} (h : t.rows s k = some r)
    (hk : ∀ row, f r.row = .ok row → primary_key row = k) :
    t.modify s k p f = (f r.row).map fun row => t.store s ⟨row, p.getD r.payer⟩ := by
  simp only [modify, h]
  cases hf : f r.row with
  | error e => rfl
  | ok row => simp only [ok_bind, check_true (hk row hf), pure_eq_ok, Except.map]

theorem erase_eq_ok {t t' : MultiIndex π σ κ ρ} {s : σ} {k : κ} :
    t.erase s k = .ok t' ↔ t.rows s k ≠ none ∧ t' = (t.remove s k).shrink s := by
  simp only [erase, bind_eq_ok, check_eq_ok, pure_eq_ok, Except.ok.injEq, exists_and_left,
    exists_const, eq_comm (a := t')]

theorem find_emplace {t t' : MultiIndex π σ κ ρ} {s : σ} {p : π} {row : ρ} (h : t.emplace s p row = .ok t')
    (s' : σ) (k : κ) : t'.find s' k = if s' = s ∧ k = primary_key row then some row else t.find s' k := by
  obtain ⟨-, rfl⟩ := emplace_eq_ok.1 h
  exact find_store t s s' k ⟨row, p⟩

theorem find_modify {t t' : MultiIndex π σ κ ρ} {s : σ} {k : κ} {p : Option π} {f : ρ → Except String ρ}
    (h : t.modify s k p f = .ok t') : ∃ old row, t.find s k = some old ∧ f old = .ok row ∧
      ∀ s' k', t'.find s' k' = if s' = s ∧ k' = k then some row else t.find s' k' := by
  obtain ⟨r, row, hr, hf, rfl, rfl⟩ := modify_eq_ok.1 h
  exact ⟨r.row, row, find_eq_some.2 ⟨r.payer, hr⟩, hf, fun s' k' => find_store t s s' k' _⟩

theorem find_erase {t t' : MultiIndex π σ κ ρ} {s : σ} {k : κ} (h : t.erase s k = .ok t') (s' : σ) (k' : κ) :
    t'.find s' k' = if s' = s ∧ k' = k then none else t.find s' k' := by
  obtain ⟨-, rfl⟩ := erase_eq_ok.1 h
  simp only [find, shrink_rows, remove_rows, put_apply]
  split <;> rfl

end Lemmas

end MultiIndex

end Vaulta
