import Mathlib.Data.List.Basic
import Mathlib.Data.List.Nodup

/-!
# Tables with an implicit rowid and one unique key

A table without a declared integer primary key gives every row a hidden *rowid*.  `Table ρ κ key`
holds rows over columns `ρ` whose `key` is unique; both uniqueness facts are fields, so a table
with two rows of one rowid, or of one key, cannot be built.

* `Table.fresh` : the rowid the next inserted row gets, `1 +` the largest one present.
* `Table.insertOrReplace` : the rowid is chosen first, then the row of the same key is deleted, so
  replacing a row *changes its rowid*.
* `Table.delete` : delete the rows satisfying a predicate.  It can lower `fresh`, so a rowid is
  handed out again after the row that carried it is gone.
-/

namespace Sql

/-- A stored row: its rowid and its columns. -/
structure Row (ρ : Type*) where
  /-- The implicit rowid. -/
  rowid : ℕ
  /-- The declared columns. -/
  val : ρ
deriving DecidableEq

/-- A table whose rows have distinct rowids and distinct keys. -/
structure Table (ρ κ : Type*) (key : ρ → κ) where
  /-- The rows in storage order. -/
  rows : List (Row ρ)
  /-- No rowid is used twice. -/
  rowids : (rows.map Row.rowid).Nodup
  /-- No key is used twice. -/
  unique : (rows.map fun r => key r.val).Nodup

/-- The largest rowid of a list of rows, `0` if there is none. -/
def maxRowid {ρ : Type*} : List (Row ρ) → ℕ
  | [] => 0
  | r :: rs => max r.rowid (maxRowid rs)

theorem le_maxRowid {ρ : Type*} {r : Row ρ} {rs : List (Row ρ)} (h : r ∈ rs) :
    r.rowid ≤ maxRowid rs := by
  induction rs with
  | nil => cases h
  | cons a rs ih =>
    rcases List.mem_cons.1 h with rfl | h
    · exact Nat.le_max_left _ _
    · exact Nat.le_trans (ih h) (Nat.le_max_right _ _)

theorem maxRowid_le {ρ : Type*} {rs : List (Row ρ)} {n : ℕ} (h : ∀ r ∈ rs, r.rowid ≤ n) :
    maxRowid rs ≤ n := by
  induction rs with
  | nil => exact Nat.zero_le _
  | cons a rs ih =>
    exact Nat.max_le.2 ⟨h a List.mem_cons_self, ih fun r hr => h r (List.mem_cons_of_mem _ hr)⟩

namespace Table

variable {ρ κ : Type*} {key : ρ → κ} (t : Table ρ κ key)

instance : Membership (Row ρ) (Table ρ κ key) := ⟨fun t r => r ∈ t.rows⟩

instance [DecidableEq ρ] (r : Row ρ) (t : Table ρ κ key) : Decidable (r ∈ t) :=
  inferInstanceAs (Decidable (r ∈ t.rows))

theorem ext {t t' : Table ρ κ key} (h : t.rows = t'.rows) : t = t' := by
  cases t; cases t'; cases h; rfl

instance [DecidableEq ρ] : DecidableEq (Table ρ κ key) := fun t t' =>
  decidable_of_iff (t.rows = t'.rows) ⟨ext, congrArg rows⟩

/-- The table with no row. -/
def empty : Table ρ κ key := ⟨[], List.nodup_nil, List.nodup_nil⟩

/-- The rowid of the next inserted row. -/
def fresh : ℕ := maxRowid t.rows + 1

/-- Delete the rows satisfying `p`. -/
def delete (p : Row ρ → Bool) : Table ρ κ key where
  rows := t.rows.filter fun r => !p r
  rowids := t.rowids.sublist (List.filter_sublist.map _)
  unique := t.unique.sublist (List.filter_sublist.map _)

variable {t}

@[simp] theorem not_mem_empty (r : Row ρ) : ¬ r ∈ (empty : Table ρ κ key) := List.not_mem_nil

theorem mem_def {r : Row ρ} : r ∈ t ↔ r ∈ t.rows := Iff.rfl

theorem eq_of_rowid_eq {r r' : Row ρ} (h : r ∈ t) (h' : r' ∈ t) (he : r.rowid = r'.rowid) :
    r = r' :=
  List.inj_on_of_nodup_map t.rowids h h' he

theorem eq_of_key_eq {r r' : Row ρ} (h : r ∈ t) (h' : r' ∈ t) (he : key r.val = key r'.val) :
    r = r' :=
  List.inj_on_of_nodup_map t.unique h h' he

theorem rowid_lt_fresh {r : Row ρ} (h : r ∈ t) : r.rowid < t.fresh :=
  Nat.lt_succ_of_le (le_maxRowid h)

@[simp] theorem mem_delete {p : Row ρ → Bool} {r : Row ρ} : r ∈ t.delete p ↔
    r ∈ t ∧ p r = false := by
  simp [mem_def, delete]

section Lookup

variable [DecidableEq κ]

/-- Selecting by the key gives the one row that has it. -/
theorem filter_key_of_mem {r : Row ρ} (h : r ∈ t) :
    (t.rows.filter fun r' => key r'.val = key r.val) = [r] := by
  have hall : ∀ r' ∈ t.rows.filter (fun r' => key r'.val = key r.val), r' = r := by
    intro r' hr'
    obtain ⟨hm, hk⟩ := List.mem_filter.1 hr'
    exact eq_of_key_eq hm h (by simpa using hk)
  have hmem : r ∈ t.rows.filter (fun r' => key r'.val = key r.val) :=
    List.mem_filter.2 ⟨h, by simp⟩
  -- a list without duplicates all of whose members are `r` is `[r]`
  have hnd := t.unique.of_map.filter fun r' => decide (key r'.val = key r.val)
  rw [List.eq_replicate_of_mem hall] at hnd hmem ⊢
  have hlen := List.nodup_replicate.1 hnd
  have hpos := List.length_pos_of_mem hmem
  rw [List.length_replicate] at hpos
  rw [Nat.le_antisymm hlen hpos, List.replicate_one]

theorem filter_key_of_not_mem {k : κ} (h : ∀ r ∈ t, key r.val ≠ k) :
    (t.rows.filter fun r => key r.val = k) = [] :=
  List.filter_eq_nil_iff.2 fun r hr => by simpa using h r hr

theorem find?_key_of_mem {r : Row ρ} (h : r ∈ t) :
    (t.rows.find? fun r' => key r'.val = key r.val) = some r := by
  rw [← List.head?_filter, filter_key_of_mem h, List.head?_cons]

theorem find?_key_of_not_mem {k : κ} (h : ∀ r ∈ t, key r.val ≠ k) :
    (t.rows.find? fun r => key r.val = k) = none := by
  rw [← List.head?_filter, filter_key_of_not_mem h, List.head?_nil]

end Lookup

section Replace

variable [DecidableEq κ] (t)

/-- Insert the columns `v`, replacing the row with the same key.  The new rowid is chosen while the
replaced row is still there. -/
def insertOrReplace (v : ρ) : Table ρ κ key where
  rows := t.rows.filter (fun r => key r.val ≠ key v) ++ [⟨t.fresh, v⟩]
  rowids := by
    rw [List.map_append, List.nodup_append']
    refine ⟨t.rowids.sublist (List.filter_sublist.map _), List.nodup_singleton _, ?_⟩
    simp only [List.map_cons, List.map_nil, List.disjoint_singleton, List.mem_map, not_exists,
      not_and]
    intro r hr he
    exact absurd he (Nat.ne_of_lt (rowid_lt_fresh (List.mem_of_mem_filter hr)))
  unique := by
    rw [List.map_append, List.nodup_append']
    refine ⟨t.unique.sublist (List.filter_sublist.map _), List.nodup_singleton _, ?_⟩
    simp only [List.map_cons, List.map_nil, List.disjoint_singleton, List.mem_map, not_exists,
      not_and]
    intro r hr
    simpa using (List.mem_filter.1 hr).2

variable {t}

/-- After an insertion the table holds the new row, under a rowid that was in no use, and the old
rows of the other keys. -/
@[simp] theorem mem_insertOrReplace {v : ρ} {r : Row ρ} :
    r ∈ t.insertOrReplace v ↔ (r ∈ t ∧ key r.val ≠ key v) ∨ r = ⟨t.fresh, v⟩ := by
  simp [mem_def, insertOrReplace]

theorem mem_insertOrReplace_self (v : ρ) : ⟨t.fresh, v⟩ ∈ t.insertOrReplace v :=
  mem_insertOrReplace.2 (.inr rfl)

/-- The new row has the largest rowid. -/
@[simp] theorem fresh_insertOrReplace (v : ρ) : (t.insertOrReplace v).fresh = t.fresh + 1 := by
  have hle : maxRowid (t.insertOrReplace v).rows ≤ t.fresh := by
    refine maxRowid_le fun r hr => ?_
    rcases mem_insertOrReplace.1 hr with ⟨hr, -⟩ | rfl
    · exact Nat.le_of_lt (rowid_lt_fresh hr)
    · exact Nat.le_refl _
  have hge : t.fresh ≤ maxRowid (t.insertOrReplace v).rows :=
    le_maxRowid (mem_insertOrReplace_self v)
  rw [fresh, Nat.le_antisymm hle hge]

end Replace

end Table

end Sql
