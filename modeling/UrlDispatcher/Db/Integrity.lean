import UrlDispatcher.Db.Registry
import UrlDispatcher.Machine.Basic

/-!
# The links from URLs to files

`create-db.sql` declares no foreign key: that every URL row points to a file row
(`Database.Referential`) is left to the three functions that write to the tables.

* `urlDbRemoveFile_allOrNothing` : a removal deletes the file's row together with its URL rows, or
  changes nothing, and leaves no transaction open.
* `Database.referential_iff_clears` : the links are intact exactly when removing every known file
  empties both tables.
* `referential_setTimestamp_iff` : replacing the row of a file that has URLs is what breaks them,
  since the new row has another rowid.
* `keepsIntegrity_iff` : the links stay intact along a sequence of calls exactly when none of them
  does that.
-/

namespace UrlDispatcher

open Sql

/-! ### Removing a file -/

/-- `db'` is `db` without the row of the file `path` and without the URL rows of that row. -/
structure Database.WithoutFile (db db' : Database) (path : Text) : Prop where
  configfiles : ∀ c, c ∈ db'.configfiles ↔ c ∈ db.configfiles ∧ c.val.name ≠ path
  urls : ∀ u, u ∈ db'.urls ↔
    u ∈ db.urls ∧ ∀ c ∈ db.configfiles, c.val.name = path → u.val.sourcefile ≠ c.rowid

theorem Database.withoutFile_remove (db : Database) (path : Text) :
    db.WithoutFile (db.remove path) path where
  configfiles _ := Database.mem_remove_configfiles
  urls _ := Database.mem_remove_urls

/-- Inside a transaction `begin` fails, and nothing happens. -/
theorem urlDbRemoveFile_of_txn {st : RemoveStatus} {c : Conn} {path : Text} (h : c.txn ≠ none) :
    urlDbRemoveFile st c path = (c, false) := by
  have hbegin : c.begin st.begin = none := by
    obtain ⟨committed, _ | db⟩ := c
    · exact absurd rfl h
    · cases st.begin <;> rfl
  rw [urlDbRemoveFile, hbegin]

/-- **A removal is all or nothing**, whichever of its statements fails. -/
theorem urlDbRemoveFile_allOrNothing (st : RemoveStatus) (c : Conn) (path : Text) :
    ((urlDbRemoveFile st c path).2 = true ↔ c.txn = none ∧ st = .allDone) ∧
      ((urlDbRemoveFile st c path).2 = true →
        c.committed.WithoutFile (urlDbRemoveFile st c path).1.committed path) ∧
      ((urlDbRemoveFile st c path).2 = false →
        (urlDbRemoveFile st c path).1.committed = c.committed) ∧
      (c.txn = none → (urlDbRemoveFile st c path).1.txn = none ∧
        ∀ path', (urlDbRemoveFile .allDone (urlDbRemoveFile st c path).1 path').2 = true) := by
  obtain ⟨db, txn⟩ := c
  cases txn with
  | some t =>
    rw [urlDbRemoveFile_of_txn (by simp)]
    simp
  | none =>
    rcases urlDbRemoveFile_cases st db path with ⟨rfl, he⟩ | ⟨hst, he⟩
    · rw [he]
      exact ⟨by simp, fun _ => db.withoutFile_remove path, by simp, fun _ => ⟨rfl, fun _ => rfl⟩⟩
    · rw [he]
      exact ⟨by simp [hst], by simp, fun _ => rfl, fun _ => ⟨rfl, fun _ => rfl⟩⟩

/-! ### Sequences of calls -/

/-- A call of one of the functions that write to the tables. -/
inductive DbCall
  | setFileMotificationTime (st : Status) (filename : Text) (tvSec : ℤ)
  | insertUrl (st : Status) (filename protocol : Text) (domainsuffix : Option Text)
  | removeFile (st : RemoveStatus) (path : Text)

/-- The committed contents after a call outside a transaction. -/
def DbCall.run (db : Database) : DbCall → Database
  | .setFileMotificationTime st filename tvSec =>
    (urlDbSetFileMotificationTime st db filename tvSec).1
  | .insertUrl st filename protocol domainsuffix =>
    (urlDbInsertUrl st db filename protocol domainsuffix).1
  | .removeFile st path => (urlDbRemoveFile st ⟨db, none⟩ path).1.committed

/-- The database after a sequence of calls. -/
def afterCalls (db : Database) (cs : List DbCall) : Database := cs.foldl DbCall.run db

namespace Database

variable (db : Database)

/-- Every URL row points to a file row. -/
def Referential : Prop := ∀ u ∈ db.urls, ∃ c ∈ db.configfiles, c.rowid = u.val.sourcefile

instance : Decidable db.Referential :=
  inferInstanceAs (Decidable
    (∀ u ∈ db.urls.rows, ∃ c ∈ db.configfiles.rows, c.rowid = u.val.sourcefile))

/-- Removing every known file, in any order, leaves both tables empty. -/
def Clears : Prop :=
  ∀ names : List Text, (∀ c ∈ db.configfiles, c.val.name ∈ names) →
    afterCalls db (names.map (.removeFile .allDone)) = .empty

/-- There are URL rows for the file. -/
def HasUrls (filename : Text) : Prop :=
  ∃ c ∈ db.configfiles, c.val.name = filename ∧ ∃ u ∈ db.urls, u.val.sourcefile = c.rowid

variable {db}

theorem referential_empty : Database.empty.Referential :=
  fun _ hu => absurd hu (Table.not_mem_empty _)

/-- The row of a file that has URLs cannot be replaced without breaking a link: the new row has
another rowid. -/
theorem referential_setTimestamp_iff (h : db.Referential) (n : Text) (τ : ℤ) :
    (db.setTimestamp n τ).Referential ↔ ¬ db.HasUrls n := by
  constructor
  · rintro h' ⟨c, hc, hn, u, hu, hs⟩
    obtain ⟨c', hc', hs'⟩ := h' u hu
    rw [hs] at hs'
    rcases Table.mem_insertOrReplace.1 hc' with ⟨hc', hn'⟩ | rfl
    · rw [Table.eq_of_rowid_eq hc' hc hs'] at hn'
      exact hn' hn
    · exact absurd hs'.symm (Nat.ne_of_lt (Table.rowid_lt_fresh hc))
  · intro hno u hu
    obtain ⟨c, hc, hs⟩ := h u hu
    refine ⟨c, Table.mem_insertOrReplace.2 (.inl ⟨hc, fun hn => ?_⟩), hs⟩
    exact hno ⟨c, hc, hn, u, hu, hs.symm⟩

theorem Referential.insertUrl (h : db.Referential) (n p s : Text) :
    (db.insertUrl n p s).Referential := by
  by_cases hn : ∃ c ∈ db.configfiles, c.val.name = n
  · obtain ⟨c, hc, rfl⟩ := hn
    rw [insertUrl_of_mem hc]
    intro u hu
    rcases Table.mem_insertOrReplace.1 hu with ⟨hu, -⟩ | rfl
    · exact h u hu
    · exact ⟨c, hc, rfl⟩
  · rw [insertUrl_of_not_mem fun c hc he => hn ⟨c, hc, he⟩]
    exact h

theorem Referential.remove (h : db.Referential) (n : Text) : (db.remove n).Referential := by
  intro u hu
  obtain ⟨hu, hno⟩ := mem_remove_urls.1 hu
  obtain ⟨c, hc, hs⟩ := h u hu
  exact ⟨c, mem_remove_configfiles.2 ⟨hc, fun hn => hno c hc hn hs.symm⟩, hs⟩

/-! ### Removing every file -/

theorem afterCalls_removeFile (names : List Text) :
    afterCalls db (names.map (.removeFile .allDone)) = names.foldl remove db := by
  rw [afterCalls, List.foldl_map]
  rfl

theorem mem_foldl_remove_configfiles {names : List Text} {c : Row ConfigFile} :
    c ∈ (names.foldl remove db).configfiles ↔ c ∈ db.configfiles ∧ c.val.name ∉ names := by
  induction names generalizing db with
  | nil => simp
  | cons n names ih =>
    rw [List.foldl_cons, ih, mem_remove_configfiles, List.mem_cons, not_or, and_assoc]

theorem Referential.foldl_remove (h : db.Referential) (names : List Text) :
    (names.foldl Database.remove db).Referential := by
  induction names generalizing db with
  | nil => exact h
  | cons n names ih => exact ih (h.remove n)

/-- A URL row that points to no file is never removed. -/
theorem mem_foldl_remove_urls {u : Row Url} (hu : u ∈ db.urls)
    (hno : ∀ c ∈ db.configfiles, c.rowid ≠ u.val.sourcefile) (names : List Text) :
    u ∈ (names.foldl remove db).urls := by
  induction names generalizing db with
  | nil => exact hu
  | cons n names ih =>
    refine ih (mem_remove_urls.2 ⟨hu, fun c hc _ hs => hno c hc hs.symm⟩) fun c hc => ?_
    exact hno c (mem_remove_configfiles.1 hc).1

theorem eq_empty_iff : db = .empty ↔ (∀ c, ¬ c ∈ db.configfiles) ∧ ∀ u, ¬ u ∈ db.urls := by
  constructor
  · rintro rfl
    exact ⟨Table.not_mem_empty, Table.not_mem_empty⟩
  · rintro ⟨hc, hu⟩
    obtain ⟨configfiles, urls⟩ := db
    have hc : configfiles = .empty := Table.ext (List.eq_nil_iff_forall_not_mem.2 hc)
    have hu : urls = .empty := Table.ext (List.eq_nil_iff_forall_not_mem.2 hu)
    rw [hc, hu]
    rfl

/-- **The links are intact** exactly when removing every known file leaves nothing behind. -/
theorem referential_iff_clears : db.Referential ↔ db.Clears := by
  constructor
  · intro h names hall
    rw [afterCalls_removeFile, eq_empty_iff]
    have hnone : ∀ c, ¬ c ∈ (names.foldl Database.remove db).configfiles := fun c hc =>
      (mem_foldl_remove_configfiles.1 hc).2 (hall c (mem_foldl_remove_configfiles.1 hc).1)
    refine ⟨hnone, fun u hu => ?_⟩
    obtain ⟨c, hc, -⟩ := Referential.foldl_remove h names u hu
    exact hnone c hc
  · intro h u hu
    by_contra hno
    have hno : ∀ c ∈ db.configfiles, c.rowid ≠ u.val.sourcefile := fun c hc he => hno ⟨c, hc, he⟩
    have hcl := h (db.configfiles.rows.map fun c => c.val.name) fun c hc =>
      List.mem_map_of_mem hc
    rw [afterCalls_removeFile, eq_empty_iff] at hcl
    exact hcl.2 u (mem_foldl_remove_urls hu hno _)

end Database

/-! ### The links along a run -/

/-- The call replaces the row of a file that has URLs. -/
def DbCall.Orphans (db : Database) : DbCall → Prop
  | .setFileMotificationTime .done filename _ => db.HasUrls filename
  | _ => False

/-- A call keeps the links intact exactly when it replaces no row that URLs point to. -/
theorem DbCall.referential_run_iff {db : Database} (h : db.Referential) (d : DbCall) :
    (d.run db).Referential ↔ ¬ d.Orphans db := by
  cases d with
  | setFileMotificationTime st filename tvSec =>
    cases st with
    | done => exact Database.referential_setTimestamp_iff h _ _
    | error => exact iff_of_true h id
  | insertUrl st filename protocol domainsuffix =>
    cases st with
    | done => exact iff_of_true (h.insertUrl _ _ _) id
    | error => exact iff_of_true h id
  | removeFile st path =>
    refine iff_of_true ?_ id
    rw [DbCall.run]
    rcases urlDbRemoveFile_cases st db path with ⟨-, he⟩ | ⟨-, he⟩
    · rw [he]
      exact h.remove path
    · rw [he]
      exact h

/-- **Referential integrity** holds in every state of a run from the empty database, and clearing
works in each, if and only if no call of the run replaces the row of a file that has URLs. -/
theorem keepsIntegrity_iff (cs : List DbCall) :
    (∀ ds, ds <+: cs →
        (afterCalls .empty ds).Referential ∧ (afterCalls .empty ds).Clears) ↔
      ∀ ds d, ds ++ [d] <+: cs → ¬ d.Orphans (afterCalls .empty ds) := by
  have hboth : ∀ db : Database, db.Referential ∧ db.Clears ↔ db.Referential := fun db =>
    and_iff_left_of_imp Database.referential_iff_clears.1
  simp only [hboth]
  exact Machine.forall_foldl_iff (I := Database.Referential)
    (fun _ d h => DbCall.referential_run_iff h d) Database.referential_empty cs

/-- A file is registered with one URL and its modification time is set again. -/
def restampCalls : List DbCall :=
  [.setFileMotificationTime .done "/foo.url-dispatcher".toList 12345,
    .insertUrl .done "/foo.url-dispatcher".toList "bar".toList (some "foo.com".toList),
    .setFileMotificationTime .done "/foo.url-dispatcher".toList 67890]

/-- The URL of a file is left behind when the file's modification time is set again, and the
removal of the file does not reach it. -/
theorem not_keepsIntegrity_restamp :
    ¬ ∀ cs, (afterCalls .empty cs).Referential ∧ (afterCalls .empty cs).Clears := by
  intro h
  have hno : ¬ (afterCalls .empty restampCalls).Referential := by decide
  exact hno (h restampCalls).1

end UrlDispatcher
