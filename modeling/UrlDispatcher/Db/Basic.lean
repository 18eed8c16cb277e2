import UrlDispatcher.Sql.Table
import UrlDispatcher.Sql.Like
import UrlDispatcher.Path.Basic
import Mathlib.Data.List.Sort

/-!
# The URL database

The two tables of `create-db.sql` and the functions of `url-db.c` over them.  The only link between
a URL and its file is the *implicit rowid* of the file's row in `configfiles`, which
`urlDbSetFileMotificationTime` changes every time it replaces a timestamp.

Every SQL statement may fail; a `Status` argument says whether it does.  Timestamps pass through
a 32-bit C `int` in both directions (`narrow`).

`urlDbRemoveFile` works on a connection (`Conn`), since it is the one function that opens a
transaction; `urlDbRemoveFile_cases` says that it commits both deletions or none.
-/

namespace UrlDispatcher

open Sql GLib

/-- File names, protocols, domains and URLs, as sequences of characters. -/
abbrev Text := List Char

/-- The suffix of the files the tool reads. -/
def urlDispatcherSuffix : Text := ".url-dispatcher".toList

/-- What becomes of one SQL statement: it runs to `SQLITE_DONE`, or preparing or stepping it
fails and it changes nothing.  SQLite as it is configured by default also fails a `LIKE` with a
pattern of more than 50000 bytes, and so every look-up in a protocol for which a suffix of 50000
bytes or more is stored. -/
inductive Status
  | done
  | error
deriving DecidableEq

/-- A row of `configfiles (name text unique, timestamp bigint)`. -/
structure ConfigFile where
  name : Text
  timestamp : ℤ
deriving DecidableEq

/-- A row of `urls (sourcefile integer, protocol text, domainsuffix text)`, unique in all three
columns together. -/
structure Url where
  sourcefile : ℕ
  protocol : Text
  domainsuffix : Text
deriving DecidableEq

/-- The contents of the URL database. -/
structure Database where
  configfiles : Table ConfigFile Text ConfigFile.name
  urls : Table Url Url id
deriving DecidableEq

/-- The database `create-db.sql` makes. -/
def Database.empty : Database := ⟨Table.empty, Table.empty⟩

/-- Conversion to a 32-bit C `int`: the argument of `sqlite3_bind_int` and the result of
`sqlite3_column_int`. -/
def narrow (x : ℤ) : ℤ := Int.bmod x 0x100000000

namespace Database

variable (db : Database)

/-- `insert or replace into configfiles values (?1, ?2)` -/
def setTimestamp (name : Text) (timestamp : ℤ) : Database :=
  { db with configfiles := db.configfiles.insertOrReplace ⟨name, timestamp⟩ }

/-- `insert or replace into urls select rowid, ?2, ?3 from configfiles where name = ?1` -/
def insertUrl (name protocol domainsuffix : Text) : Database :=
  { db with
    urls := (db.configfiles.rows.filter fun c => c.val.name = name).foldl
      (fun urls c => urls.insertOrReplace ⟨c.rowid, protocol, domainsuffix⟩) db.urls }

/-- `delete from urls where sourcefile in (select rowid from configfiles where name = ?1)` -/
def deleteUrls (name : Text) : Database :=
  { db with
    urls := db.urls.delete fun u =>
      db.configfiles.rows.any fun c =>
        decide (c.val.name = name) && decide (c.rowid = u.val.sourcefile) }

/-- `delete from configfiles where name = ?1` -/
def deleteFile (name : Text) : Database :=
  { db with configfiles := db.configfiles.delete fun c => decide (c.val.name = name) }

/-- The rows of `configfiles, urls where urls.sourcefile = configfiles.rowid`. -/
def join : List (Row ConfigFile × Row Url) :=
  db.configfiles.rows.flatMap fun c =>
    (db.urls.rows.filter fun u => u.val.sourcefile = c.rowid).map fun u => (c, u)

/-- The joined rows `and urls.protocol = ?1 and ?2 like '%' || urls.domainsuffix`. -/
def matching (protocol domain : Text) : List (Row ConfigFile × Row Url) :=
  db.join.filter fun r =>
    decide (r.2.val.protocol = protocol) && like ('%' :: r.2.val.domainsuffix) domain

end Database

/-- `a` may stand before `b` in the order of `order by length(urls.domainsuffix) desc`. -/
def LongerSuffix (a b : Row ConfigFile × Row Url) : Prop :=
  b.2.val.domainsuffix.length ≤ a.2.val.domainsuffix.length

instance : DecidableRel LongerSuffix := fun _ _ => Nat.decLe _ _

instance : Std.Total LongerSuffix := ⟨fun _ _ => Nat.le_total _ _⟩

instance : IsTrans _ LongerSuffix := ⟨fun _ _ _ h h' => Nat.le_trans h' h⟩

/-- How the SQL engine answers `order by length(urls.domainsuffix) desc`.  The order among rows of
one length is its own. -/
structure QueryPlan where
  orderBy : List (Row ConfigFile × Row Url) → List (Row ConfigFile × Row Url)
  perm : ∀ l, (orderBy l).Perm l
  sorted : ∀ l, (orderBy l).Pairwise LongerSuffix

/-- The plan that keeps the storage order among rows of one length. -/
def QueryPlan.stable : QueryPlan where
  orderBy := List.insertionSort LongerSuffix
  perm := List.perm_insertionSort LongerSuffix
  sorted := List.pairwise_insertionSort LongerSuffix

/-! ### Reading and writing -/

/-- `url_db_get_file_motification_time`: the stored second, `none` for the answer `FALSE`. -/
def urlDbGetFileMotificationTime (st : Status) (db : Database) (filename : Text) : Option ℤ :=
  match st with
  | .error => none
  | .done =>
    (db.configfiles.rows.find? fun c => c.val.name = filename).map fun c => narrow c.val.timestamp

/-- `url_db_set_file_motification_time` -/
def urlDbSetFileMotificationTime (st : Status) (db : Database) (filename : Text) (tvSec : ℤ) :
    Database × Bool :=
  match st with
  | .error => (db, false)
  | .done => (db.setTimestamp filename (narrow tvSec), true)

/-- `url_db_insert_url`: a `NULL` suffix is stored as the empty string. -/
def urlDbInsertUrl (st : Status) (db : Database) (filename protocol : Text)
    (domainsuffix : Option Text) : Database × Bool :=
  match st with
  | .error => (db, false)
  | .done => (db.insertUrl filename protocol (domainsuffix.getD []), true)

/-- The AppID of a file: its base name up to the last `.url-dispatcher`. -/
def fileAppid (filename : Text) : Text :=
  match gStrrstr (gPathGetBasename filename) urlDispatcherSuffix with
  | some suffix => (gPathGetBasename filename).take suffix
  | none => gPathGetBasename filename

/-- `url_db_find_url`: a `NULL` domain is looked up as the empty string. -/
def urlDbFindUrl (plan : QueryPlan) (st : Status) (db : Database) (protocol : Text)
    (domainsuffix : Option Text) : Option Text :=
  match st with
  | .error => none
  | .done =>
    (plan.orderBy (db.matching protocol (domainsuffix.getD []))).head?.map fun r =>
      fileAppid r.1.val.name

/-- `url_db_files_for_dir`: `select name from configfiles where name like ?1`, bound to the
directory with a `%` behind it.  The list is built by prepending. -/
def urlDbFilesForDir (st : Status) (db : Database) (dir : Text) : List Text :=
  match st with
  | .error => []
  | .done =>
    ((db.configfiles.rows.map fun c => c.val.name).filter (like (dir ++ ['%']))).reverse

/-! ### Removing a file -/

/-- A connection: the committed contents and, inside a transaction, the contents as changed so
far. -/
structure Conn where
  committed : Database
  txn : Option Database
deriving DecidableEq

namespace Conn

/-- `begin`, which fails inside a transaction. -/
def begin (st : Status) (c : Conn) : Option Conn :=
  match st, c.txn with
  | .done, none => some { c with txn := some c.committed }
  | _, _ => none

/-- Prepare and step one changing statement. -/
def exec (prepare step : Status) (stmt : Database → Database) (c : Conn) : Option Conn :=
  match prepare, step with
  | .done, .done =>
    match c.txn with
    | some db => some { c with txn := some (stmt db) }
    | none => some { c with committed := stmt c.committed }
  | _, _ => none

/-- `commit`, which leaves the transaction open when it fails. -/
def commit (st : Status) (c : Conn) : Option Conn :=
  match st, c.txn with
  | .done, some db => some ⟨db, none⟩
  | _, _ => none

/-- `rollback` -/
def rollback (c : Conn) : Conn := { c with txn := none }

end Conn

/-- Which of the statements of `url_db_remove_file` fail. -/
structure RemoveStatus where
  begin : Status
  prepareUrls : Status
  stepUrls : Status
  prepareFile : Status
  stepFile : Status
  commit : Status
deriving DecidableEq

/-- Every statement succeeds. -/
def RemoveStatus.allDone : RemoveStatus := ⟨.done, .done, .done, .done, .done, .done⟩

/-- `url_db_remove_file` -/
def urlDbRemoveFile (st : RemoveStatus) (c : Conn) (path : Text) : Conn × Bool :=
  match c.begin st.begin with
  | none => (c, false)
  | some c =>
    match c.exec st.prepareUrls st.stepUrls (·.deleteUrls path) with
    | none => (c.rollback, false)
    | some c =>
      -- each failure rolls back what has been deleted so far
      match c.exec st.prepareFile st.stepFile (·.deleteFile path) with
      | none => (c.rollback, false)
      | some c =>
        match c.commit st.commit with
        | none => (c.rollback, false)
        | some c => (c, true)

/-- The database after both deletions. -/
def Database.remove (db : Database) (path : Text) : Database :=
  (db.deleteUrls path).deleteFile path

/-- **Removing a file is all or nothing**: on a connection outside a transaction either no
statement fails and both deletions are committed, or nothing is changed and no transaction stays
open. -/
theorem urlDbRemoveFile_cases (st : RemoveStatus) (db : Database) (path : Text) :
    (st = .allDone ∧ urlDbRemoveFile st ⟨db, none⟩ path = (⟨db.remove path, none⟩, true)) ∨
      (st ≠ .allDone ∧ urlDbRemoveFile st ⟨db, none⟩ path = (⟨db, none⟩, false)) := by
  obtain ⟨b, pu, su, pf, sf, cm⟩ := st
  cases b with
  | error => right; exact ⟨by simp [RemoveStatus.allDone], rfl⟩
  | done =>
    by_cases h : pu = .done ∧ su = .done ∧ pf = .done ∧ sf = .done ∧ cm = .done
    · obtain ⟨rfl, rfl, rfl, rfl, rfl⟩ := h
      left; exact ⟨rfl, rfl⟩
    · right
      refine ⟨fun he => h ?_, ?_⟩
      · simp only [RemoveStatus.allDone, RemoveStatus.mk.injEq, true_and] at he
        exact he
      · cases pu <;> cases su <;> cases pf <;> cases sf <;> cases cm <;> first | rfl | simp at h

end UrlDispatcher
