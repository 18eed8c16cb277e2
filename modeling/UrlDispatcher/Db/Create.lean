import UrlDispatcher.Db.Integrity
import UrlDispatcher.Machine.Simulation

/-!
# Opening the database

The service and every run of `update-directory` open the database with `url_db_create_database`,
which makes the cache directory and the tables if they are not there.  Any number of processes may
do so at once, each of its steps may fail, and a process may be killed between any two of them.

`Openers` is the world of these processes.  The script `create-db.sql` is executed statement by
statement; between `begin` and `commit` a connection works on a snapshot.  The first statement that
changes anything takes the write lock, which only one connection can hold, and which it holds until
it commits (`SqlStmt.exec`).  There is no busy timeout, so who needs the lock meanwhile fails.

* `Openers.Sound.step` : what is committed is nothing, or both tables with their index.
* `Openers.opened_of_run` : a connection that has been returned finds the tables; the rows are those
  that the calls on such connections leave, opening has no part in them; and wherever the others
  have been stopped, a process that is left alone gets a connection if and only if none of them
  holds the write lock.
-/

namespace UrlDispatcher

open Sql Machine

/-! ### The script -/

/-- What is committed in the file of the database.  For SQLite a file without tables is the same as
no file. -/
structure DbFile where
  configfiles : Option (Table ConfigFile Text ConfigFile.name)
  urls : Option (Table Url Url id)
  /-- There is the unique index of `urls`. -/
  urlsIndex : Bool
deriving DecidableEq

namespace DbFile

/-- No table. -/
def blank : DbFile := ⟨none, none, false⟩

/-- Both tables, and the index. -/
def full (db : Database) : DbFile := ⟨some db.configfiles, some db.urls, true⟩

/-- The rows. -/
def database (f : DbFile) : Database :=
  ⟨f.configfiles.getD Table.empty, f.urls.getD Table.empty⟩

/-- The file after a call.  Without the tables no statement can be prepared. -/
def call (f : DbFile) (c : DbCall) : DbFile :=
  match f.configfiles, f.urls with
  | some configfiles, some urls =>
    let db := c.run ⟨configfiles, urls⟩
    ⟨some db.configfiles, some db.urls, f.urlsIndex⟩
  | _, _ => f

end DbFile

/-- What the script creates. -/
inductive DbObject
  | configfiles
  | urls
  | urlsIndex

/-- `create … if not exists` -/
def DbObject.create (f : DbFile) : DbObject → Option DbFile
  | .configfiles => some { f with configfiles := some (f.configfiles.getD Table.empty) }
  | .urls => some { f with urls := some (f.urls.getD Table.empty) }
  | .urlsIndex => if f.urls.isSome then some { f with urlsIndex := true } else none

/-- The statements of the script. -/
inductive SqlStmt
  /-- `pragma journal_mode = WAL` -/
  | journalMode
  | begin
  | create (o : DbObject)
  | commit

/-- `create_db_sql` -/
def createDbSql : List SqlStmt :=
  [.journalMode, .begin, .create .configfiles, .create .urls, .create .urlsIndex, .commit]

/-- The transaction of a connection. -/
inductive Txn
  | none
  /-- Begun, and nothing read yet. -/
  | begun
  /-- The file as it was read. -/
  | reading (snapshot : DbFile)
  /-- The file with the changes.  The connection has the write lock. -/
  | writing (pending : DbFile)

/-- `create … if not exists` on a snapshot of the file, where another connection may have the write
lock. -/
def DbObject.createOn (locked : Bool) (file snapshot : DbFile) (o : DbObject) : Option Txn :=
  (o.create snapshot).bind fun f =>
    if f = snapshot then some (.reading snapshot)
    -- SQLITE_BUSY, and SQLITE_BUSY_SNAPSHOT if it is not the newest one
    else if locked ∨ file ≠ snapshot then none
    else some (.writing f)

/-- What a statement makes of the file and the transaction, `none` for an error.  Another connection
may have the write lock. -/
def SqlStmt.exec (locked : Bool) (file : DbFile) : Txn → SqlStmt → Option (DbFile × Txn)
  | txn, .journalMode => some (file, txn)
  | .none, .begin => some (file, .begun)
  | .none, .create o =>
    (o.create file).bind fun f => if locked ∧ f ≠ file then none else some (f, .none)
  | .begun, .create o => (o.createOn locked file file).map fun txn => (file, txn)
  | .reading s, .create o => (o.createOn locked file s).map fun txn => (file, txn)
  | .writing f, .create o => (o.create f).map fun f => (file, .writing f)
  | .begun, .commit => some (file, .none)
  | .reading _, .commit => some (file, .none)
  | .writing f, .commit => some (f, .none)
  | _, _ => none

/-! ### The processes -/

/-- What there is at the path of the cache directory. -/
inductive CacheDir
  | missing
  | directory
  /-- A file. -/
  | other
deriving DecidableEq

/-- Where a process is in `url_db_create_database`. -/
inductive Opener
  /-- Before `g_file_test`. -/
  | start
  /-- Before `g_mkdir_with_parents`. -/
  | making
  /-- Before `sqlite3_open`. -/
  | opening
  /-- In `sqlite3_exec`, before the remaining statements. -/
  | executing (txn : Txn) (rest : List SqlStmt)
  /-- The connection has been returned. -/
  | opened
  /-- `NULL` has been returned, or the process is over. -/
  | ended

/-- The process is in a transaction that has changed something. -/
def Opener.writing : Opener → Bool
  | .executing (.writing _) _ => true
  | _ => false

/-- The file system, the database, the process that has the write lock, and the processes by their
number. -/
structure Openers where
  cacheDir : CacheDir
  file : DbFile
  writer : Option ℕ
  procs : ℕ → Opener

/-- What can happen. -/
inductive OpenerEvent
  /-- A process calls `url_db_create_database`. -/
  | launch (i : ℕ)
  /-- A process makes a step, which may fail. -/
  | exec (i : ℕ) (st : Status)
  /-- A function of `url-db.c` is called on a connection. -/
  | call (i : ℕ) (c : DbCall)
  /-- A process ends, or is killed. -/
  | kill (i : ℕ)

namespace Openers

/-- Another process has the write lock. -/
def locked (w : Openers) (i : ℕ) : Bool := w.writer.any (· != i)

/-- A process moves.  It has the write lock while it writes, and no longer, also if it is killed. -/
def setProc (w : Openers) (i : ℕ) (o : Opener) : Openers :=
  { w with
    writer := if o.writing then some i else w.writer.filter (· != i)
    procs := Function.update w.procs i o }

/-- The next state of the world. -/
def step (w : Openers) : OpenerEvent → Option Openers
  | .launch i =>
    match w.procs i with
    | .ended => some (w.setProc i .start)
    | _ => none
  | .exec i st =>
    match w.procs i with
    -- the test takes a file for a directory
    | .start => some (w.setProc i (if w.cacheDir = .missing then .making else .opening))
    | .making =>
      if st = .done ∧ w.cacheDir ≠ .other then
        some ({ w with cacheDir := .directory }.setProc i .opening)
      else some (w.setProc i .ended)
    | .opening =>
      if st = .done ∧ w.cacheDir = .directory then
        some (w.setProc i (.executing .none createDbSql))
      else some (w.setProc i .ended)
    | .executing txn (stmt :: rest) =>
      match st, stmt.exec (w.locked i) w.file txn with
      | .done, some (file, txn) => some ({ w with file := file }.setProc i (.executing txn rest))
      | _, _ => some (w.setProc i .ended)
    | .executing _ [] => some (w.setProc i .opened)
    | _ => none
  | .call i c =>
    match w.procs i with
    | .opened =>
      -- while another one has the lock, the statements that write fail
      if w.locked i ∧ w.file.call c ≠ w.file then none
      else some { w with file := w.file.call c }
    | _ => none
  | .kill i => some (w.setProc i .ended)

/-- What a step of the world can do. -/
inductive Step (w : Openers) : OpenerEvent → Openers → Prop
  | launch {i : ℕ} (h : w.procs i = .ended) : Step w (.launch i) (w.setProc i .start)
  | test {i : ℕ} {st : Status} (h : w.procs i = .start) :
      Step w (.exec i st) (w.setProc i (if w.cacheDir = .missing then .making else .opening))
  | make {i : ℕ} (h : w.procs i = .making) (hdir : w.cacheDir ≠ .other) :
      Step w (.exec i .done) ({ w with cacheDir := .directory }.setProc i .opening)
  | openFile {i : ℕ} (h : w.procs i = .opening) (hdir : w.cacheDir = .directory) :
      Step w (.exec i .done) (w.setProc i (.executing .none createDbSql))
  | exec {i : ℕ} {txn txn' : Txn} {stmt : SqlStmt} {rest : List SqlStmt} {file : DbFile}
      (h : w.procs i = .executing txn (stmt :: rest))
      (hs : stmt.exec (w.locked i) w.file txn = some (file, txn')) :
      Step w (.exec i .done) ({ w with file := file }.setProc i (.executing txn' rest))
  | complete {i : ℕ} {st : Status} {txn : Txn} (h : w.procs i = .executing txn []) :
      Step w (.exec i st) (w.setProc i .opened)
  /-- `NULL` is returned. -/
  | fail {i : ℕ} {st : Status} : Step w (.exec i st) (w.setProc i .ended)
  | call {i : ℕ} {c : DbCall} (h : w.procs i = .opened)
      (hlock : ¬ (w.locked i ∧ w.file.call c ≠ w.file)) :
      Step w (.call i c) { w with file := w.file.call c }
  | kill {i : ℕ} : Step w (.kill i) (w.setProc i .ended)

theorem step_sound {w w' : Openers} {e : OpenerEvent} (h : w.step e = some w') : Step w e w' := by
  cases e with
  | launch i =>
    simp only [step] at h
    split at h
    · cases h
      exact .launch ‹_›
    · cases h
  | exec i st =>
    simp only [step] at h
    split at h
    · cases h
      exact .test ‹_›
    · split_ifs at h with hdir <;> cases h
      · rw [hdir.1]
        exact .make ‹_› hdir.2
      · exact .fail
    · split_ifs at h with hdir <;> cases h
      · rw [hdir.1]
        exact .openFile ‹_› hdir.2
      · exact .fail
    · split at h <;> cases h
      · exact .exec ‹_› ‹_›
      · exact .fail
    · cases h
      exact .complete ‹_›
    · cases h
  | call i c =>
    simp only [step] at h
    split at h
    · split_ifs at h with hlock
      cases h
      exact .call ‹_› hlock
    · cases h
  | kill i =>
    cases h
    exact .kill

end Openers

/-! ### What is committed -/

namespace DbFile

variable {f : DbFile}

/-- What may be committed: nothing, or everything. -/
def Settled (f : DbFile) : Prop := f = blank ∨ ∃ db, f = full db

theorem call_full (db : Database) (c : DbCall) : (full db).call c = full (c.run db) := rfl

theorem full_ne_blank {db : Database} : full db ≠ blank := fun h => by cases h

/-- There is nothing left to create. -/
theorem create_full (db : Database) (o : DbObject) : o.create (full db) = some (full db) := by
  cases o <;> rfl

theorem createOn_full {locked : Bool} {file : DbFile} (db : Database) (o : DbObject) :
    o.createOn locked file (full db) = some (.reading (full db)) := by
  rw [DbObject.createOn, create_full, Option.bind_some, if_pos rfl]

/-- The first statement of the transaction on an empty file needs the lock. -/
theorem createOn_blank (locked : Bool) :
    DbObject.configfiles.createOn locked blank blank =
      if locked then none else some (.writing { blank with configfiles := some Table.empty }) := by
  cases locked <;> rfl

/-- What is left of the script makes of a file. -/
def finish (f : DbFile) : List SqlStmt → Option DbFile
  | .create o :: rest => (o.create f).bind fun f => f.finish rest
  | [.commit] => some f
  | _ => none

end DbFile

namespace Opener

/-- The invariant of a process.  In a transaction, what is left of the script makes everything out
of the changes, of which there are none if everything has been there before. -/
def Sound (file : DbFile) : Opener → Prop
  | .executing .none rest =>
    rest = createDbSql ∨ rest = createDbSql.drop 1 ∨ (rest = [] ∧ ∃ db, file = .full db)
  | .executing .begun rest => rest = createDbSql.drop 2
  | .executing (.reading s) rest =>
    (∃ db, s = .full db) ∧ s.finish rest = some s ∧ ∃ db, file = .full db
  | .executing (.writing f) rest => file = .blank ∧ f.finish rest = some (.full Database.empty)
  | .opened => ∃ db, file = .full db
  | _ => True

/-- The lock is only taken to make the tables. -/
theorem Sound.eq_blank {file : DbFile} {o : Opener} (h : o.Sound file) (ho : o.writing) :
    file = .blank := by
  cases o with
  | executing txn rest =>
    cases txn with
    | writing f => exact h.1
    | _ => cases ho
  | _ => cases ho

/-- Somebody else changes the file, which a process that writes prevents.  What is everything stays
so. -/
theorem Sound.mono {file file' : DbFile} {o : Opener} (h : o.Sound file)
    (hwriting : o.writing → file' = file)
    (hfull : (∃ db, file = .full db) → ∃ db, file' = .full db) : o.Sound file' := by
  cases o with
  | executing txn rest =>
    cases txn with
    | none => exact h.imp_right fun h => h.imp_right fun h => ⟨h.1, hfull h.2⟩
    | begun => exact h
    | reading s => exact ⟨h.1, h.2.1, hfull h.2.2⟩
    | writing f => exact ⟨(hwriting rfl).trans h.1, h.2⟩
  | opened => exact hfull h
  | _ => trivial

/-- What one statement of the script may do to the file: nothing, or the process that has the lock
commits. -/
def Commits (file file' : DbFile) (o : Opener) : Prop :=
  file' = file ∨ (o.writing ∧ file = .blank ∧ file' = .full Database.empty)

/-- One statement of the script keeps the invariant of its process.  Only a process that writes
changes the file, and one begins to write only if no other one does. -/
theorem Sound.exec {locked : Bool} {file file' : DbFile} {txn txn' : Txn} {stmt : SqlStmt}
    {rest : List SqlStmt} (h : (executing txn (stmt :: rest)).Sound file) (hfile : file.Settled)
    (hs : stmt.exec locked file txn = some (file', txn')) :
    (executing txn' rest).Sound file' ∧ Commits file file' (.executing txn (stmt :: rest)) ∧
      ((executing txn' rest).writing → (executing txn (stmt :: rest)).writing ∨ !locked) := by
  cases txn with
  | none =>
    rcases h with h | h | ⟨h, -⟩
    · cases h
      cases hs
      exact ⟨.inr (.inl rfl), .inl rfl, nofun⟩
    · cases h
      cases hs
      exact ⟨rfl, .inl rfl, nofun⟩
    · cases h
  | begun =>
    cases h
    rw [SqlStmt.exec, Option.map_eq_some_iff] at hs
    obtain ⟨txn', htxn, he⟩ := hs
    cases he
    rcases hfile with rfl | ⟨db, rfl⟩
    · rw [DbFile.createOn_blank] at htxn
      split_ifs at htxn with hlocked
      cases htxn
      exact ⟨⟨rfl, rfl⟩, .inl rfl, fun _ => .inr (by simpa using hlocked)⟩
    · rw [DbFile.createOn_full] at htxn
      cases htxn
      exact ⟨⟨⟨db, rfl⟩, rfl, db, rfl⟩, .inl rfl, nofun⟩
  | reading s =>
    obtain ⟨⟨db, rfl⟩, hfinish, hfull⟩ := h
    cases stmt with
    | journalMode => cases hfinish
    | begin => cases hs
    | create o =>
      rw [SqlStmt.exec, DbFile.createOn_full, Option.map_some] at hs
      cases hs
      rw [DbFile.finish, DbFile.create_full, Option.bind_some] at hfinish
      exact ⟨⟨⟨db, rfl⟩, hfinish, hfull⟩, .inl rfl, nofun⟩
    | commit =>
      cases rest with
      | cons stmt rest => cases hfinish
      | nil =>
        cases hs
        exact ⟨.inr (.inr ⟨rfl, hfull⟩), .inl rfl, nofun⟩
  | writing f =>
    obtain ⟨hblank, hfinish⟩ := h
    cases stmt with
    | journalMode => cases hfinish
    | begin => cases hs
    | create o =>
      rw [SqlStmt.exec, Option.map_eq_some_iff] at hs
      obtain ⟨f', hf, he⟩ := hs
      cases he
      rw [DbFile.finish, hf, Option.bind_some] at hfinish
      exact ⟨⟨hblank, hfinish⟩, .inl rfl, fun _ => .inl rfl⟩
    | commit =>
      cases rest with
      | cons stmt rest => cases hfinish
      | nil =>
        obtain rfl : f = .full Database.empty := Option.some.inj hfinish
        cases hs
        exact ⟨.inr (.inr ⟨rfl, _, rfl⟩), .inr ⟨rfl, hblank, rfl⟩, nofun⟩

/-- The next statement of the script can be executed, unless somebody else has the lock. -/
theorem Sound.exists_exec {file : DbFile} {txn : Txn} {stmt : SqlStmt} {rest : List SqlStmt}
    (h : (executing txn (stmt :: rest)).Sound file) (hfile : file.Settled) :
    ∃ file' txn', stmt.exec false file txn = some (file', txn') := by
  cases txn with
  | none =>
    rcases h with h | h | ⟨h, -⟩
    · cases h
      exact ⟨file, .none, rfl⟩
    · cases h
      exact ⟨file, .begun, rfl⟩
    · cases h
  | begun =>
    cases h
    rcases hfile with rfl | ⟨db, rfl⟩
    · exact ⟨_, _, rfl⟩
    · exact ⟨_, _, by rw [SqlStmt.exec, DbFile.createOn_full, Option.map_some]⟩
  | reading s =>
    obtain ⟨⟨db, rfl⟩, hfinish, -⟩ := h
    cases stmt with
    | journalMode => cases hfinish
    | begin => cases hfinish
    | create o => exact ⟨_, _, by rw [SqlStmt.exec, DbFile.createOn_full, Option.map_some]⟩
    | commit => exact ⟨file, .none, rfl⟩
  | writing f =>
    obtain ⟨-, hfinish⟩ := h
    cases stmt with
    | journalMode => cases hfinish
    | begin => cases hfinish
    | create o =>
      obtain ⟨f', hf, -⟩ := Option.bind_eq_some_iff.1 hfinish
      exact ⟨file, .writing f', by rw [SqlStmt.exec, hf, Option.map_some]⟩
    | commit => exact ⟨f, .none, rfl⟩

end Opener

/-! ### Runs -/

/-- The call of an event. -/
def OpenerEvent.calls : OpenerEvent → List DbCall
  | .call _ c => [c]
  | _ => []

namespace Openers

variable {w w' : Openers} {e : OpenerEvent} {i j : ℕ}

@[simp] theorem setProc_procs_self (o : Opener) : (w.setProc i o).procs i = o :=
  Function.update_self ..

theorem setProc_procs_of_ne (h : j ≠ i) (o : Opener) : (w.setProc i o).procs j = w.procs j :=
  Function.update_of_ne h ..

theorem locked_eq_false : w.locked i = false ↔ ∀ j, w.writer = some j → j = i := by
  simp [locked, Option.any_eq_false]

/-- Who has the lock after a process has moved. -/
theorem setProc_writer_self (o : Opener) : (w.setProc i o).writer = some i ↔ o.writing := by
  unfold setProc
  cases o.writing with
  | true => simp
  | false => simp [Option.filter_eq_some_iff]

theorem setProc_writer_of_ne {o : Opener} (hfree : o.writing → w.locked i = false) (h : j ≠ i) :
    (w.setProc i o).writer = some j ↔ w.writer = some j := by
  unfold setProc
  cases ho : o.writing with
  | true =>
    have hj : w.writer ≠ some j := fun hj => h (locked_eq_false.1 (hfree ho) j hj)
    simp [hj, h.symm]
  | false => simp [Option.filter_eq_some_iff, h]

/-- The invariant: nothing or everything is committed, every process is on its way, and the lock is
with the one that writes. -/
structure Sound (w : Openers) : Prop where
  settled : w.file.Settled
  procs : ∀ i, (w.procs i).Sound w.file
  writer : ∀ i, w.writer = some i ↔ (w.procs i).writing

/-- A process moves and changes the file, unless another one writes. -/
theorem Sound.move (h : w.Sound) {file : DbFile} {o : Opener} (hfile : file.Settled)
    (ho : o.Sound file) (hfree : o.writing → w.locked i = false)
    (hothers : ∀ j, j ≠ i → (w.procs j).writing → file = w.file)
    (hfull : (∃ db, w.file = .full db) → ∃ db, file = .full db) :
    ({ w with file := file }.setProc i o).Sound := by
  refine ⟨hfile, fun j => ?_, fun j => ?_⟩
  · by_cases hj : j = i
    · rw [hj, setProc_procs_self]
      exact ho
    · rw [setProc_procs_of_ne hj]
      exact (h.procs j).mono (hothers j hj) hfull
  · by_cases hj : j = i
    · rw [hj, setProc_procs_self]
      exact setProc_writer_self o
    · rw [setProc_procs_of_ne hj]
      exact (setProc_writer_of_ne hfree hj).trans (h.writer j)

theorem Sound.setProc (h : w.Sound) {o : Opener} (ho : o.Sound w.file) (hw : o.writing = false) :
    (w.setProc i o).Sound :=
  h.move h.settled ho (by rw [hw]; nofun) (fun _ _ _ => rfl) id

/-- A step keeps the invariant, and changes the rows by its call only. -/
theorem Sound.step (h : w.Sound) (hs : w.step e = some w') :
    w'.Sound ∧ w'.file.database = afterCalls w.file.database e.calls := by
  cases step_sound hs with
  | launch _ => exact ⟨h.setProc trivial rfl, rfl⟩
  | test _ =>
    refine ⟨h.setProc ?_ ?_, rfl⟩
    · split_ifs <;> trivial
    · split_ifs <;> rfl
  | make _ _ =>
    have hw : { w with cacheDir := .directory }.Sound := ⟨h.settled, h.procs, h.writer⟩
    exact ⟨hw.setProc trivial rfl, rfl⟩
  | openFile _ _ => exact ⟨h.setProc (.inl rfl) rfl, rfl⟩
  | @exec i txn txn' stmt rest file hp hexec =>
    obtain ⟨ho, hcommits, hwriting⟩ := (hp ▸ h.procs i).exec h.settled hexec
    have hself : (w.procs i).writing → w.locked i = false := fun hi =>
      locked_eq_false.2 fun j hj => Option.some.inj (hj.symm.trans ((h.writer i).2 hi))
    have hfree : (Opener.executing txn' rest).writing → w.locked i = false := fun hw =>
      (hwriting hw).elim (fun hi => hself (hp ▸ hi)) fun hlocked => by simpa using hlocked
    rcases hcommits with rfl | ⟨hi, hblank, rfl⟩
    · exact ⟨h.move h.settled ho hfree (fun _ _ _ => rfl) id, rfl⟩
    · -- the lock has been with this process, so nobody else writes
      refine ⟨h.move (.inr ⟨_, rfl⟩) ho hfree (fun j hj hw => ?_) fun _ => ⟨_, rfl⟩, ?_⟩
      · exact absurd (locked_eq_false.1 (hself (hp ▸ hi)) j ((h.writer j).2 hw)) hj
      · show _ = w.file.database
        rw [hblank]
        rfl
  | @complete i st txn hp =>
    have ho := h.procs i
    rw [hp] at ho
    refine ⟨h.setProc ?_ rfl, rfl⟩
    cases txn with
    | none =>
      rcases ho with ho | ho | ⟨-, ho⟩
      · cases ho
      · cases ho
      · exact ho
    | begun => cases ho
    | reading s =>
      obtain ⟨-, hfinish, -⟩ := ho
      cases hfinish
    | writing f => cases ho.2
  | fail => exact ⟨h.setProc trivial rfl, rfl⟩
  | @call i c hp _ =>
    have ho := h.procs i
    rw [hp] at ho
    obtain ⟨db, hdb⟩ := ho
    refine ⟨⟨?_, fun j => (h.procs j).mono (fun hw => ?_) fun _ => ?_, h.writer⟩, ?_⟩
    · rw [hdb, DbFile.call_full]
      exact .inr ⟨_, rfl⟩
    · exact absurd (hdb.symm.trans ((h.procs j).eq_blank hw)) DbFile.full_ne_blank
    · rw [hdb, DbFile.call_full]
      exact ⟨_, rfl⟩
    · rw [hdb, DbFile.call_full]
      rfl
  | kill => exact ⟨h.setProc trivial rfl, rfl⟩

theorem Sound.run {es : List OpenerEvent} (h : w.Sound)
    (hrun : Run Openers.step (fun _ _ => True) w es w') :
    w'.Sound ∧ w'.file.database = afterCalls w.file.database (es.flatMap OpenerEvent.calls) := by
  induction hrun with
  | nil => exact ⟨h, rfl⟩
  | cons _ hs _ ih =>
    obtain ⟨h₁, hrows₁⟩ := h.step hs
    obtain ⟨h', hrows'⟩ := ih h₁
    refine ⟨h', hrows'.trans ?_⟩
    rw [hrows₁, List.flatMap_cons, afterCalls, afterCalls, afterCalls, List.foldl_append]

/-! ### A process that is left alone -/

/-- How many steps the process has before it. -/
def remaining : Opener → ℕ
  | .start => 10
  | .making => 9
  | .opening => 8
  | .executing _ rest => rest.length + 1
  | _ => 0

/-- The process gets a connection if nothing interferes. -/
def OnCourse (w : Openers) : Opener → Prop
  | .start => w.cacheDir ≠ .other
  | .making => w.cacheDir ≠ .other
  | .opening => w.cacheDir = .directory
  | .executing _ _ => True
  | _ => False

/-- The steps of the process `i` alone, none of which fails. -/
def Alone (i : ℕ) (_ : Openers) (e : OpenerEvent) : Prop := e = .exec i .done

/-- A process that moves does not lock itself out. -/
theorem locked_setProc (o : Opener) (h : w.locked i = false) :
    (w.setProc i o).locked i = false := by
  refine locked_eq_false.2 fun j hj => ?_
  by_contra hne
  exact hne (locked_eq_false.1 h j ((setProc_writer_of_ne (fun _ => h) hne).1 hj))

/-- The process can make a step, after which it has a connection or is nearer to one. -/
def Advances (w : Openers) (i : ℕ) : Prop :=
  ∃ e w', Alone i w e ∧ w.step e = some w' ∧ w'.locked i = false ∧ (w'.procs i = .opened ∨
    (w'.OnCourse (w'.procs i) ∧ remaining (w'.procs i) < remaining (w.procs i)))

theorem advances_of_step {w₁ : Openers} {o o' : Opener} (ho : w.procs i = o)
    (hs : w.step (.exec i .done) = some (w₁.setProc i o')) (hfree : w₁.locked i = false)
    (hc : w₁.OnCourse o') (hlt : remaining o' < remaining o) : w.Advances i := by
  refine ⟨_, _, rfl, hs, locked_setProc _ hfree, .inr ?_⟩
  rw [setProc_procs_self, ho]
  refine ⟨?_, hlt⟩
  cases o' <;> exact hc

/-- One step of the process while nobody else has the lock. -/
theorem Sound.advances (h : w.Sound) (hfree : w.locked i = false) (hc : w.OnCourse (w.procs i)) :
    w.Advances i := by
  cases hp : w.procs i with
  | start =>
    rw [hp] at hc
    have hs : w.step (.exec i .done) =
        some (w.setProc i (if w.cacheDir = .missing then .making else .opening)) := by
      simp only [Openers.step, hp]
    by_cases hdir : w.cacheDir = .missing
    · rw [if_pos hdir] at hs
      exact advances_of_step hp hs hfree hc (by decide)
    · rw [if_neg hdir] at hs
      refine advances_of_step hp hs hfree ?_ (by decide)
      show w.cacheDir = .directory
      cases hd : w.cacheDir with
      | missing => exact absurd hd hdir
      | directory => rfl
      | other => exact absurd hd hc
  | making =>
    rw [hp] at hc
    have hs : w.step (.exec i .done) =
        some ({ w with cacheDir := .directory }.setProc i .opening) := by
      simp only [Openers.step, hp]
      exact if_pos ⟨trivial, hc⟩
    exact advances_of_step hp hs hfree rfl (by decide)
  | opening =>
    rw [hp] at hc
    have hs : w.step (.exec i .done) = some (w.setProc i (.executing .none createDbSql)) := by
      simp only [Openers.step, hp]
      exact if_pos ⟨trivial, hc⟩
    exact advances_of_step hp hs hfree trivial (by decide)
  | executing txn rest =>
    cases rest with
    | nil =>
      have hs : w.step (.exec i .done) = some (w.setProc i .opened) := by
        simp only [Openers.step, hp]
      exact ⟨_, _, rfl, hs, locked_setProc _ hfree, .inl (setProc_procs_self _)⟩
    | cons stmt rest =>
      obtain ⟨file, txn', hexec⟩ := (hp ▸ h.procs i).exists_exec h.settled
      have hs : w.step (.exec i .done) =
          some ({ w with file := file }.setProc i (.executing txn' rest)) := by
        simp only [Openers.step, hp, hfree, hexec]
      exact advances_of_step hp hs hfree trivial (Nat.lt_succ_self _)
  | opened =>
    rw [hp] at hc
    exact hc.elim
  | ended =>
    rw [hp] at hc
    exact hc.elim

/-- Unless a file is in the place of the directory, a process that starts and is left alone gets a
connection if nobody has the lock. -/
theorem Sound.exists_run_opened (h : w.Sound) (hfree : w.locked i = false)
    (hdir : w.cacheDir ≠ .other) (hi : w.procs i = .ended) : ∃ fs w',
      Run Openers.step (fun w e => e = .launch i ∨ Alone i w e) w fs w' ∧
        w'.procs i = .opened ∧ w'.file.database = w.file.database := by
  have hlaunch : w.step (.launch i) = some (w.setProc i .start) := by
    simp only [Openers.step, hi]
  have hstart : (w.setProc i .start).Sound := (h.step hlaunch).1
  obtain ⟨fs, w', hrun, hopened⟩ := exists_run_of_measure
    (I := fun w => w.Sound ∧ w.locked i = false ∧ w.OnCourse (w.procs i))
    (P := fun w => w.procs i = .opened) (G := Alone i) (fun w => remaining (w.procs i))
    (fun w hI => by
      obtain ⟨e, w₁, hG, hs, hfree₁, ho⟩ := hI.1.advances hI.2.1 hI.2.2
      exact ⟨e, w₁, hG, hs, ho.imp_right fun ho => ⟨⟨(hI.1.step hs).1, hfree₁, ho.1⟩, ho.2⟩⟩)
    ⟨hstart, locked_setProc _ hfree, by rw [setProc_procs_self]; exact hdir⟩
  have hcalls : fs.flatMap OpenerEvent.calls = [] := by
    refine List.flatMap_eq_nil_iff.2 fun e he => ?_
    obtain ⟨_, _, _, _, _, hG, _, _⟩ := hrun.exists_of_mem he
    cases hG
    rfl
  refine ⟨.launch i :: fs, w', .cons (.inl rfl) hlaunch (hrun.mono fun _ _ h => .inr h), hopened,
    ?_⟩
  rw [(hstart.run (hrun.mono fun _ _ _ => trivial)).2, hcalls]
  rfl

/-- While a process writes, nobody has got a connection. -/
theorem Sound.procs_ne_opened (h : w.Sound) (hj : (w.procs j).writing) : w.procs i ≠ .opened := by
  intro hi
  have ho := h.procs i
  rw [hi] at ho
  obtain ⟨db, hdb⟩ := ho
  exact DbFile.full_ne_blank (hdb.symm.trans ((h.procs j).eq_blank hj))

/-- The steps of a process leave the others where they are. -/
theorem step_procs_of_ne (hne : j ≠ i) (he : e = .launch i ∨ Alone i w e)
    (hs : w.step e = some w') : w'.procs j = w.procs j := by
  rcases he with rfl | rfl
  · cases step_sound hs with
    | launch _ => exact setProc_procs_of_ne hne _
  · cases step_sound hs <;> exact setProc_procs_of_ne hne _

/-- Where another process has been stopped with the lock, no steps of a process get it a
connection. -/
theorem Sound.run_procs_ne_opened {es : List OpenerEvent} (h : w.Sound)
    (hj : (w.procs j).writing) (hne : j ≠ i)
    (hrun : Run Openers.step (fun w e => e = .launch i ∨ Alone i w e) w es w') :
    w'.procs i ≠ .opened := by
  have hkept : w'.Sound ∧ (w'.procs j).writing :=
    hrun.invariant (I := fun w => w.Sound ∧ (w.procs j).writing) ⟨h, hj⟩ fun _ _ _ hI he hs =>
      ⟨(hI.1.step hs).1, by rw [step_procs_of_ne hne he hs]; exact hI.2⟩
  exact hkept.1.procs_ne_opened hkept.2

/-- **Opening the database.**  Any number of processes open it at once, fail, and are killed, and
the functions of `url-db.c` are called on the connections they have got.  Then there is nothing in
the file, or both tables with the index, and this wherever a connection has been returned; the rows
are what the calls leave of the rows at first; and unless a file is in the place of the directory, a
process that starts and is left alone gets a connection, which leaves the rows as they are, if and
only if nobody has been stopped with the write lock, between the first table and the commit. -/
theorem opened_of_run {es : List OpenerEvent} (hfile : w.file.Settled)
    (hended : ∀ i, w.procs i = .ended) (hwriter : w.writer = none)
    (h : Run Openers.step (fun _ _ => True) w es w') :
    w'.file.Settled ∧ (∀ i, w'.procs i = .opened → ∃ db, w'.file = .full db) ∧
      w'.file.database = afterCalls w.file.database (es.flatMap OpenerEvent.calls) ∧
      (w'.cacheDir ≠ .other → ∀ i, w'.procs i = .ended →
        ((∃ fs w'', Run Openers.step (fun w e => e = .launch i ∨ Alone i w e) w' fs w'' ∧
          w''.procs i = .opened ∧ w''.file.database = w'.file.database) ↔ w'.writer = none)) := by
  have hstart : w.Sound :=
    ⟨hfile, fun i => by rw [hended i]; trivial, fun i => by simp [hended, hwriter, Opener.writing]⟩
  obtain ⟨hsound, hrows⟩ := hstart.run h
  refine ⟨hsound.settled, fun i hi => ?_, hrows, fun hdir i hi => ⟨?_, fun hfree => ?_⟩⟩
  · have ho := hsound.procs i
    rw [hi] at ho
    exact ho
  · rintro ⟨fs, w'', hrun, hopened, -⟩
    refine Option.eq_none_iff_forall_ne_some.2 fun j hj => ?_
    have hwriting : (w'.procs j).writing := (hsound.writer j).1 hj
    have hne : j ≠ i := by
      rintro rfl
      rw [hi] at hwriting
      cases hwriting
    exact hsound.run_procs_ne_opened hwriting hne hrun hopened
  · refine hsound.exists_run_opened (locked_eq_false.2 fun j hj => ?_) hdir hi
    rw [hfree] at hj
    cases hj

/-- Nothing is there, not even the directory. -/
def fresh : Openers := ⟨.missing, .blank, none, fun _ => .ended⟩

/-- A process has made the first table, and is stopped.  Another one is refused. -/
def stoppedOpener : List OpenerEvent :=
  .launch 0 :: List.replicate 6 (.exec 0 .done) ++ .launch 1 :: List.replicate 5 (.exec 1 .done)

/-- The first one is killed, and the other one tries again and registers a file. -/
def killedOpener : List OpenerEvent :=
  stoppedOpener ++ .kill 0 :: .launch 1 :: List.replicate 9 (.exec 1 .done) ++
    [.call 1 (.setFileMotificationTime .done "/d/a.url-dispatcher".toList 3)]

/-- The other one gets no connection where the first one is stopped.  At the end the first one opens
the database, with what the other one has stored. -/
theorem opened_of_run_killedOpener :
    (∃ w' : Openers, run step fresh stoppedOpener = some w' ∧ w'.procs 1 = .ended ∧
      ¬ ∃ fs w'', Run Openers.step (fun w e => e = .launch 1 ∨ Alone 1 w e) w' fs w'' ∧
        w''.procs 1 = .opened ∧ w''.file.database = w'.file.database) ∧
    ∃ w' : Openers, run step fresh killedOpener = some w' ∧
      ∃ fs w'', run step w' fs = some w'' ∧ w''.procs 0 = .opened ∧
        w''.file.database = Database.empty.setTimestamp "/d/a.url-dispatcher".toList 3 := by
  constructor
  · have hstate : (run Openers.step fresh stoppedOpener).map (fun w =>
        (w.cacheDir, w.procs 1, w.writer)) = some (.directory, .ended, some 0) := rfl
    obtain ⟨w', hw, hstate⟩ := Option.map_eq_some_iff.1 hstate
    rw [Prod.mk.injEq, Prod.mk.injEq] at hstate
    have hrun : Run Openers.step (fun _ _ => True) fresh stoppedOpener w' :=
      .of_run (g := fun _ _ => true) (fun _ _ _ => trivial) hw
    obtain ⟨-, -, -, hopen⟩ := opened_of_run (.inl rfl) (fun _ => rfl) rfl hrun
    refine ⟨w', hw, hstate.2.1, fun hex => ?_⟩
    have hfree := (hopen (by rw [hstate.1]; decide) 1 hstate.2.1).1 hex
    rw [hstate.2.2] at hfree
    cases hfree
  · have hstate : (run Openers.step fresh killedOpener).map (fun w =>
        (w.cacheDir, w.procs 0, w.writer)) = some (.directory, .ended, none) := rfl
    obtain ⟨w', hw, hstate⟩ := Option.map_eq_some_iff.1 hstate
    rw [Prod.mk.injEq, Prod.mk.injEq] at hstate
    have hrun : Run Openers.step (fun _ _ => True) fresh killedOpener w' :=
      .of_run (g := fun _ _ => true) (fun _ _ _ => trivial) hw
    obtain ⟨-, -, hrows, hopen⟩ := opened_of_run (.inl rfl) (fun _ => rfl) rfl hrun
    obtain ⟨fs, w'', hrun', hopened, hsame⟩ :=
      (hopen (by rw [hstate.1]; decide) 0 hstate.2.1).2 hstate.2.2
    exact ⟨w', hw, fs, w'', hrun'.run_eq, hopened, hsame.trans (hrows.trans rfl)⟩

end Openers

end UrlDispatcher
