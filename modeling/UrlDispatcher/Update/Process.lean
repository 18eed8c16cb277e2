import UrlDispatcher.Update.Basic

/-!
# A run of the tool, step by step

A run of `update-directory` is cut at the points where it looks at the file system or executes an
SQL statement: `Pc` says where a run is and what it holds, and `Pc.step` is its next step.
Everything the run does not decide itself is in the `Choice`: whether a statement fails, which name
`g_dir_read_name` returns and in which order the dropped files are removed.

While a directory changes, `g_dir_read_name` may return any entry present now and any entry that was
present when the directory was opened and has not been returned; it ends only when every entry that
was present at the opening and still is has been returned.

`Pc.Step` lists what a step can do, once for all the proofs about runs (`Pc.step_sound`).
-/

namespace UrlDispatcher

open Sql GLib

/-- The name of a `*.url-dispatcher` file in `dirname`. -/
def HandlerFileIn (dirname n : Text) : Prop :=
  ∃ name, IsComponent name ∧ gStrHasSuffix name urlDispatcherSuffix = true ∧
    n = gBuildFilename dirname name

/-- What the loop over a directory holds. -/
structure Scan where
  dirname : Text
  /-- The listed files for which no entry has been found. -/
  startingdb : List Text
  /-- The entries present when the directory was opened that have not been returned. -/
  unread : List Text

/-- The loop after `g_dir_read_name` has returned `name`. -/
def Scan.read (s : Scan) (name : Text) : Scan :=
  { s with unread := s.unread.filter fun m => m ≠ name }

/-- The loop after the end of its body: `g_hash_table_remove(startingdb, fullname)`. -/
def Scan.found (s : Scan) (fullname : Text) : Scan :=
  { s with startingdb := s.startingdb.filter fun n => n ≠ fullname }

/-- Where a run is. -/
inductive Pc
  /-- Before looking at the argument. -/
  | start (arg : Text)
  /-- Before `url_db_files_for_dir`. -/
  | listing (dirname : Text)
  /-- Before `g_dir_open`. -/
  | opening (dirname : Text) (startingdb : List Text)
  /-- Before `g_dir_read_name`. -/
  | scanning (s : Scan)
  /-- Before `check_file_outofdate` looks at the file and its stored time. -/
  | checking (s : Scan) (fullname : Text)
  /-- Before `url_db_set_file_motification_time`. -/
  | stamping (s : Scan) (fullname : Text) (filetime : ℤ)
  /-- Before `insert_urls_from_file` reads the file. -/
  | reading (s : Scan) (fullname : Text)
  /-- Before `each_url` on the remaining elements of the file read. -/
  | inserting (s : Scan) (fullname : Text) (file : File) (rest : List JsonNode)
  /-- Before `remove_file` on the remaining dropped files. -/
  | removing (names : List Text)
  /-- After the last step. -/
  | finished

/-- What the environment decides about a step. -/
inductive Choice
  /-- A step without a statement. -/
  | tau
  /-- A step with one statement, and what becomes of it. -/
  | stmt (st : Status)
  /-- The answer of `g_dir_read_name`. -/
  | readName (name : Option Text)
  /-- The file removed next, and what becomes of the statements of `url_db_remove_file`. -/
  | remove (name : Text) (st : RemoveStatus)

/-- The next step of a run on the file system and the database it finds. -/
def Pc.step (fs : FileSys) (db : Database) : Pc → Choice → Option (Database × Pc)
  | .start arg, .tau => some (db, .listing (settleDirname fs arg))
  | .listing dirname, .stmt st => some (db, .opening dirname (urlDbFilesForDir st db dirname))
  | .opening dirname startingdb, .tau =>
    if fs.isDir dirname then some (db, .scanning ⟨dirname, startingdb, fs.entries dirname⟩)
    else some (db, .removing startingdb)
  | .scanning s, .readName (some name) =>
    if IsComponent name ∧ (name ∈ s.unread ∨ name ∈ fs.entries s.dirname) then
      if gStrHasSuffix name urlDispatcherSuffix then
        some (db, .checking (s.read name) (gBuildFilename s.dirname name))
      else some (db, .scanning (s.read name))
    else none
  | .scanning s, .readName none =>
    if ∀ name ∈ s.unread, name ∉ fs.entries s.dirname then some (db, .removing s.startingdb)
    else none
  -- a file whose stored time cannot be read counts as out of date
  | .checking s n, .stmt st =>
    if upToDate st db n (fs.filetime n) then some (db, .scanning (s.found n))
    else some (db, .stamping s n (fs.filetime n))
  -- a file whose time cannot be stored is not read
  | .stamping s n filetime, .stmt st =>
    match urlDbSetFileMotificationTime st db n filetime with
    | (db, true) => some (db, .reading s n)
    | (db, false) => some (db, .scanning (s.found n))
  | .reading s n, .tau =>
    match fs.file n with
    | some f => some (db, .inserting s n f f.elements)
    | none => some (db, .scanning (s.found n))
  -- whether an entry has been stored is not looked at
  | .inserting s n f (v :: rest), .stmt st => some (eachUrl st db n v, .inserting s n f rest)
  | .inserting s n _ [], .tau => some (db, .scanning (s.found n))
  | .removing names, .remove n st =>
    if n ∈ names then some (removeFile st db n, .removing (names.filter fun m => m ≠ n)) else none
  | .removing [], .tau => some (db, .finished)
  | _, _ => none

/-- What a step can do. -/
inductive Pc.Step (fs : FileSys) (db : Database) : Pc → Choice → Database → Pc → Prop
  | settle (arg : Text) : Step fs db (.start arg) .tau db (.listing (settleDirname fs arg))
  | list (dirname : Text) (st : Status) : Step fs db (.listing dirname) (.stmt st) db
      (.opening dirname (urlDbFilesForDir st db dirname))
  | openDir (dirname : Text) (startingdb : List Text) (h : fs.isDir dirname = true) :
      Step fs db (.opening dirname startingdb) .tau db
        (.scanning ⟨dirname, startingdb, fs.entries dirname⟩)
  | noDir (dirname : Text) (startingdb : List Text) (h : fs.isDir dirname = false) :
      Step fs db (.opening dirname startingdb) .tau db (.removing startingdb)
  | readFile (s : Scan) (name : Text) (hc : IsComponent name)
      (hin : name ∈ s.unread ∨ name ∈ fs.entries s.dirname)
      (hs : gStrHasSuffix name urlDispatcherSuffix = true) :
      Step fs db (.scanning s) (.readName (some name)) db
        (.checking (s.read name) (gBuildFilename s.dirname name))
  | skipName (s : Scan) (name : Text) (hc : IsComponent name)
      (hin : name ∈ s.unread ∨ name ∈ fs.entries s.dirname)
      (hs : gStrHasSuffix name urlDispatcherSuffix = false) :
      Step fs db (.scanning s) (.readName (some name)) db (.scanning (s.read name))
  | endOfDir (s : Scan) (h : ∀ name ∈ s.unread, name ∉ fs.entries s.dirname) :
      Step fs db (.scanning s) (.readName none) db (.removing s.startingdb)
  | current (s : Scan) (n : Text) (st : Status) (h : upToDate st db n (fs.filetime n) = true) :
      Step fs db (.checking s n) (.stmt st) db (.scanning (s.found n))
  | outdated (s : Scan) (n : Text) (st : Status) (h : upToDate st db n (fs.filetime n) = false) :
      Step fs db (.checking s n) (.stmt st) db (.stamping s n (fs.filetime n))
  | stamp (s : Scan) (n : Text) (t : ℤ) : Step fs db (.stamping s n t) (.stmt .done)
      (db.setTimestamp n (narrow t)) (.reading s n)
  | stampFails (s : Scan) (n : Text) (t : ℤ) : Step fs db (.stamping s n t) (.stmt .error) db
      (.scanning (s.found n))
  | readContent (s : Scan) (n : Text) (f : File) (h : fs.file n = some f) :
      Step fs db (.reading s n) .tau db (.inserting s n f f.elements)
  | unreadable (s : Scan) (n : Text) (h : fs.file n = none) :
      Step fs db (.reading s n) .tau db (.scanning (s.found n))
  | insert (s : Scan) (n : Text) (f : File) (v : JsonNode) (rest : List JsonNode) :
      Step fs db (.inserting s n f (v :: rest)) (.stmt .done) (eachUrl .done db n v)
        (.inserting s n f rest)
  | insertFails (s : Scan) (n : Text) (f : File) (v : JsonNode) (rest : List JsonNode) :
      Step fs db (.inserting s n f (v :: rest)) (.stmt .error) db (.inserting s n f rest)
  | fileDone (s : Scan) (n : Text) (f : File) :
      Step fs db (.inserting s n f []) .tau db (.scanning (s.found n))
  | remove (names : List Text) (n : Text) (h : n ∈ names) :
      Step fs db (.removing names) (.remove n .allDone) (db.remove n)
        (.removing (names.filter fun m => m ≠ n))
  | removeFails (names : List Text) (n : Text) (st : RemoveStatus) (h : n ∈ names)
      (hst : st ≠ .allDone) :
      Step fs db (.removing names) (.remove n st) db (.removing (names.filter fun m => m ≠ n))
  | finish : Step fs db (.removing []) .tau db .finished

theorem eachUrl_error (db : Database) (n : Text) (v : JsonNode) : eachUrl .error db n v = db := by
  cases v with
  | object members =>
    simp only [eachUrl, urlDbInsertUrl]
    split
    · rfl
    · split_ifs <;> rfl
  | array _ => rfl
  | string _ => rfl
  | scalar => rfl

/-- Removing a file in one step is all or nothing. -/
theorem removeFile_eq (st : RemoveStatus) (db : Database) (n : Text) :
    removeFile st db n = if st = .allDone then db.remove n else db := by
  unfold removeFile
  rcases urlDbRemoveFile_cases st db n with ⟨h, he⟩ | ⟨h, he⟩
  · rw [he, if_pos h]
  · rw [he, if_neg h]

/-- `Pc.Step` says everything a step can do. -/
theorem Pc.step_sound {fs : FileSys} {db db' : Database} {pc pc' : Pc} {c : Choice}
    (h : pc.step fs db c = some (db', pc')) : Pc.Step fs db pc c db' pc' := by
  unfold Pc.step at h
  split at h
  · cases h; exact .settle _
  · cases h; exact .list _ _
  · split_ifs at h with hd <;> cases h
    · exact .openDir _ _ hd
    · exact .noDir _ _ (by simpa using hd)
  · split_ifs at h with hin hs <;> cases h
    · exact .readFile _ _ hin.1 hin.2 hs
    · exact .skipName _ _ hin.1 hin.2 (by simpa using hs)
  · split_ifs at h with hall
    cases h
    exact .endOfDir _ hall
  · split_ifs at h with hu <;> cases h
    · exact .current _ _ _ hu
    · exact .outdated _ _ _ (by simpa using hu)
  · next s n t st =>
    cases st with
    | done => cases h; exact .stamp _ _ _
    | error => cases h; exact .stampFails _ _ _
  · split at h <;> cases h
    · exact .readContent _ _ _ ‹_›
    · exact .unreadable _ _ ‹_›
  · next s n f v rest st =>
    cases st with
    | done => cases h; exact .insert _ _ _ _ _
    | error => rw [eachUrl_error] at h; cases h; exact .insertFails _ _ _ _ _
  · cases h; exact .fileDone _ _ _
  · next names n st =>
    split_ifs at h with hn
    rw [removeFile_eq] at h
    split_ifs at h with hst <;> cases h
    · rw [hst]; exact .remove _ _ hn
    · exact .removeFails _ _ _ hn hst
  · cases h; exact .finish
  · cases h

end UrlDispatcher
