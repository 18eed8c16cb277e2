import UrlDispatcher.Db.Registry

/-!
# The directory update tool

The functions of `update-directory.c`, as one run of the tool computes them when it runs alone on a
file system that does not change meanwhile and no SQL statement fails.  `Update/Process.lean` has
the same run step by step, with failing statements and interruptions.

* `eachUrl` stores one element of a file's JSON array, or ignores it; `acceptedEntry` is the entry
  it stores.
* `registerFile` is the body of the loop over the directory: `checkFileOutofdate` and, for a file
  that is out of date, `insertUrlsFromFile`.
* `updateDirectory` is `main` on one argument.

`registry_registerFile` says what registering a file does to the registry, and
`registry_updateDirectory` what a whole run does.
-/

namespace UrlDispatcher

open Sql GLib

/-- A JSON value as json-glib holds it, as far as the tool looks at it. -/
inductive JsonNode
  /-- An object, with its members. -/
  | object (members : List (Text × JsonNode))
  /-- An array, with its elements. -/
  | array (elements : List JsonNode)
  /-- A string. -/
  | string (value : Text)
  /-- A number, a boolean or null. -/
  | scalar

/-- A file as the tool sees it. -/
structure File where
  /-- The seconds of the modification time. -/
  mtime : ℤ
  /-- The root node json-glib reads from the file, `none` if it reports an error. -/
  content : Option JsonNode

/-- A file system: which paths are directories, the entries `g_dir_read_name` lists for
a directory in the order in which it lists them, and the files by their path. -/
structure FileSys where
  isDir : Text → Bool
  entries : Text → List Text
  file : Text → Option File
  /-- Entry names are components. -/
  component : ∀ d, ∀ name ∈ entries d, IsComponent name
  /-- No entry is listed twice. -/
  listed_once : ∀ d, (entries d).Nodup
  /-- The empty path names nothing. -/
  empty_path : isDir [] = false

/-! ### Storing the entries of a file -/

/-- `json_object_get_string_member`: `NULL` for a missing member and for one that is no string. -/
def jsonObjectGetStringMember (members : List (Text × JsonNode)) (name : Text) : Option Text :=
  match members.lookup name with
  | some (.string value) => some value
  | _ => none

/-- `each_url` -/
def eachUrl (st : Status) (db : Database) (filename : Text) (value : JsonNode) : Database :=
  match value with
  | .object members =>
    let protocol := jsonObjectGetStringMember members "protocol".toList
    let suffix := jsonObjectGetStringMember members "domain-suffix".toList
    match protocol with
    | none => db
    | some protocol =>
      if protocol = "intent".toList ∧ suffix = none then db
      else (urlDbInsertUrl st db filename protocol suffix).1
  | _ => db

/-- The entry `each_url` stores for an array element. -/
def acceptedEntry (value : JsonNode) : Option Entry :=
  match value with
  | .object members =>
    match jsonObjectGetStringMember members "protocol".toList,
      jsonObjectGetStringMember members "domain-suffix".toList with
    | none, _ => none
    | some protocol, none => if protocol = "intent".toList then none else some (protocol, [])
    | some protocol, some suffix => some (protocol, suffix)
  | _ => none

/-- The elements of the root array, none if the root is no array. -/
def File.elements (f : File) : List JsonNode :=
  match f.content with
  | some (.array elements) => elements
  | _ => []

/-- The entries accepted from a file. -/
def File.entries (f : File) : Set Entry := {e | ∃ v ∈ f.elements, acceptedEntry v = some e}

/-- The entries accepted from the file of that path, none if it cannot be read. -/
def FileSys.accepted (fs : FileSys) (filename : Text) : Set Entry :=
  {e | ∃ f, fs.file filename = some f ∧ e ∈ f.entries}

/-- `insert_urls_from_file` -/
def insertUrlsFromFile (fs : FileSys) (db : Database) (filename : Text) : Database :=
  match fs.file filename with
  | none => db
  | some f => f.elements.foldl (fun db value => eachUrl .done db filename value) db

/-! ### Comparing times -/

/-- The seconds `g_file_info_get_modification_time` leaves in `filetime`, which was set to `0`. -/
def FileSys.filetime (fs : FileSys) (filename : Text) : ℤ :=
  match fs.file filename with
  | none => 0
  | some f => f.mtime

/-- The comparison of `check_file_outofdate` with the stored time. -/
def upToDate (st : Status) (db : Database) (filename : Text) (filetime : ℤ) : Bool :=
  match urlDbGetFileMotificationTime st db filename with
  | some dbtime => decide (filetime ≤ dbtime)
  | none => false

/-- `check_file_outofdate` -/
def checkFileOutofdate (fs : FileSys) (db : Database) (filename : Text) : Database × Bool :=
  if upToDate .done db filename (fs.filetime filename) then (db, false)
  else urlDbSetFileMotificationTime .done db filename (fs.filetime filename)

/-! ### The run -/

/-- The directory `main` settles on: its argument, or the parent if the argument is no directory
and does not end in a separator. -/
def settleDirname (fs : FileSys) (arg : Text) : Text :=
  if !fs.isDir arg && !gStrHasSuffix arg ['/'] then
    -- the argument may be a file, or a directory that is gone
    if fs.isDir (gPathGetDirname arg) then gPathGetDirname arg else arg
  else arg

/-- The body of the loop over the directory for one file. -/
def registerFile (fs : FileSys) (db : Database) (fullname : Text) : Database :=
  match checkFileOutofdate fs db fullname with
  | (db, true) => insertUrlsFromFile fs db fullname
  | (db, false) => db

/-- The loop over the directory; `startingdb` are the names no entry has been found for. -/
def scanDirectory (fs : FileSys) (dirname : Text) :
    List Text → Database → List Text → Database × List Text
  | [], db, startingdb => (db, startingdb)
  | name :: names, db, startingdb =>
    if gStrHasSuffix name urlDispatcherSuffix then
      let fullname := gBuildFilename dirname name
      scanDirectory fs dirname names (registerFile fs db fullname)
        (startingdb.filter fun n => n ≠ fullname)
    else scanDirectory fs dirname names db startingdb

/-- `remove_file` -/
def removeFile (st : RemoveStatus) (db : Database) (filename : Text) : Database :=
  (urlDbRemoveFile st ⟨db, none⟩ filename).1.committed

/-- `main` on one argument.  The removals do not depend on each other, so the order of the hash
table they come from does not matter. -/
def updateDirectory (fs : FileSys) (db : Database) (arg : Text) : Database :=
  let dirname := settleDirname fs arg
  let files := urlDbFilesForDir .done db dirname
  let (db, startingdb) :=
    if fs.isDir dirname then scanDirectory fs dirname (fs.entries dirname) db files
    else (db, files)
  startingdb.foldl (removeFile .allDone) db

/-! ### What the parts do to the registry -/

/-- Add entries to a registration. -/
def Registration.add (g : Registration) (es : Set Entry) : Registration :=
  { g with entries := g.entries ∪ es }

theorem Registration.add_add (g : Registration) (es es' : Set Entry) :
    (g.add es).add es' = g.add (es ∪ es') :=
  Registration.ext rfl (Set.union_assoc _ _ _)

@[simp] theorem Registration.add_empty (g : Registration) : g.add ∅ = g :=
  Registration.ext rfl (Set.union_empty _)

theorem eachUrl_done (db : Database) (n : Text) (v : JsonNode) :
    eachUrl .done db n v = match acceptedEntry v with
      | none => db
      | some (p, s) => db.insertUrl n p s := by
  cases v with
  | object members =>
    simp only [eachUrl, acceptedEntry]
    cases jsonObjectGetStringMember members "protocol".toList with
    | none => rfl
    | some p =>
      cases jsonObjectGetStringMember members "domain-suffix".toList with
      | none =>
        simp only [and_true]
        split_ifs <;> rfl
      | some s => simp [urlDbInsertUrl]
  | array _ => rfl
  | string _ => rfl
  | scalar => rfl

/-- The entry of one array element, as a set. -/
def elementEntries (v : JsonNode) : Set Entry := {e | acceptedEntry v = some e}

/-- Storing one element adds its entry. -/
theorem registry_eachUrl (db : Database) (n : Text) (v : JsonNode) :
    (eachUrl .done db n v).registry =
      Function.update db.registry n ((db.registry n).map fun g => g.add (elementEntries v)) := by
  rw [eachUrl_done]
  cases h : acceptedEntry v with
  | none =>
    have he : elementEntries v = ∅ := by ext e; simp [elementEntries, h]
    simp [he]
  | some e =>
    obtain ⟨p, s⟩ := e
    have he : elementEntries v = {(p, s)} := by
      ext e; simp [elementEntries, h, eq_comm]
    simp only [he, Database.registry_insertUrl]
    congr 2
    funext g
    exact Registration.ext rfl (Set.union_singleton).symm

theorem registry_foldl_eachUrl (n : Text) (vs : List JsonNode) (db : Database) :
    (vs.foldl (fun db v => eachUrl .done db n v) db).registry =
      Function.update db.registry n
        ((db.registry n).map fun g => g.add {e | ∃ v ∈ vs, acceptedEntry v = some e}) := by
  induction vs generalizing db with
  | nil => simp
  | cons v vs ih =>
    rw [List.foldl_cons, ih, registry_eachUrl, Function.update_idem, Function.update_self,
      Option.map_map]
    congr 2
    funext g
    rw [Function.comp_apply, Registration.add_add]
    congr 1
    ext e
    simp [elementEntries]

/-- Storing a file's elements adds the entries accepted from it, if the file is known. -/
theorem registry_insertUrlsFromFile (fs : FileSys) (db : Database) (n : Text) :
    (insertUrlsFromFile fs db n).registry =
      Function.update db.registry n ((db.registry n).map fun g => g.add (fs.accepted n)) := by
  unfold insertUrlsFromFile
  cases h : fs.file n with
  | none =>
    have he : fs.accepted n = ∅ := by ext e; simp [FileSys.accepted, h]
    simp [he]
  | some f =>
    have he : fs.accepted n = {e | ∃ v ∈ f.elements, acceptedEntry v = some e} := by
      ext e; simp [FileSys.accepted, h, File.entries]
    rw [he]
    exact registry_foldl_eachUrl n f.elements db

/-- The registration a file gets when it is registered: the narrowed time, the entries accepted
from it and whatever is left over under the new rowid. -/
def FileSys.registration (fs : FileSys) (n : Text) (leftover : Set Entry) : Registration :=
  ⟨narrow (fs.filetime n), leftover ∪ fs.accepted n⟩

theorem upToDate_iff {db : Database} {n : Text} {t : ℤ} :
    upToDate .done db n t = true ↔ ∃ g, db.registry n = some g ∧ t ≤ narrow g.stamp := by
  simp only [upToDate, urlDbGetFileMotificationTime_done]
  cases db.registry n with
  | none => simp
  | some g => simp

theorem registerFile_of_upToDate {fs : FileSys} {db : Database} {n : Text}
    (h : upToDate .done db n (fs.filetime n) = true) : registerFile fs db n = db := by
  simp [registerFile, checkFileOutofdate, h]

theorem registerFile_of_outdated {fs : FileSys} {db : Database} {n : Text}
    (h : upToDate .done db n (fs.filetime n) = false) :
    registerFile fs db n =
      insertUrlsFromFile fs (db.setTimestamp n (narrow (fs.filetime n))) n := by
  simp [registerFile, checkFileOutofdate, h, urlDbSetFileMotificationTime]

/-- **Registering a file** leaves an up-to-date file alone and registers any other anew. -/
theorem registry_registerFile (fs : FileSys) (db : Database) (n : Text) :
    (registerFile fs db n).registry =
      if upToDate .done db n (fs.filetime n) then db.registry
      else Function.update db.registry n (some (fs.registration n db.leftover)) := by
  cases h : upToDate .done db n (fs.filetime n) with
  | true => rw [registerFile_of_upToDate h, if_pos rfl]
  | false =>
    rw [registerFile_of_outdated h, registry_insertUrlsFromFile, Database.registry_setTimestamp,
      Function.update_idem, Function.update_self, if_neg Bool.false_ne_true]
    rfl

/-- Registering a file leaves the others alone. -/
theorem registry_registerFile_of_ne {fs : FileSys} {db : Database} {m n : Text} (h : n ≠ m) :
    (registerFile fs db m).registry n = db.registry n := by
  rw [registry_registerFile]
  split_ifs
  · rfl
  · exact Function.update_of_ne h _ _

theorem upToDate_congr {db db' : Database} {n : Text} (h : db'.registry n = db.registry n)
    (t : ℤ) : upToDate .done db' n t = upToDate .done db n t := by
  simp only [upToDate, urlDbGetFileMotificationTime_done, h]

theorem removeFile_allDone (db : Database) (n : Text) : removeFile .allDone db n = db.remove n :=
  rfl

theorem registry_foldl_removeFile (ns : List Text) (db : Database) (n : Text) :
    (ns.foldl (removeFile .allDone) db).registry n =
      if n ∈ ns then none else db.registry n := by
  induction ns generalizing db with
  | nil => simp
  | cons m ns ih =>
    rw [List.foldl_cons, ih, removeFile_allDone, Database.registry_remove]
    by_cases hm : n = m
    · subst hm; simp
    · simp [hm]

/-! ### What a run does to the registry -/

/-- The full names of the files the loop registers. -/
def scannedNames (dirname : Text) (names : List Text) : List Text :=
  (names.filter fun name => gStrHasSuffix name urlDispatcherSuffix).map (gBuildFilename dirname)

theorem scannedNames_cons_of_pos {dirname name : Text} {names : List Text}
    (h : gStrHasSuffix name urlDispatcherSuffix = true) :
    scannedNames dirname (name :: names) =
      gBuildFilename dirname name :: scannedNames dirname names := by
  simp [scannedNames, h]

theorem scannedNames_cons_of_neg {dirname name : Text} {names : List Text}
    (h : gStrHasSuffix name urlDispatcherSuffix = false) :
    scannedNames dirname (name :: names) = scannedNames dirname names := by
  simp [scannedNames, h]

/-- The loop registers the scanned files one after the other. -/
theorem scanDirectory_eq (fs : FileSys) (dirname : Text) (names : List Text) (db : Database)
    (startingdb : List Text) :
    scanDirectory fs dirname names db startingdb =
      ((scannedNames dirname names).foldl (registerFile fs) db,
        startingdb.filter fun n => n ∉ scannedNames dirname names) := by
  induction names generalizing db startingdb with
  | nil => simp [scanDirectory, scannedNames]
  | cons name names ih =>
    rw [scanDirectory]
    split_ifs with h
    · simp only [ih, scannedNames_cons_of_pos h, List.foldl_cons, List.filter_filter]
      congr 2
      funext n
      simp [Bool.and_comm]
    · rw [ih, scannedNames_cons_of_neg (by simpa using h)]

/-- The files a run registers, in order: those of the directory it settles on. -/
def runNames (fs : FileSys) (dirname : Text) : List Text :=
  if fs.isDir dirname then scannedNames dirname (fs.entries dirname) else []

/-- **A run** registers the files of its directory one after the other, and then forgets the known
files that are listed for the directory and were not found in it. -/
theorem updateDirectory_eq (fs : FileSys) (db : Database) (arg : Text) :
    updateDirectory fs db arg =
      ((urlDbFilesForDir .done db (settleDirname fs arg)).filter
          fun n => n ∉ runNames fs (settleDirname fs arg)).foldl (removeFile .allDone)
        ((runNames fs (settleDirname fs arg)).foldl (registerFile fs) db) := by
  unfold updateDirectory runNames
  by_cases h : fs.isDir (settleDirname fs arg) = true
  · simp only [h, ↓reduceIte, scanDirectory_eq]
  · simp [h]

theorem registry_foldl_registerFile_of_not_mem {fs : FileSys} {ns : List Text} {n : Text}
    (h : n ∉ ns) (db : Database) : (ns.foldl (registerFile fs) db).registry n = db.registry n := by
  induction ns generalizing db with
  | nil => rfl
  | cons m ns ih =>
    rw [List.mem_cons, not_or] at h
    rw [List.foldl_cons, ih h.2, registry_registerFile_of_ne h.1]

/-- What a run leaves of a file: nothing if it was dropped from the directory, what the loop makes
of it if it was scanned, and what was there before otherwise. -/
theorem registry_updateDirectory (fs : FileSys) (db : Database) (arg n : Text) :
    (updateDirectory fs db arg).registry n =
      if n ∈ runNames fs (settleDirname fs arg) then
        ((runNames fs (settleDirname fs arg)).foldl (registerFile fs) db).registry n
      else if like (settleDirname fs arg ++ ['%']) n then none else db.registry n := by
  rw [updateDirectory_eq, registry_foldl_removeFile]
  simp only [List.mem_filter, mem_urlDbFilesForDir, decide_eq_true_eq]
  by_cases hn : n ∈ runNames fs (settleDirname fs arg)
  · simp [hn]
  · rw [registry_foldl_registerFile_of_not_mem hn]
    cases db.registry n <;> simp [hn]

end UrlDispatcher
