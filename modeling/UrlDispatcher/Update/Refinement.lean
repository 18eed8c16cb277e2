import UrlDispatcher.Update.Solo

/-!
# Step by step and all at once

`Completes fs db pc db'` says what a run at `pc` may still make of the database when it completes on
an unchanging file system: the loop over the names that are left, in any order, and the removals in
any order.  A step that succeeds only moves a part of this from the future into the past
(`Completes.of_step`), so

* `completes_of_run` : what a run makes of the database step by step is what `scanDirectory` and
  `removeFile` make of it at once, for some order of the directory;
* `completes_updateDirectory` : with the order of the file system this is `updateDirectory`;
* `Completes.exists_order` : registering the files of the directory in some order and removing the
  files not found is all that a complete run does.
-/

namespace UrlDispatcher

open Sql GLib Machine

/-- The files `names` are removed, in some order. -/
def Forgets (names : List Text) (db db' : Database) : Prop :=
  ∃ removed : List Text, (∀ n, n ∈ removed ↔ n ∈ names) ∧
    db' = removed.foldl (removeFile .allDone) db

/-- The loop over the directory is completed, with the rest of the names in some order, and the
files not found are removed. -/
def CompletesScan (fs : FileSys) (s : Scan) (db db' : Database) : Prop :=
  ∃ names : List Text, (∀ name ∈ s.unread, name ∈ fs.entries s.dirname → name ∈ names) ∧
    (∀ name ∈ names, name ∈ s.unread ∨ name ∈ fs.entries s.dirname) ∧
    Forgets (scanDirectory fs s.dirname names db s.startingdb).2
      (scanDirectory fs s.dirname names db s.startingdb).1 db'

/-- What opening the directory and all that follows make of the database. -/
def CompletesOpen (fs : FileSys) (dirname : Text) (startingdb : List Text) (db db' : Database) :
    Prop :=
  if fs.isDir dirname then CompletesScan fs ⟨dirname, startingdb, fs.entries dirname⟩ db db'
  else Forgets startingdb db db'

/-- What the rest of a run makes of the database. -/
def Completes (fs : FileSys) (db : Database) (pc : Pc) (db' : Database) : Prop :=
  match pc with
  | .start arg =>
    CompletesOpen fs (settleDirname fs arg)
      (urlDbFilesForDir .done db (settleDirname fs arg)) db db'
  | .listing dirname => CompletesOpen fs dirname (urlDbFilesForDir .done db dirname) db db'
  | .opening dirname startingdb => CompletesOpen fs dirname startingdb db db'
  | .scanning s => CompletesScan fs s db db'
  | .checking s n => CompletesScan fs (s.found n) (registerFile fs db n) db'
  | .stamping s n t =>
    CompletesScan fs (s.found n) (insertUrlsFromFile fs (db.setTimestamp n (narrow t)) n) db'
  | .reading s n => CompletesScan fs (s.found n) (insertUrlsFromFile fs db n) db'
  | .inserting s n _ rest =>
    CompletesScan fs (s.found n) (rest.foldl (fun db v => eachUrl .done db n v) db) db'
  | .removing names => Forgets names db db'
  | .finished => db' = db

section

variable {fs : FileSys} {db db' : Database} {s : Scan} {name : Text}

/-- The names still to come, before `name` has been returned. -/
theorem names_of_read {names : List Text} (hin : name ∈ s.unread ∨ name ∈ fs.entries s.dirname)
    (hall : ∀ m ∈ (s.read name).unread, m ∈ fs.entries s.dirname → m ∈ names)
    (honly : ∀ m ∈ names, m ∈ (s.read name).unread ∨ m ∈ fs.entries s.dirname) :
    (∀ m ∈ s.unread, m ∈ fs.entries s.dirname → m ∈ name :: names) ∧
      ∀ m ∈ name :: names, m ∈ s.unread ∨ m ∈ fs.entries s.dirname := by
  constructor
  · intro m hm he
    by_cases hmn : m = name
    · exact hmn ▸ List.mem_cons_self
    · exact List.mem_cons_of_mem _ (hall m (List.mem_filter.2 ⟨hm, by simpa using hmn⟩) he)
  · intro m hm
    rcases List.mem_cons.1 hm with rfl | hm
    · exact hin
    · exact (honly m hm).imp_left List.mem_of_mem_filter

theorem CompletesScan.readFile (hin : name ∈ s.unread ∨ name ∈ fs.entries s.dirname)
    (hs : gStrHasSuffix name urlDispatcherSuffix = true)
    (h : CompletesScan fs ((s.read name).found (gBuildFilename s.dirname name))
      (registerFile fs db (gBuildFilename s.dirname name)) db') : CompletesScan fs s db db' := by
  obtain ⟨names, hall, honly, hf⟩ := h
  obtain ⟨hall', honly'⟩ := names_of_read hin hall honly
  refine ⟨name :: names, hall', honly', ?_⟩
  rw [scanDirectory, if_pos hs]
  exact hf

theorem CompletesScan.skipName (hin : name ∈ s.unread ∨ name ∈ fs.entries s.dirname)
    (hs : gStrHasSuffix name urlDispatcherSuffix = false)
    (h : CompletesScan fs (s.read name) db db') : CompletesScan fs s db db' := by
  obtain ⟨names, hall, honly, hf⟩ := h
  obtain ⟨hall', honly'⟩ := names_of_read hin hall honly
  refine ⟨name :: names, hall', honly', ?_⟩
  rw [scanDirectory, if_neg (by simp [hs])]
  exact hf

theorem Forgets.remove {names : List Text} {n : Text} (hn : n ∈ names)
    (h : Forgets (names.filter fun m => m ≠ n) (db.remove n) db') : Forgets names db db' := by
  obtain ⟨removed, hmem, rfl⟩ := h
  refine ⟨n :: removed, fun m => ?_, rfl⟩
  rw [List.mem_cons, hmem, List.mem_filter]
  by_cases hmn : m = n
  · simp [hmn, hn]
  · simp [hmn]

end

/-- A step that succeeds does a part of what is left to do. -/
theorem Completes.of_step {fs : FileSys} {db db₁ db' : Database} {pc pc₁ : Pc} {c : Choice}
    (hs : Pc.Step fs db pc c db₁ pc₁) (hc : c.succeeds = true) (h : Completes fs db₁ pc₁ db') :
    Completes fs db pc db' := by
  cases hs with
  | settle arg => exact h
  | list dirname st =>
    obtain rfl : st = .done := of_decide_eq_true hc
    exact h
  | openDir dirname startingdb hd =>
    rw [Completes, CompletesOpen, if_pos hd]
    exact h
  | noDir dirname startingdb hd =>
    rw [Completes, CompletesOpen, if_neg (by simp [hd])]
    exact h
  | readFile s name _ hin hsuf => exact CompletesScan.readFile hin hsuf h
  | skipName s name _ hin hsuf => exact CompletesScan.skipName hin hsuf h
  | endOfDir s hall => exact ⟨[], fun m hm he => absurd he (hall m hm), by simp, h⟩
  | current s n st hu =>
    obtain rfl : st = .done := of_decide_eq_true hc
    rw [Completes, registerFile_of_upToDate hu]
    exact h
  | outdated s n st hu =>
    obtain rfl : st = .done := of_decide_eq_true hc
    rw [Completes, registerFile_of_outdated hu]
    exact h
  | stamp s n t => exact h
  | stampFails s n t => cases hc
  | readContent s n f hf =>
    rw [Completes, insertUrlsFromFile, hf]
    exact h
  | unreadable s n hf =>
    rw [Completes, insertUrlsFromFile, hf]
    exact h
  | insert s n f v rest => exact h
  | insertFails s n f v rest => cases hc
  | fileDone s n f => exact h
  | remove names n hn => exact Forgets.remove hn h
  | removeFails names n st _ hst => exact absurd (of_decide_eq_true hc) hst
  | finish =>
    obtain rfl : db' = db := h
    exact ⟨[], by simp, rfl⟩

/-- What a complete run does: it registers the files of its directory in some order, and removes the
listed files it has not found, in some order. -/
theorem Completes.exists_order {fs : FileSys} {db db' : Database} {arg : Text}
    (h : Completes fs db (.start arg) db') :
    ∃ ns : List Text, (∀ n, n ∈ ns ↔ n ∈ runNames fs (settleDirname fs arg)) ∧
      Forgets ((urlDbFilesForDir .done db (settleDirname fs arg)).filter fun n => n ∉ ns)
        (ns.foldl (registerFile fs) db) db' := by
  rw [Completes, CompletesOpen] at h
  split_ifs at h with hd
  · obtain ⟨names, hall, honly, hf⟩ := h
    rw [scanDirectory_eq] at hf
    refine ⟨_, fun n => ?_, hf⟩
    have hmem : ∀ name, name ∈ names ↔ name ∈ fs.entries (settleDirname fs arg) := fun name =>
      ⟨fun hm => (honly name hm).elim id id, fun hm => hall name hm hm⟩
    simp only [runNames, hd, ↓reduceIte, scannedNames, List.mem_map, List.mem_filter, hmem]
  · refine ⟨[], fun n => ?_, ?_⟩
    · simp [runNames, hd]
    · simpa using h

/-- A step of the run that succeeds. -/
def SoloEvent.advances : SoloEvent → Bool
  | .exec c => c.succeeds
  | _ => false

/-- **The steps of a complete run** together do what is left to do. -/
theorem completes_of_run {w w' : Solo} {es : List SoloEvent}
    (h : Run Solo.step (fun _ e => e.advances = true) w es w') (hfin : w'.proc = .finished) :
    Completes w.fs w.db w.proc w'.db := by
  induction h with
  | nil w =>
    rw [hfin]
    exact rfl
  | cons hG hs _ ih =>
    have ih := ih hfin
    cases Solo.step_sound hs with
    | change fs => cases hG
    | launch arg _ => cases hG
    | exec c db pc hpc => exact Completes.of_step hpc hG ih
    | kill => cases hG

/-- `updateDirectory` is a complete run in the order of the file system. -/
theorem completes_updateDirectory (fs : FileSys) (db : Database) (arg : Text) :
    Completes fs db (.start arg) (updateDirectory fs db arg) := by
  rw [Completes, CompletesOpen, updateDirectory]
  split_ifs
  · exact ⟨_, fun _ _ h => h, fun _ h => .inl h, _, fun _ => Iff.rfl, rfl⟩
  · exact ⟨_, fun _ => Iff.rfl, rfl⟩

end UrlDispatcher
