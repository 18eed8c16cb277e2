import UrlDispatcher.Machine.Basic
import UrlDispatcher.Update.Process

/-!
# Runs of the tool one after the other

`Solo` is the world in which runs of the tool do not overlap: a file system that changes at any
moment, the database, and the run in progress.  A run may be killed at any point.

Two fields record the past for the statements about runs: `newest` is the last version each path has
had, and `lastRead` what the tool last read of it.
-/

namespace UrlDispatcher

open Sql GLib

/-- The world of runs that do not overlap. -/
structure Solo where
  fs : FileSys
  db : Database
  /-- The run in progress, `finished` if there is none. -/
  proc : Pc
  /-- The last version each path has had. -/
  newest : Text → Option File
  /-- What the tool last read of each path. -/
  lastRead : Text → Option File

/-- What can happen. -/
inductive SoloEvent
  /-- Files are created, edited and deleted. -/
  | change (fs : FileSys)
  /-- A run starts. -/
  | launch (arg : Text)
  /-- The run makes a step. -/
  | exec (c : Choice)
  /-- The run is killed; an open transaction is rolled back with its connection. -/
  | kill

/-- The last version of a path after the file system has become `fs`. -/
def latest (fs : FileSys) (newest : Text → Option File) (n : Text) : Option File :=
  match fs.file n with
  | some f => some f
  | none => newest n

/-- What was last read, after a step of a run at `pc`. -/
def recordRead (fs : FileSys) (pc : Pc) (lastRead : Text → Option File) : Text → Option File :=
  match pc with
  | .reading _ n => Function.update lastRead n (fs.file n)
  | _ => lastRead

/-- The run is over. -/
def Pc.isFinished : Pc → Bool
  | .finished => true
  | _ => false

theorem Pc.isFinished_iff {pc : Pc} : pc.isFinished = true ↔ pc = .finished := by
  cases pc <;> simp [Pc.isFinished]

namespace Solo

/-- The next state of the world. -/
def step (w : Solo) : SoloEvent → Option Solo
  | .change fs => some { w with fs := fs, newest := latest fs w.newest }
  | .launch arg => if w.proc.isFinished then some { w with proc := .start arg } else none
  | .exec c => (w.proc.step w.fs w.db c).map fun r =>
      { w with db := r.1, proc := r.2, lastRead := recordRead w.fs w.proc w.lastRead }
  | .kill => some { w with proc := .finished }

/-- The start: an empty database, and no run yet. -/
def init (fs : FileSys) : Solo where
  fs := fs
  db := Database.empty
  proc := .finished
  newest := fs.file
  lastRead := fun _ => none

/-- What a step of the world can do. -/
inductive Step (w : Solo) : SoloEvent → Solo → Prop
  | change (fs : FileSys) :
      Step w (.change fs) { w with fs := fs, newest := latest fs w.newest }
  | launch (arg : Text) (h : w.proc = .finished) :
      Step w (.launch arg) { w with proc := .start arg }
  | exec (c : Choice) (db : Database) (pc : Pc) (h : Pc.Step w.fs w.db w.proc c db pc) :
      Step w (.exec c)
        { w with db := db, proc := pc, lastRead := recordRead w.fs w.proc w.lastRead }
  | kill : Step w .kill { w with proc := .finished }

theorem step_sound {w w' : Solo} {e : SoloEvent} (h : w.step e = some w') : Step w e w' := by
  cases e with
  | change fs => cases h; exact .change fs
  | launch arg =>
    simp only [step, Option.ite_none_right_eq_some, Pc.isFinished_iff] at h
    obtain ⟨hp, h⟩ := h
    cases h
    exact .launch arg hp
  | exec c =>
    simp only [step, Option.map_eq_some_iff] at h
    obtain ⟨⟨db, pc⟩, hs, rfl⟩ := h
    exact .exec c db pc (Pc.step_sound hs)
  | kill => cases h; exact .kill

end Solo

/-! ### A directory with two files -/

/-- The directory `/d` with at most the files `a.url-dispatcher` and `b.url-dispatcher`. -/
def pairDir (a b : Option File) : FileSys where
  isDir d := decide (d = "/d".toList)
  entries d := if d = "/d".toList then
    (a.toList.map fun _ => "a.url-dispatcher".toList) ++
      b.toList.map fun _ => "b.url-dispatcher".toList else []
  file n := if n = "/d/a.url-dispatcher".toList then a
    else if n = "/d/b.url-dispatcher".toList then b else none
  component d name h := by
    split_ifs at h
    · rcases List.mem_append.1 h with h | h <;> obtain ⟨-, -, rfl⟩ := List.mem_map.1 h <;> decide
    · cases h
  listed_once d := by
    split_ifs
    · cases a <;> cases b <;> simp
    · exact List.nodup_nil
  empty_path := by decide

/-- A file that registers one suffix for `http`. -/
def suffixFile (suffix : Text) (mtime : ℤ) : File where
  mtime := mtime
  content := some (.array [.object
    [("protocol".toList, .string "http".toList), ("domain-suffix".toList, .string suffix)]])

/-- A file that registers `a.com` for `http`. -/
def comFile (mtime : ℤ) : File := suffixFile "a.com".toList mtime

/-- A file without entries. -/
def emptyFile (mtime : ℤ) : File := ⟨mtime, some (.array [])⟩

/-- A run registers a file of `n` elements. -/
def registerEvents (name : Text) (n : ℕ) : List SoloEvent :=
  [.exec (.readName (some name)), .exec (.stmt .done), .exec (.stmt .done), .exec .tau] ++
    List.replicate n (.exec (.stmt .done)) ++ [.exec .tau]

/-- A complete run on `/d`: what happens between opening the directory and its end, and the files
that are removed. -/
def runEvents (scan : List SoloEvent) (removed : List Text) : List SoloEvent :=
  [.launch "/d".toList, .exec .tau, .exec (.stmt .done), .exec .tau] ++ scan ++
    [.exec (.readName none)] ++ (removed.map fun n => .exec (.remove n .allDone)) ++ [.exec .tau]

/-- A run on `/d` registers `a.url-dispatcher` with one entry. -/
def listed : List SoloEvent := runEvents (registerEvents "a.url-dispatcher".toList 1) []

/-! ### Assumptions on runs -/

/-- No statement of the step fails. -/
def Choice.succeeds : Choice → Bool
  | .stmt st => decide (st = .done)
  | .remove _ st => decide (st = .allDone)
  | _ => true

/-- Launches and successful steps. -/
def SoloEvent.quiet : SoloEvent → Bool
  | .launch _ => true
  | .exec c => c.succeeds
  | _ => false

/-- Versions of a path replace each other with strictly growing seconds; a version that was gone may
come back unchanged. -/
def VersionsGrow (newest : Text → Option File) (fs : FileSys) : Prop :=
  ∀ n f f', newest n = some f → fs.file n = some f' → f' = f ∨ f.mtime < f'.mtime

theorem versionsGrow_pairDir {newest : Text → Option File} {a b : Option File}
    (ha : ∀ f f', newest "/d/a.url-dispatcher".toList = some f → a = some f' →
      f' = f ∨ f.mtime < f'.mtime)
    (hb : ∀ f f', newest "/d/b.url-dispatcher".toList = some f → b = some f' →
      f' = f ∨ f.mtime < f'.mtime) : VersionsGrow newest (pairDir a b) := by
  intro n f f' hf hf'
  unfold pairDir at hf'
  dsimp only at hf'
  split_ifs at hf' with h h'
  · exact ha f f' (h ▸ hf) hf'
  · exact hb f f' (h' ▸ hf) hf'

end UrlDispatcher
