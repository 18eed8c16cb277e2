import UrlDispatcher.Update.Provenance

/-!
# The names that get into the database

A name is only ever stored for a file that the loop over a directory has admitted: an entry that
ends in `.url-dispatcher`.  `Fleet` is the world of any number of runs of the tool, each on a
directory of its own, over one database.  Every step of a run finds whatever file system there is at
that moment, its statements may fail, and it may be killed.

* `handlerFile_of_run` : every name in the database is that of a `*.url-dispatcher` file.
* `Fleet.run_of_solo` : runs that do not overlap are runs of this world.
-/

namespace UrlDispatcher

open Sql GLib Machine

/-- The database, and the runs by their process number. -/
structure Fleet where
  db : Database
  procs : ℕ → Pc

/-- What can happen. -/
inductive FleetEvent
  /-- A run starts. -/
  | launch (i : ℕ) (arg : Text)
  /-- A run makes a step, on the file system as it is then. -/
  | exec (i : ℕ) (fs : FileSys) (c : Choice)
  /-- A run is killed. -/
  | kill (i : ℕ)

namespace Fleet

/-- The start: an empty database, and no run. -/
def init : Fleet := ⟨Database.empty, fun _ => .finished⟩

/-- The next state of the world. -/
def step (w : Fleet) : FleetEvent → Option Fleet
  | .launch i arg =>
    if (w.procs i).isFinished then some { w with procs := Function.update w.procs i (.start arg) }
    else none
  | .exec i fs c =>
    ((w.procs i).step fs w.db c).map fun r => ⟨r.1, Function.update w.procs i r.2⟩
  | .kill i => some { w with procs := Function.update w.procs i .finished }

/-- What a step of the world can do. -/
inductive Step (w : Fleet) : FleetEvent → Fleet → Prop
  | launch (i : ℕ) (arg : Text) :
      Step w (.launch i arg) { w with procs := Function.update w.procs i (.start arg) }
  | exec (i : ℕ) (fs : FileSys) (c : Choice) (db : Database) (pc : Pc)
      (h : Pc.Step fs w.db (w.procs i) c db pc) :
      Step w (.exec i fs c) ⟨db, Function.update w.procs i pc⟩
  | kill (i : ℕ) : Step w (.kill i) { w with procs := Function.update w.procs i .finished }

theorem step_sound {w w' : Fleet} {e : FleetEvent} (h : w.step e = some w') : Step w e w' := by
  cases e with
  | launch i arg =>
    rw [step, Option.ite_none_right_eq_some] at h
    obtain ⟨-, h⟩ := h
    cases h
    exact .launch i arg
  | exec i fs c =>
    obtain ⟨⟨db, pc⟩, hs, rfl⟩ := Option.map_eq_some_iff.1 h
    exact .exec i fs c db pc (Pc.step_sound hs)
  | kill i => cases h; exact .kill i

end Fleet

/-! ### Admitted names -/

/-- The file a run is working on, if any, is a handler file. -/
def Pc.OnHandler (pc : Pc) : Prop := ∀ n, pc.file = some n → HandlerFile n

/-- A step of a run stores no name but that of a file it has admitted. -/
theorem NamesHandlers.step {fs : FileSys} {db db' : Database} {pc pc' : Pc} {c : Choice}
    (h : NamesHandlers db) (hpc : pc.OnHandler) (hs : Pc.Step fs db pc c db' pc') :
    NamesHandlers db' ∧ pc'.OnHandler := by
  cases hs with
  | settle _ | list _ _ | openDir _ _ _ | noDir _ _ _ | skipName _ _ _ _ _ | endOfDir _ _
  | current _ _ _ _ | stampFails _ _ _ | unreadable _ _ _ | fileDone _ _ _
  | removeFails _ _ _ _ _ | finish => exact ⟨h, by rintro _ ⟨⟩⟩
  | readFile s name hc _ hsuf =>
    refine ⟨h, ?_⟩
    rintro _ ⟨⟩
    exact ⟨s.dirname, name, hc, hsuf, rfl⟩
  | outdated s n _ _ => exact ⟨h, hpc⟩
  | stamp s n t => exact ⟨h.setTimestamp (hpc n rfl) _, hpc⟩
  | readContent s n f _ => exact ⟨h, hpc⟩
  | insert s n f v rest => exact ⟨h.eachUrl n v, hpc⟩
  | insertFails s n f v rest => exact ⟨h, hpc⟩
  | remove names n _ => exact ⟨h.remove n, by rintro _ ⟨⟩⟩

/-- **Only handler files are known**, whatever runs there have been. -/
theorem handlerFile_of_run {es : List FleetEvent} {w : Fleet}
    (h : Run Fleet.step (fun _ _ => True) .init es w) : NamesHandlers w.db := by
  have hinv := h.invariant (I := fun w => NamesHandlers w.db ∧ ∀ i, (w.procs i).OnHandler)
    ⟨fun n hn => by simp [Fleet.init] at hn, fun i n hn => by cases hn⟩ ?_
  · exact hinv.1
  intro w e w' hI _ hs
  obtain ⟨hdb, hprocs⟩ := hI
  -- the runs that do not move keep their files
  have hupdate : ∀ i pc, pc.OnHandler → ∀ j, (Function.update w.procs i pc j).OnHandler := by
    intro i pc hpc j
    by_cases hj : j = i
    · rwa [hj, Function.update_self]
    · rw [Function.update_of_ne hj]
      exact hprocs j
  cases Fleet.step_sound hs with
  | launch i arg => exact ⟨hdb, hupdate i _ (by rintro _ ⟨⟩)⟩
  | exec i fs c db pc hpc =>
    obtain ⟨hdb', hpc'⟩ := hdb.step (hprocs i) hpc
    exact ⟨hdb', hupdate i pc hpc'⟩
  | kill i => exact ⟨hdb, hupdate i _ (by rintro _ ⟨⟩)⟩

/-! ### Runs that do not overlap -/

/-- The world of a single run. -/
def Solo.toFleet (w : Solo) : Fleet := ⟨w.db, Function.update (fun _ => .finished) 0 w.proc⟩

theorem Solo.toFleet_procs (w : Solo) : w.toFleet.procs 0 = w.proc := by
  simp [Solo.toFleet]

/-- Runs that do not overlap are runs of one process of the fleet. -/
theorem Fleet.run_of_solo {G : Solo → SoloEvent → Prop} {w w' : Solo} {es : List SoloEvent}
    (h : Run Solo.step G w es w') :
    ∃ es', Run Fleet.step (fun _ _ => True) w.toFleet es' w'.toFleet := by
  induction h with
  | nil w => exact ⟨[], .nil _⟩
  | @cons w w₁ w' e es _ hs _ ih =>
    obtain ⟨es', hrun⟩ := ih
    have hself := w.toFleet_procs
    cases e with
    | change fs =>
      cases hs
      exact ⟨es', hrun⟩
    | launch arg =>
      rw [Solo.step, Option.ite_none_right_eq_some] at hs
      obtain ⟨hfin, hs⟩ := hs
      refine ⟨.launch 0 arg :: es', .cons trivial ?_ hrun⟩
      rw [Fleet.step, hself, if_pos hfin]
      cases hs
      rw [Solo.toFleet, Function.update_idem]
      rfl
    | exec c =>
      obtain ⟨⟨db, pc⟩, hpc, rfl⟩ := Option.map_eq_some_iff.1 hs
      refine ⟨.exec 0 w.fs c :: es', .cons trivial ?_ hrun⟩
      have hstep : (w.toFleet.procs 0).step w.fs w.toFleet.db c = some (db, pc) := by
        rw [hself]
        exact hpc
      rw [Fleet.step, hstep, Option.map_some, Solo.toFleet, Function.update_idem]
      rfl
    | kill =>
      refine ⟨.kill 0 :: es', .cons trivial ?_ hrun⟩
      cases hs
      rw [Fleet.step, Solo.toFleet, Function.update_idem]
      rfl

/-- The fleet starts as a single run does. -/
theorem Solo.toFleet_init (fs : FileSys) : (Solo.init fs).toFleet = .init := by
  have hidle : Function.update (fun _ : ℕ => Pc.finished) 0 (init fs).proc = fun _ => .finished :=
    Function.update_eq_self_iff.2 rfl
  rw [toFleet, hidle]
  rfl

end UrlDispatcher
