import UrlDispatcher.Machine.Simulation
import UrlDispatcher.Update.Fleet
import UrlDispatcher.Update.Installed

/-!
# Runs on separate directories

The files of the system, those of the user and those of click packages lie in directories of their
own, and the tool is run on a directory whenever a file in it changes, over one database.  `Covers`
says which files a run on a directory may touch at all.  If no file is covered twice, and none with
entries is registered again, the runs do not get in each other's way, though they share the tables
and their rowids.

* `Pc.Within.step` : a step of a run touches covered files only.
* `Pc.Same.step` : it is the same step over a database that holds the same of these files.
* `purge_of_run` : a run goes as it would go without the others, whatever the files do, whatever
  fails and whoever is killed: the events of the others can be left out.
-/

namespace UrlDispatcher

open Sql GLib Machine

variable {D n : Text} {fs : FileSys} {db db' dv : Database} {pc pc' pv : Pc} {c : Choice}

/-! ### What a run touches -/

/-- The file is one that a run on `D` lists or registers. -/
def Covers (D n : Text) : Prop := like (D ++ ['%']) n = true

instance : Decidable (Covers D n) := inferInstanceAs (Decidable (_ = true))

theorem covers_gBuildFilename {name : Text} (hD : gStrHasSuffix D ['/', '/'] = false)
    (hc : IsComponent name) : Covers D (gBuildFilename D name) := by
  obtain ⟨r, hr⟩ := exists_append_of_single hD hc
  rw [Covers, hr]
  exact like_prefix D r

/-- The loop is in the directory `D`. -/
structure Scan.In (s : Scan) (D : Text) : Prop where
  dirname : s.dirname = D
  startingdb : ∀ n ∈ s.startingdb, Covers D n

/-- The run is one on the directory `D`. -/
def Pc.Within (D : Text) : Pc → Prop
  | .listing dirname => dirname = D
  | .opening dirname startingdb => dirname = D ∧ ∀ n ∈ startingdb, Covers D n
  | .scanning s => s.In D
  | .checking s n => s.In D ∧ Covers D n
  | .stamping s n _ => s.In D ∧ Covers D n
  | .reading s n => s.In D ∧ Covers D n
  | .inserting s n _ _ => s.In D ∧ Covers D n
  | .removing names => ∀ n ∈ names, Covers D n
  | _ => True

/-- The run settles on `D`, and the file it registers has no entries yet. -/
def Pc.Apart (D : Text) (fs : FileSys) (db : Database) : Pc → Prop
  | .start arg => settleDirname fs arg = D
  | .stamping _ n _ => ∀ g, db.registry n = some g → g.entries = ∅
  | _ => True

theorem Scan.In.read {s : Scan} (h : s.In D) (name : Text) : (s.read name).In D :=
  ⟨h.dirname, h.startingdb⟩

theorem Scan.In.found {s : Scan} (h : s.In D) (n : Text) : (s.found n).In D :=
  ⟨h.dirname, fun m hm => h.startingdb m (List.mem_filter.1 hm).1⟩

/-- A step of a run touches covered files only, and leaves no row behind. -/
theorem Pc.Within.step (h : pc.Within D) (hD : gStrHasSuffix D ['/', '/'] = false)
    (ha : pc.Apart D fs db) (hdb : db.Referential) (hs : Pc.Step fs db pc c db' pc') :
    pc'.Within D ∧ db'.Referential ∧ ∀ m, ¬ Covers D m → db'.registry m = db.registry m := by
  have hne : ∀ {m k : Text}, ¬ Covers D m → Covers D k → m ≠ k := by
    rintro m _ hm hk rfl
    exact hm hk
  cases hs with
  | settle arg => exact ⟨ha, hdb, fun _ _ => rfl⟩
  | list dirname st =>
    refine ⟨⟨h, fun m hm => ?_⟩, hdb, fun _ _ => rfl⟩
    cases st with
    | done => exact h ▸ (mem_urlDbFilesForDir.1 hm).2
    | error => cases hm
  | openDir dirname startingdb _ => exact ⟨⟨h.1, h.2⟩, hdb, fun _ _ => rfl⟩
  | noDir dirname startingdb _ => exact ⟨h.2, hdb, fun _ _ => rfl⟩
  | readFile s name hc _ _ =>
    have hcov : Covers D (gBuildFilename s.dirname name) := by
      rw [h.dirname]
      exact covers_gBuildFilename hD hc
    exact ⟨⟨Scan.In.read h name, hcov⟩, hdb, fun _ _ => rfl⟩
  | skipName s name _ _ _ => exact ⟨Scan.In.read h name, hdb, fun _ _ => rfl⟩
  | endOfDir s _ => exact ⟨h.startingdb, hdb, fun _ _ => rfl⟩
  | current s n st _ => exact ⟨h.1.found n, hdb, fun _ _ => rfl⟩
  | outdated s n st _ => exact ⟨h, hdb, fun _ _ => rfl⟩
  | stamp s n t =>
    refine ⟨h, hdb.setTimestamp ha _, fun m hm => ?_⟩
    rw [db.registry_setTimestamp, Function.update_of_ne (hne hm h.2)]
  | stampFails s n t => exact ⟨h.1.found n, hdb, fun _ _ => rfl⟩
  | readContent s n f _ => exact ⟨h, hdb, fun _ _ => rfl⟩
  | unreadable s n _ => exact ⟨h.1.found n, hdb, fun _ _ => rfl⟩
  | insert s n f v rest =>
    refine ⟨h, hdb.eachUrl n v, fun m hm => ?_⟩
    rw [registry_eachUrl, Function.update_of_ne (hne hm h.2)]
  | insertFails s n f v rest => exact ⟨h, hdb, fun _ _ => rfl⟩
  | fileDone s n f => exact ⟨h.1.found n, hdb, fun _ _ => rfl⟩
  | remove names n hn =>
    refine ⟨fun m hm => h m (List.mem_filter.1 hm).1, hdb.remove n, fun m hm => ?_⟩
    rw [db.registry_remove, Function.update_of_ne (hne hm (h n hn))]
  | removeFails names n st _ _ =>
    exact ⟨fun m hm => h m (List.mem_filter.1 hm).1, hdb, fun _ _ => rfl⟩
  | finish => exact ⟨trivial, hdb, fun _ _ => rfl⟩

/-! ### The same run over another database -/

/-- What a step can do, it does. -/
theorem Pc.step_complete (h : Pc.Step fs db pc c db' pc') : pc.step fs db c = some (db', pc') := by
  cases h with
  | settle _ | list _ _ | stamp _ _ _ | stampFails _ _ _ | insert _ _ _ _ _ | fileDone _ _ _
  | finish => rfl
  | openDir _ _ hd => rw [Pc.step, if_pos hd]
  | noDir _ _ hd => rw [Pc.step, if_neg (by simp [hd])]
  | readFile _ _ hc hin hsuf => rw [Pc.step, if_pos ⟨hc, hin⟩, if_pos hsuf]
  | skipName _ _ hc hin hsuf => rw [Pc.step, if_pos ⟨hc, hin⟩, if_neg (by simp [hsuf])]
  | endOfDir _ hall => rw [Pc.step, if_pos hall]
  | current _ _ _ hu => rw [Pc.step, if_pos hu]
  | outdated _ _ _ hu => rw [Pc.step, if_neg (by simp [hu])]
  | readContent _ _ _ hf => rw [Pc.step, hf]
  | unreadable _ _ hf => rw [Pc.step, hf]
  | insertFails _ _ _ _ _ => rw [Pc.step, eachUrl_error]
  | remove _ _ hn => rw [Pc.step, if_pos hn, removeFile_eq, if_pos rfl]
  | removeFails _ _ _ hn hst => rw [Pc.step, if_pos hn, removeFile_eq, if_neg hst]

/-- Two databases without rows left behind, with the same registrations of covered files. -/
structure Agrees (D : Text) (db dv : Database) : Prop where
  referential : db.Referential
  referential' : dv.Referential
  registry : ∀ n, Covers D n → dv.registry n = db.registry n

namespace Agrees

theorem setTimestamp (h : Agrees D db dv) (hc : Covers D n)
    (hn : ∀ g, db.registry n = some g → g.entries = ∅) (τ : ℤ) :
    Agrees D (db.setTimestamp n τ) (dv.setTimestamp n τ) := by
  refine ⟨h.referential.setTimestamp hn τ,
    h.referential'.setTimestamp (h.registry n hc ▸ hn) τ, fun m hm => ?_⟩
  rw [Database.registry_setTimestamp, Database.registry_setTimestamp,
    h.referential.leftover_eq_empty, h.referential'.leftover_eq_empty]
  by_cases hmn : m = n
  · rw [hmn, Function.update_self, Function.update_self]
  · rw [Function.update_of_ne hmn, Function.update_of_ne hmn, h.registry m hm]

theorem eachUrl (h : Agrees D db dv) (hc : Covers D n) (v : JsonNode) :
    Agrees D (eachUrl .done db n v) (eachUrl .done dv n v) := by
  refine ⟨h.referential.eachUrl n v, h.referential'.eachUrl n v, fun m hm => ?_⟩
  rw [registry_eachUrl, registry_eachUrl]
  by_cases hmn : m = n
  · rw [hmn, Function.update_self, Function.update_self, h.registry n hc]
  · rw [Function.update_of_ne hmn, Function.update_of_ne hmn, h.registry m hm]

theorem remove (h : Agrees D db dv) (n : Text) : Agrees D (db.remove n) (dv.remove n) := by
  refine ⟨h.referential.remove n, h.referential'.remove n, fun m hm => ?_⟩
  rw [Database.registry_remove, Database.registry_remove]
  by_cases hmn : m = n
  · rw [hmn, Function.update_self, Function.update_self]
  · rw [Function.update_of_ne hmn, Function.update_of_ne hmn, h.registry m hm]

theorem upToDate (h : Agrees D db dv) (hc : Covers D n) (st : Status) (t : ℤ) :
    upToDate st dv n t = upToDate st db n t := by
  cases st with
  | done => exact upToDate_congr (h.registry n hc) t
  | error => rfl

theorem mem_urlDbFilesForDir (h : Agrees D db dv) (st : Status) :
    n ∈ urlDbFilesForDir st dv D ↔ n ∈ urlDbFilesForDir st db D := by
  cases st with
  | done =>
    rw [UrlDispatcher.mem_urlDbFilesForDir, UrlDispatcher.mem_urlDbFilesForDir]
    exact and_congr_left fun hc => by rw [h.registry n hc]
  | error => rfl

end Agrees

/-- The loops hold the same, in whatever order. -/
structure Scan.Same (s s' : Scan) : Prop where
  dirname : s'.dirname = s.dirname
  unread : s'.unread = s.unread
  startingdb : ∀ n, n ∈ s'.startingdb ↔ n ∈ s.startingdb

/-- The runs are at the same point and hold the same, in whatever order. -/
inductive Pc.Same : Pc → Pc → Prop
  | start (arg : Text) : Same (.start arg) (.start arg)
  | listing (dirname : Text) : Same (.listing dirname) (.listing dirname)
  | opening (dirname : Text) {l l' : List Text} (h : ∀ n, n ∈ l' ↔ n ∈ l) :
      Same (.opening dirname l) (.opening dirname l')
  | scanning {s s' : Scan} (h : s.Same s') : Same (.scanning s) (.scanning s')
  | checking {s s' : Scan} (h : s.Same s') (n : Text) : Same (.checking s n) (.checking s' n)
  | stamping {s s' : Scan} (h : s.Same s') (n : Text) (t : ℤ) :
      Same (.stamping s n t) (.stamping s' n t)
  | reading {s s' : Scan} (h : s.Same s') (n : Text) : Same (.reading s n) (.reading s' n)
  | inserting {s s' : Scan} (h : s.Same s') (n : Text) (f : File) (rest : List JsonNode) :
      Same (.inserting s n f rest) (.inserting s' n f rest)
  | removing {l l' : List Text} (h : ∀ n, n ∈ l' ↔ n ∈ l) : Same (.removing l) (.removing l')
  | finished : Same .finished .finished

theorem Scan.Same.read {s s' : Scan} (h : s.Same s') (name : Text) :
    (s.read name).Same (s'.read name) :=
  ⟨h.dirname, by rw [Scan.read, Scan.read, h.unread], h.startingdb⟩

theorem Scan.Same.found {s s' : Scan} (h : s.Same s') (n : Text) : (s.found n).Same (s'.found n) :=
  ⟨h.dirname, h.unread, fun m => by simp only [Scan.found, List.mem_filter, h.startingdb m]⟩

theorem Pc.Same.refl (pc : Pc) : pc.Same pc := by
  cases pc with
  | start arg => exact .start arg
  | listing dirname => exact .listing dirname
  | opening dirname _ => exact .opening dirname fun _ => Iff.rfl
  | scanning _ => exact .scanning ⟨rfl, rfl, fun _ => Iff.rfl⟩
  | checking _ n => exact .checking ⟨rfl, rfl, fun _ => Iff.rfl⟩ n
  | stamping _ n t => exact .stamping ⟨rfl, rfl, fun _ => Iff.rfl⟩ n t
  | reading _ n => exact .reading ⟨rfl, rfl, fun _ => Iff.rfl⟩ n
  | inserting _ n f rest => exact .inserting ⟨rfl, rfl, fun _ => Iff.rfl⟩ n f rest
  | removing _ => exact .removing fun _ => Iff.rfl
  | finished => exact .finished

theorem Pc.Same.eq_finished (h : pc.Same pv) (hpc : pc = .finished) : pv = .finished := by
  subst hpc
  cases h
  rfl

/-- A step is the same over the other database. -/
theorem Pc.Same.step (h : pc.Same pv) (hag : Agrees D db dv) (hw : pc.Within D)
    (ha : pc.Apart D fs db) (hs : Pc.Step fs db pc c db' pc') :
    ∃ dv' pv', Pc.Step fs dv pv c dv' pv' ∧ pc'.Same pv' ∧ Agrees D db' dv' := by
  cases hs with
  | settle arg =>
    cases h
    exact ⟨_, _, .settle arg, .listing _, hag⟩
  | list dirname st =>
    cases h
    obtain rfl : dirname = D := hw
    exact ⟨_, _, .list dirname st, .opening _ fun _ => hag.mem_urlDbFilesForDir st, hag⟩
  | openDir dirname startingdb hd =>
    cases h with
    | opening _ h => exact ⟨_, _, .openDir _ _ hd, .scanning ⟨rfl, rfl, h⟩, hag⟩
  | noDir dirname startingdb hd =>
    cases h with
    | opening _ h => exact ⟨_, _, .noDir _ _ hd, .removing h, hag⟩
  | readFile s name hc hin hsuf =>
    cases h with
    | @scanning _ s' h =>
      rw [← h.unread, ← h.dirname] at hin
      refine ⟨_, _, .readFile s' name hc hin hsuf, ?_, hag⟩
      rw [h.dirname]
      exact .checking (h.read name) _
  | skipName s name hc hin hsuf =>
    cases h with
    | @scanning _ s' h =>
      rw [← h.unread, ← h.dirname] at hin
      exact ⟨_, _, .skipName s' name hc hin hsuf, .scanning (h.read name), hag⟩
  | endOfDir s hall =>
    cases h with
    | @scanning _ s' h =>
      rw [← h.unread, ← h.dirname] at hall
      exact ⟨_, _, .endOfDir s' hall, .removing h.startingdb, hag⟩
  | current s n st hu =>
    cases h with
    | checking h _ =>
      rw [← hag.upToDate hw.2] at hu
      exact ⟨_, _, .current _ n st hu, .scanning (h.found n), hag⟩
  | outdated s n st hu =>
    cases h with
    | checking h _ =>
      rw [← hag.upToDate hw.2] at hu
      exact ⟨_, _, .outdated _ n st hu, .stamping h n _, hag⟩
  | stamp s n t =>
    cases h with
    | stamping h _ _ => exact ⟨_, _, .stamp _ n t, .reading h n, hag.setTimestamp hw.2 ha _⟩
  | stampFails s n t =>
    cases h with
    | stamping h _ _ => exact ⟨_, _, .stampFails _ n t, .scanning (h.found n), hag⟩
  | readContent s n f hf =>
    cases h with
    | reading h _ => exact ⟨_, _, .readContent _ n f hf, .inserting h n f _, hag⟩
  | unreadable s n hf =>
    cases h with
    | reading h _ => exact ⟨_, _, .unreadable _ n hf, .scanning (h.found n), hag⟩
  | insert s n f v rest =>
    cases h with
    | inserting h _ _ _ =>
      exact ⟨_, _, .insert _ n f v rest, .inserting h n f rest, hag.eachUrl hw.2 v⟩
  | insertFails s n f v rest =>
    cases h with
    | inserting h _ _ _ => exact ⟨_, _, .insertFails _ n f v rest, .inserting h n f rest, hag⟩
  | fileDone s n f =>
    cases h with
    | inserting h _ _ _ => exact ⟨_, _, .fileDone _ n f, .scanning (h.found n), hag⟩
  | remove names n hn =>
    cases h with
    | removing h =>
      refine ⟨_, _, .remove _ n ((h n).2 hn), .removing fun m => ?_, hag.remove n⟩
      rw [List.mem_filter, List.mem_filter, h m]
  | removeFails names n st hn hst =>
    cases h with
    | removing h =>
      refine ⟨_, _, .removeFails _ n st ((h n).2 hn) hst, .removing fun m => ?_, hag⟩
      rw [List.mem_filter, List.mem_filter, h m]
  | finish =>
    cases h with
    | @removing _ l' h =>
      obtain rfl : l' = [] := List.eq_nil_iff_forall_not_mem.2 fun m hm =>
        List.not_mem_nil ((h m).1 hm)
      exact ⟨_, _, .finish, .finished, hag⟩

/-! ### The others left out -/

/-- The run an event is one of. -/
def FleetEvent.proc : FleetEvent → ℕ
  | .launch i _ => i
  | .exec i _ _ => i
  | .kill i => i

/-- The directories of these runs are as `g_build_filename` takes them, and no file is covered by
two of them. -/
structure Separate (A : Set ℕ) (D : ℕ → Text) : Prop where
  plain : ∀ i ∈ A, gStrHasSuffix (D i) ['/', '/'] = false
  disjoint : ∀ i ∈ A, ∀ j ∈ A, ∀ n, Covers (D i) n → Covers (D j) n → i = j

/-- Each run settles on its directory, and registers no file that has entries. -/
def Apart (A : Set ℕ) (D : ℕ → Text) (w : Fleet) (e : FleetEvent) : Prop :=
  e.proc ∈ A ∧ ∀ i fs c, e = .exec i fs c → (w.procs i).Apart (D i) fs w.db

/-- The invariant: in the world `v` without the others the run `i` is at the same point, and its
files are registered in the same way. -/
structure Purged (A : Set ℕ) (D : ℕ → Text) (i : ℕ) (w v : Fleet) : Prop where
  within : ∀ j ∈ A, (w.procs j).Within (D j)
  same : (w.procs i).Same (v.procs i)
  agrees : Agrees (D i) w.db v.db

section

variable {A : Set ℕ} {D : ℕ → Text} {w w' v : Fleet} {i : ℕ} {e : FleetEvent}
  {es : List FleetEvent}

theorem within_update (h : ∀ j ∈ A, (w.procs j).Within (D j)) {pc : Pc} (hpc : pc.Within (D i)) :
    ∀ j ∈ A, (Function.update w.procs i pc j).Within (D j) :=
  (Function.forall_update_iff w.procs fun j pc => j ∈ A → pc.Within (D j)).2
    ⟨fun _ => hpc, fun j _ => h j⟩

theorem Purged.step_self (h : Purged A D i w v) (hsep : Separate A D) (hG : Apart A D w e)
    (hs : w.step e = some w') (he : e.proc = i) :
    ∃ v', v.step e = some v' ∧ Purged A D i w' v' := by
  have hsame : ∀ {pc pv : Pc}, pc.Same pv →
      (Function.update w.procs i pc i).Same (Function.update v.procs i pv i) := by
    intro pc pv hpc
    rwa [Function.update_self, Function.update_self]
  obtain ⟨hA, hapart⟩ := hG
  cases Fleet.step_sound hs with
  | launch j arg =>
    obtain rfl : j = i := he
    rw [Fleet.step, Option.ite_none_right_eq_some, Pc.isFinished_iff] at hs
    have hv : v.procs j = .finished := h.same.eq_finished hs.1
    refine ⟨{ v with procs := Function.update v.procs j (.start arg) }, ?_,
      within_update h.within trivial, hsame (.start arg), h.agrees⟩
    rw [Fleet.step, if_pos (Pc.isFinished_iff.2 hv)]
  | exec j fs c db pc hpc =>
    obtain rfl : j = i := he
    have ha := hapart j fs c rfl
    obtain ⟨hpc', -, -⟩ := (h.within j hA).step (hsep.plain j hA) ha h.agrees.referential hpc
    obtain ⟨dv, pv, hstep, hpv, hag⟩ := h.same.step h.agrees (h.within j hA) ha hpc
    refine ⟨⟨dv, Function.update v.procs j pv⟩, ?_, within_update h.within hpc', hsame hpv, hag⟩
    rw [Fleet.step, Pc.step_complete hstep, Option.map_some]
  | kill j =>
    obtain rfl : j = i := he
    exact ⟨_, rfl, within_update h.within trivial, hsame .finished, h.agrees⟩

theorem Purged.step_other (h : Purged A D i w v) (hi : i ∈ A) (hsep : Separate A D)
    (hG : Apart A D w e) (hs : w.step e = some w') (he : e.proc ≠ i) : Purged A D i w' v := by
  have hkeep : ∀ {j : ℕ} {pc : Pc}, j ≠ i → (Function.update w.procs j pc i).Same (v.procs i) := by
    intro j pc hj
    rw [Function.update_of_ne hj.symm]
    exact h.same
  obtain ⟨hA, hapart⟩ := hG
  cases Fleet.step_sound hs with
  | launch j arg => exact ⟨within_update h.within trivial, hkeep he, h.agrees⟩
  | exec j fs c db pc hpc =>
    obtain ⟨hpc', hdb, hreg⟩ := (h.within j hA).step (hsep.plain j hA) (hapart j fs c rfl)
      h.agrees.referential hpc
    refine ⟨within_update h.within hpc', hkeep he, hdb, h.agrees.referential', fun n hn => ?_⟩
    -- a file of the other run is none of this one
    rw [hreg n fun hj => he (hsep.disjoint j hA i hi n hj hn)]
    exact h.agrees.registry n hn
  | kill j => exact ⟨within_update h.within trivial, hkeep he, h.agrees⟩

theorem Purged.exists_run (h : Purged A D i w v) (hi : i ∈ A) (hsep : Separate A D)
    (hrun : Run Fleet.step (Apart A D) w es w') :
    ∃ v', Run Fleet.step (fun _ _ => True) v (es.filter fun e => e.proc = i) v' ∧
      Purged A D i w' v' := by
  have hfilter : es.filter (fun e => e.proc = i) =
      es.flatMap fun e => [e].filter fun e => e.proc = i := by
    rw [← List.filter_flatMap, List.flatMap_singleton']
  rw [hfilter]
  refine exists_run_flatMap (fun w e w' v hpurged hG hs => ?_) h hrun
  by_cases he : e.proc = i
  · obtain ⟨v', hv, h'⟩ := hpurged.step_self hsep hG hs he
    refine ⟨v', ?_, h'⟩
    rw [List.filter_cons_of_pos (by simp [he])]
    exact .cons trivial hv (.nil v')
  · refine ⟨v, ?_, hpurged.step_other hi hsep hG hs he⟩
    rw [List.filter_cons_of_neg (by simp [he])]
    exact .nil v

theorem Purged.refl (hin : ∀ j ∈ A, (w.procs j).Within (D j)) (hdb : w.db.Referential) :
    Purged A D i w w := ⟨hin, .refl _, hdb, hdb, fun _ _ => rfl⟩

/-- **Runs on separate directories do not interfere.**  In any world of runs on separate directories
in which no file with entries is registered again, the events of one run can happen without those of
the others, in the same order and with the same answers, and they leave that run at the same point
and its files with the same registrations, though under other rowids. -/
theorem purge_of_run (A : Set ℕ) (D : ℕ → Text) (w w' : Fleet) (i : ℕ) (es : List FleetEvent)
    (hi : i ∈ A) (hsep : Separate A D) (hin : ∀ j ∈ A, (w.procs j).Within (D j))
    (hdb : w.db.Referential) (h : Run Fleet.step (Apart A D) w es w') :
    ∃ v', Run Fleet.step (fun _ _ => True) w (es.filter fun e => e.proc = i) v' ∧
      (w'.procs i).Same (v'.procs i) ∧
      ∀ n, Covers (D i) n → v'.db.registry n = w'.db.registry n := by
  obtain ⟨v', hrun, hv'⟩ := (Purged.refl hin hdb).exists_run hi hsep h
  exact ⟨v', hrun, hv'.same, hv'.agrees.registry⟩

end

/-! ### Two directories -/

/-- The directories `/d` and `/e`, with a file each. -/
def twoDirs : FileSys where
  isDir d := decide (d = "/d".toList) || decide (d = "/e".toList)
  entries d := if d = "/d".toList then ["a.url-dispatcher".toList]
    else if d = "/e".toList then ["b.url-dispatcher".toList] else []
  file n := if n = "/d/a.url-dispatcher".toList then some (comFile 1)
    else if n = "/e/b.url-dispatcher".toList then some (suffixFile "b.com".toList 1) else none
  component d name h := by
    split_ifs at h
    · rw [List.mem_singleton.1 h]; decide
    · rw [List.mem_singleton.1 h]; decide
    · cases h
  listed_once d := by split_ifs <;> simp
  empty_path := by decide

/-- The directory of each of the two runs. -/
def twoArgs (i : ℕ) : Text := if i = 0 then "/d".toList else "/e".toList

/-- The two runs, before their first step. -/
def twoRuns : Fleet := ⟨.empty, fun i => if i ∈ [0, 1] then .start (twoArgs i) else .finished⟩

theorem mem_two {i : ℕ} : i ∈ {i : ℕ | i ∈ [0, 1]} ↔ i = 0 ∨ i = 1 := by simp

theorem separate_twoArgs : Separate {i | i ∈ [0, 1]} twoArgs := by
  have hno : ∀ n, Covers "/d".toList n → ¬ Covers "/e".toList n := by
    rintro (_ | ⟨a, _ | ⟨b, n⟩⟩) h h'
    · cases h
    · simp [Covers, like] at h
    · obtain ⟨-, h⟩ := (like_cons (by decide)).1 h
      obtain ⟨-, h'⟩ := (like_cons (by decide)).1 h'
      have hd := ((like_cons (by decide)).1 h).1.resolve_left (by decide)
      have he := ((like_cons (by decide)).1 h').1.resolve_left (by decide)
      rw [← he] at hd
      revert hd
      decide
  constructor
  · intro i hi
    rcases mem_two.1 hi with rfl | rfl <;> decide
  · intro i hi j hj n hn hn'
    rcases mem_two.1 hi with rfl | rfl <;> rcases mem_two.1 hj with rfl | rfl
    · rfl
    · exact absurd hn' (hno n hn)
    · exact absurd hn (hno n hn')
    · rfl

/-- Both runs make a step. -/
def bothStep (c c' : Choice) : List FleetEvent := [.exec 0 twoDirs c, .exec 1 twoDirs c']

/-- The two runs, step by step in turn. -/
def sideBySide : List FleetEvent :=
  bothStep .tau .tau ++ bothStep (.stmt .done) (.stmt .done) ++ bothStep .tau .tau ++
    bothStep (.readName (some "a.url-dispatcher".toList))
      (.readName (some "b.url-dispatcher".toList)) ++
    bothStep (.stmt .done) (.stmt .done) ++ bothStep (.stmt .done) (.stmt .done) ++
    bothStep .tau .tau ++ bothStep (.stmt .done) (.stmt .done) ++ bothStep .tau .tau ++
    bothStep (.readName none) (.readName none) ++ bothStep .tau .tau

/-- The second run is killed when both have stored their timestamps. -/
def secondKilled : List FleetEvent :=
  sideBySide.take 12 ++ .kill 1 :: (sideBySide.drop 12).filter fun e => e.proc = 0

/-- The step meets `Apart`. -/
def staysApart (w : Fleet) : FleetEvent → Bool
  | .exec i fs _ => decide (i ∈ [0, 1]) &&
    match w.procs i with
    | .start arg => decide (settleDirname fs arg = twoArgs i)
    | .stamping _ n _ => (w.db.registry n).isNone
    | _ => true
  | e => decide (e.proc ∈ [0, 1])

theorem staysApart_sound {w : Fleet} {e : FleetEvent} (h : staysApart w e = true) :
    Apart {i | i ∈ [0, 1]} twoArgs w e := by
  cases e with
  | exec i fs c =>
    obtain ⟨hi, h⟩ := Bool.and_eq_true_iff.1 h
    refine ⟨of_decide_eq_true hi, ?_⟩
    rintro _ _ _ ⟨⟩
    cases hp : w.procs i with
    | start arg =>
      rw [hp] at h
      exact of_decide_eq_true (p := settleDirname fs arg = twoArgs i) h
    | stamping s n t =>
      rw [hp] at h
      simp [Pc.Apart, Option.isNone_iff_eq_none.1 h]
    | _ => trivial
  | _ => exact ⟨of_decide_eq_true h, by rintro _ _ _ ⟨⟩⟩

/-- What the first run does, it does without the second. -/
theorem purge_of_run_secondKilled : ∃ w' v',
    run Fleet.step twoRuns secondKilled = some w' ∧
    run Fleet.step twoRuns (secondKilled.filter fun e => e.proc = 0) = some v' ∧
    v'.db.registry "/d/a.url-dispatcher".toList = w'.db.registry "/d/a.url-dispatcher".toList := by
  have hin : ∀ j ∈ {i | i ∈ [0, 1]}, (twoRuns.procs j).Within (twoArgs j) := by
    intro j hj
    rcases mem_two.1 hj with rfl | rfl <;> trivial
  have hrun : Run Fleet.step (Apart {i | i ∈ [0, 1]} twoArgs) twoRuns secondKilled _ :=
    .of_run (fun _ _ => staysApart_sound) (Option.some_get (by decide)).symm
  obtain ⟨v', hv, -, hreg⟩ := purge_of_run {i | i ∈ [0, 1]} twoArgs twoRuns _ 0 secondKilled
    (by decide) separate_twoArgs hin Database.referential_empty hrun
  exact ⟨_, v', hrun.run_eq, hv.run_eq, hreg _ (by decide)⟩

end UrlDispatcher
