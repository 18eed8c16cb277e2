import UrlDispatcher.Update.Solo

/-!
# Several runs at once

Any number of runs of the tool on one directory `D`, over one database, while the files of the
directory change.  `Many` is the world; every step of a run is atomic, and they come in any order.

A run reads a file after it has written its timestamp, and stores the entries of what it has read
under whatever rowid the name has when each of them is stored.  So two runs that register a file at
the same time may store entries of two versions under one name.  The condition under which they do
not (`NoMixture`) speaks about the *owner* of a file, the run that last wrote its timestamp:

* when the owner reads the file, it is there, no older than its stored time, and the entries stored
  under its name so far are entries of the version it reads;
* an entry that another run stores afterwards is an entry of that version.

`Consistent` is the invariant, and `Consistent.oneVersion` what follows from it when all runs are
over.
-/

namespace UrlDispatcher

open Sql GLib Machine

/-- The run that last wrote the timestamp of a file, and the version it has read since. -/
structure Owner where
  proc : ℕ
  version : Option File

/-- The world of runs that overlap. -/
structure Many where
  fs : FileSys
  db : Database
  /-- The runs that have been started, by their process number. -/
  procs : ℕ → Option Pc
  /-- The last version each path has had. -/
  newest : Text → Option File
  /-- All versions each path has had. -/
  versions : Text → Set File
  /-- The owner of each known file. -/
  owner : Text → Option Owner

/-- What can happen. -/
inductive ManyEvent
  /-- Files are created, edited and deleted. -/
  | change (fs : FileSys)
  /-- A run on the directory starts. -/
  | launch (i : ℕ)
  /-- A run makes a step. -/
  | exec (i : ℕ) (c : Choice)

/-- The run `i` owns the file and has not read it yet. -/
def awaitsRead (i : ℕ) : Option Owner → Bool
  | some ⟨j, none⟩ => decide (j = i)
  | _ => false

theorem awaitsRead_iff {i : ℕ} {o : Option Owner} : awaitsRead i o = true ↔ o = some ⟨i, none⟩ := by
  rcases o with - | ⟨j, - | f⟩ <;> simp [awaitsRead]

/-- The owners after a step of the run `i` at `pc`. -/
def recordOwner (fs : FileSys) (i : ℕ) (pc : Pc) (c : Choice) (owner : Text → Option Owner) :
    Text → Option Owner :=
  match pc, c with
  | .stamping _ n _, .stmt .done => Function.update owner n (some ⟨i, none⟩)
  | .reading _ n, _ =>
    if awaitsRead i (owner n) then Function.update owner n (some ⟨i, fs.file n⟩) else owner
  | .removing _, .remove n st => if st = .allDone then Function.update owner n none else owner
  | _, _ => owner

namespace Many

/-- The run `i` is at `pc`. -/
def setProc (w : Many) (i : ℕ) (pc : Pc) : Many :=
  { w with procs := Function.update w.procs i (some pc) }

/-- The world after a step of the run `i` from `pc` to `pc'`. -/
def afterExec (w : Many) (i : ℕ) (pc : Pc) (c : Choice) (db : Database) (pc' : Pc) : Many :=
  { w.setProc i pc' with db := db, owner := recordOwner w.fs i pc c w.owner }

/-- The world after a change. -/
def afterChange (w : Many) (fs : FileSys) : Many :=
  { w with
    fs := fs
    newest := latest fs w.newest
    versions := fun n => w.versions n ∪ {f | fs.file n = some f} }

/-- The next state of the world. -/
def step (D : Text) (w : Many) : ManyEvent → Option Many
  | .change fs => some (w.afterChange fs)
  | .launch i =>
    match w.procs i with
    | none => some (w.setProc i (.start D))
    | some _ => none
  | .exec i c =>
    match w.procs i with
    | some pc => (pc.step w.fs w.db c).map fun r => w.afterExec i pc c r.1 r.2
    | none => none

/-- The start: an empty database, and no run yet. -/
def init (fs : FileSys) : Many where
  fs := fs
  db := Database.empty
  procs := fun _ => none
  newest := fs.file
  versions n := {f | fs.file n = some f}
  owner := fun _ => none

/-- What a step of the world can do. -/
inductive Step (D : Text) (w : Many) : ManyEvent → Many → Prop
  | change (fs : FileSys) : Step D w (.change fs) (w.afterChange fs)
  | launch (i : ℕ) (h : w.procs i = none) : Step D w (.launch i) (w.setProc i (.start D))
  | exec (i : ℕ) (c : Choice) (pc pc' : Pc) (db : Database) (hp : w.procs i = some pc)
      (h : Pc.Step w.fs w.db pc c db pc') : Step D w (.exec i c) (w.afterExec i pc c db pc')

theorem step_sound {D : Text} {w w' : Many} {e : ManyEvent} (h : w.step D e = some w') :
    Step D w e w' := by
  cases e with
  | change fs => cases h; exact .change fs
  | launch i =>
    rw [step] at h
    split at h <;> cases h
    exact .launch i ‹_›
  | exec i c =>
    rw [step] at h
    split at h
    · obtain ⟨⟨db, pc'⟩, hs, rfl⟩ := Option.map_eq_some_iff.1 h
      exact .exec i c _ pc' db ‹_› (Pc.step_sound hs)
    · cases h

section

variable {w : Many} {i j : ℕ} {pc pc' q : Pc}

theorem procs_setProc_self : (w.setProc i pc').procs i = some pc' := Function.update_self _ _ _

theorem procs_setProc_of_ne (h : j ≠ i) : (w.setProc i pc').procs j = w.procs j :=
  Function.update_of_ne h _ _

/-- A run that is not where `i` was is not `i`, and stays where it is. -/
theorem procs_setProc_kept (hp : w.procs i = some pc) (hj : w.procs j = some q) (hne : q ≠ pc) :
    (w.setProc i pc').procs j = some q := by
  have hji : j ≠ i := by
    rintro rfl
    rw [hp, Option.some.injEq] at hj
    exact hne hj.symm
  rw [procs_setProc_of_ne hji, hj]

theorem forall_setProc {P : Pc → Prop} (h : ∀ j q, w.procs j = some q → P q) (hpc' : P pc') :
    ∀ j q, (w.setProc i pc').procs j = some q → P q := by
  intro j q hj
  by_cases hji : j = i
  · rw [hji, procs_setProc_self, Option.some.injEq] at hj
    exact hj ▸ hpc'
  · rw [procs_setProc_of_ne hji] at hj
    exact h j q hj

end

end Many

/-! ### What is assumed and what is claimed -/

/-- The `*.url-dispatcher` entries of `D` are files. -/
def FilesListed (D : Text) (fs : FileSys) : Prop :=
  ∀ name, IsComponent name → gStrHasSuffix name urlDispatcherSuffix = true →
    (name ∈ fs.entries D ↔ (fs.file (gBuildFilename D name)).isSome = true)

/-- Files change at any moment, with strictly growing seconds, but `D` stays a directory of files;
no statement fails. -/
def NoFailure (D : Text) (w : Many) : ManyEvent → Prop
  | .change fs => VersionsGrow w.newest fs ∧ fs.isDir D = true ∧ FilesListed D fs
  | .launch _ => True
  | .exec _ c => c.succeeds = true

/-- The owner of a file reads a version to which everything stored under the name belongs, and other
runs store only entries of that version from then on. -/
structure NoMixture (w : Many) (e : ManyEvent) : Prop where
  read : ∀ i c s n, e = .exec i c → w.procs i = some (.reading s n) → w.owner n = some ⟨i, none⟩ →
    ∃ f, w.fs.file n = some f ∧ ∀ g, w.db.registry n = some g →
      g.entries ⊆ f.entries ∧ narrow g.stamp ≤ f.mtime
  insert : ∀ i c s n f v rest, e = .exec i c → w.procs i = some (.inserting s n f (v :: rest)) →
    ∀ j f', w.owner n = some ⟨j, some f'⟩ → elementEntries v ⊆ f'.entries

/-- All runs are over. -/
def AllFinished (w : Many) : Prop := ∀ i pc, w.procs i = some pc → pc = .finished

/-- The entries stored under each name are those of one version of the file. -/
def OneVersion (w : Many) : Prop :=
  ∀ n g, w.db.registry n = some g → ∃ f ∈ w.versions n, g.entries = f.entries

/-! ### The invariant -/

/-- Where a run on `D` may be. -/
def Pc.On (D : Text) : Pc → Prop
  | .start arg => arg = D
  | .listing dirname => dirname = D
  | .opening dirname _ => dirname = D
  | .scanning s => s.dirname = D
  | .checking s n => s.dirname = D ∧ HandlerFileIn D n
  | .stamping s n _ => s.dirname = D ∧ HandlerFileIn D n
  | .reading s n => s.dirname = D ∧ HandlerFileIn D n
  | .inserting s n _ _ => s.dirname = D ∧ HandlerFileIn D n
  | .removing _ => True
  | .finished => True

theorem Pc.On.step {D : Text} {fs : FileSys} {db db' : Database} {pc pc' : Pc} {c : Choice}
    (h : pc.On D) (hD : fs.isDir D = true) (hs : Pc.Step fs db pc c db' pc') : pc'.On D := by
  cases hs with
  | settle arg =>
    obtain rfl : arg = D := h
    simp [Pc.On, settleDirname, hD]
  | readFile s name hc _ hsuf =>
    obtain rfl : s.dirname = D := h
    exact ⟨rfl, name, hc, hsuf, rfl⟩
  | noDir _ _ _ | endOfDir _ _ | remove _ _ _ | removeFails _ _ _ _ _ | finish => trivial
  | list _ _ | openDir _ _ _ | skipName _ _ _ _ _ | outdated _ _ _ _ | stamp _ _ _
  | readContent _ _ _ _ | insert _ _ _ _ _ | insertFails _ _ _ _ _ => exact h
  | current _ _ _ _ | stampFails _ _ _ | unreadable _ _ _ | fileDone _ _ _ => exact h.1

/-- What holds of a file whose owner `i` has read the version `f`. -/
structure OwnerRead (w : Many) (n : Text) (i : ℕ) (f : File) (g : Registration) : Prop where
  version : f ∈ w.versions n
  newest : ∃ f', w.newest n = some f' ∧ (f' = f ∨ f.mtime < f'.mtime)
  stamp : narrow g.stamp ≤ f.mtime
  sound : g.entries ⊆ f.entries
  complete : f.entries ⊆ g.entries ∨ ∃ s rest, w.procs i = some (.inserting s n f rest) ∧
    ∀ e ∈ f.entries, e ∈ g.entries ∨ ∃ v ∈ rest, acceptedEntry v = some e

/-- The invariant of the runs. -/
structure Consistent (D : Text) (w : Many) : Prop where
  dir : w.fs.isDir D = true
  listed : FilesListed D w.fs
  seen : ∀ n f, w.fs.file n = some f → w.newest n = some f
  past : ∀ n f, w.newest n = some f → f ∈ w.versions n
  on : ∀ i pc, w.procs i = some pc → pc.On D
  owned : ∀ n, (w.owner n).isSome = (w.db.registry n).isSome
  named : ∀ n, (w.owner n).isSome = true → HandlerFileIn D n
  unread : ∀ n i, w.owner n = some ⟨i, none⟩ → ∃ s, w.procs i = some (.reading s n)
  read : ∀ n i f g, w.owner n = some ⟨i, some f⟩ → w.db.registry n = some g →
    OwnerRead w n i f g

namespace Consistent

open Many

variable {D : Text} {w : Many}

theorem init {fs : FileSys} (hD : fs.isDir D = true) (hl : FilesListed D fs) :
    Consistent D (.init fs) where
  dir := hD
  listed := hl
  seen _ _ h := h
  past _ _ h := h
  on _ _ h := by cases h
  owned _ := by simp [Many.init]
  named _ h := by cases h
  unread _ _ h := by cases h
  read _ _ _ _ h := by cases h

/-- What holds of the owner's read survives as long as the owner is not disturbed. -/
theorem ownerRead_congr {w' : Many} {n : Text} {j : ℕ} {f : File} {g : Registration}
    (h : OwnerRead w n j f g) (hv : w'.versions = w.versions) (hn : w'.newest = w.newest)
    (hp : ∀ s rest, w.procs j = some (.inserting s n f rest) →
      w'.procs j = some (.inserting s n f rest)) : OwnerRead w' n j f g where
  version := by rw [hv]; exact h.version
  newest := by rw [hn]; exact h.newest
  stamp := h.stamp
  sound := h.sound
  complete := h.complete.imp_right fun ⟨s, rest, hpc, hcov⟩ => ⟨s, rest, hp s rest hpc, hcov⟩

/-- A run moves on without touching the database or an owner. -/
theorem move (h : Consistent D w) {i : ℕ} {pc' : Pc} (hon : pc'.On D)
    (hr : ∀ s n, w.procs i = some (.reading s n) → w.owner n ≠ some ⟨i, none⟩)
    (hi : ∀ s n f v rest, w.procs i ≠ some (.inserting s n f (v :: rest))) :
    Consistent D (w.setProc i pc') where
  dir := h.dir
  listed := h.listed
  seen := h.seen
  past := h.past
  on := forall_setProc h.on hon
  owned := h.owned
  named := h.named
  unread n j ho := by
    obtain ⟨s, hp⟩ := h.unread n j ho
    have hji : j ≠ i := by
      rintro rfl
      exact hr s n hp ho
    exact ⟨s, by rw [procs_setProc_of_ne hji, hp]⟩
  read n j f g ho hg := by
    have hrd := h.read n j f g ho hg
    by_cases hji : j = i
    · subst hji
      refine ⟨hrd.version, hrd.newest, hrd.stamp, hrd.sound, .inl ?_⟩
      rcases hrd.complete with hc | ⟨s, rest, hp, hcov⟩
      · exact hc
      · cases rest with
        | nil => exact fun e he => (hcov e he).resolve_right (by rintro ⟨v, hv, -⟩; cases hv)
        | cons v rest => exact absurd hp (hi s n f v rest)
    · exact ownerRead_congr hrd rfl rfl fun s rest hp => by rw [procs_setProc_of_ne hji, hp]

variable {i : ℕ} {s : Scan} {n : Text}

theorem stamp (h : Consistent D w) {t : ℤ} (hp : w.procs i = some (.stamping s n t)) :
    Consistent D (w.afterExec i (.stamping s n t) (.stmt .done) (w.db.setTimestamp n (narrow t))
      (.reading s n)) := by
  have hreg := w.db.registry_setTimestamp n (narrow t)
  have hon := h.on i _ hp
  set w' := w.afterExec i (.stamping s n t) (.stmt .done) (w.db.setTimestamp n (narrow t))
    (.reading s n) with hw'
  have hself : w'.owner n = some ⟨i, none⟩ := Function.update_self _ _ _
  have hown : ∀ m, m ≠ n → w'.owner m = w.owner m := fun m hm => Function.update_of_ne hm _ _
  have hdb : ∀ m, m ≠ n → w'.db.registry m = w.db.registry m := fun m hm => by
    rw [hw', Many.afterExec, hreg, Function.update_of_ne hm]
  refine ⟨h.dir, h.listed, h.seen, h.past, forall_setProc h.on hon, fun m => ?_, fun m hm => ?_,
    fun m j ho => ?_, fun m j f g ho hg => ?_⟩
  -- only the file stamped changes its owner: it is `i` now, which has yet to read it
  · by_cases hmn : m = n
    · subst hmn
      rw [hself, hw', Many.afterExec, hreg, Function.update_self]
      rfl
    · rw [hown m hmn, hdb m hmn, h.owned]
  · by_cases hmn : m = n
    · exact hmn ▸ hon.2
    · exact h.named m (by rwa [← hown m hmn])
  · by_cases hmn : m = n
    · subst hmn
      rw [hself, Option.some.injEq, Owner.mk.injEq] at ho
      exact ⟨s, by rw [← ho.1]; exact procs_setProc_self⟩
    · obtain ⟨s', hj⟩ := h.unread m j (by rwa [← hown m hmn])
      exact ⟨s', procs_setProc_kept hp hj (by rintro ⟨⟩)⟩
  · by_cases hmn : m = n
    · rw [hmn, hself] at ho
      cases ho
    · exact ownerRead_congr (h.read m j f g (by rwa [← hown m hmn]) (by rwa [← hdb m hmn])) rfl rfl
        fun s' rest hj => procs_setProc_kept hp hj (by rintro ⟨⟩)

/-- The owner reads a version to which everything stored so far belongs. -/
theorem readContent (h : Consistent D w) {f : File} (hp : w.procs i = some (.reading s n))
    (ho : w.owner n = some ⟨i, none⟩) (hf : w.fs.file n = some f)
    (hG : ∀ g, w.db.registry n = some g → g.entries ⊆ f.entries ∧ narrow g.stamp ≤ f.mtime) :
    Consistent D (w.afterExec i (.reading s n) .tau w.db (.inserting s n f f.elements)) := by
  have hon := h.on i _ hp
  set w' := w.afterExec i (.reading s n) .tau w.db (.inserting s n f f.elements) with hw'
  have howner : w'.owner = Function.update w.owner n (some ⟨i, some f⟩) := by
    simp [hw', Many.afterExec, recordOwner, awaitsRead, ho, hf]
  have hself : w'.owner n = some ⟨i, some f⟩ := by rw [howner, Function.update_self]
  have hown : ∀ m, m ≠ n → w'.owner m = w.owner m := fun m hm => by
    rw [howner, Function.update_of_ne hm]
  refine ⟨h.dir, h.listed, h.seen, h.past, forall_setProc h.on hon, fun m => ?_, fun m hm => ?_,
    fun m j hj => ?_, fun m j f' g hj hg => ?_⟩
  · by_cases hmn : m = n
    · subst hmn
      have hreg := h.owned m
      rw [ho] at hreg
      rw [hself]
      exact hreg
    · rw [hown m hmn]
      exact h.owned m
  · by_cases hmn : m = n
    · exact hmn ▸ hon.2
    · exact h.named m (by rwa [← hown m hmn])
  · by_cases hmn : m = n
    · rw [hmn, hself] at hj
      cases hj
    · obtain ⟨s', hq⟩ := h.unread m j (by rwa [← hown m hmn])
      refine ⟨s', procs_setProc_kept hp hq ?_⟩
      rintro ⟨⟩
      exact hmn rfl
  · by_cases hmn : m = n
    · subst hmn
      rw [hself, Option.some.injEq, Owner.mk.injEq, Option.some.injEq] at hj
      obtain ⟨rfl, rfl⟩ := hj
      -- nothing of the version read is stored yet, all of it is still to be stored
      obtain ⟨hsub, hle⟩ := hG g hg
      have hn := h.seen m f hf
      exact ⟨h.past m f hn, ⟨f, hn, .inl rfl⟩, hle, hsub,
        .inr ⟨s, f.elements, procs_setProc_self, fun e he => .inr he⟩⟩
    · exact ownerRead_congr (h.read m j f' g (by rwa [← hown m hmn]) hg) rfl rfl
        fun s' rest hq => procs_setProc_kept hp hq (by rintro ⟨⟩)

/-- What another run reads makes no difference. -/
theorem readByOther (h : Consistent D w) {pc' : Pc} (hp : w.procs i = some (.reading s n))
    (ho : w.owner n ≠ some ⟨i, none⟩) (hon : pc'.On D) :
    Consistent D (w.afterExec i (.reading s n) .tau w.db pc') := by
  have howner : recordOwner w.fs i (.reading s n) .tau w.owner = w.owner := by
    rw [recordOwner, if_neg (by rwa [awaitsRead_iff])]
  rw [Many.afterExec, howner]
  refine h.move hon ?_ (by rw [hp]; rintro _ _ _ _ _ ⟨⟩)
  rw [hp]
  rintro _ _ ⟨⟩
  exact ho

theorem insert (h : Consistent D w) {f : File} {v : JsonNode} {rest : List JsonNode}
    (hp : w.procs i = some (.inserting s n f (v :: rest)))
    (hG : ∀ j f', w.owner n = some ⟨j, some f'⟩ → elementEntries v ⊆ f'.entries) :
    Consistent D (w.afterExec i (.inserting s n f (v :: rest)) (.stmt .done)
      (eachUrl .done w.db n v) (.inserting s n f rest)) := by
  have hreg := registry_eachUrl w.db n v
  have hon := h.on i _ hp
  set w' := w.afterExec i (.inserting s n f (v :: rest)) (.stmt .done) (eachUrl .done w.db n v)
    (.inserting s n f rest) with hw'
  have hself : w'.db.registry n = (w.db.registry n).map fun g => g.add (elementEntries v) := by
    rw [hw', Many.afterExec, hreg, Function.update_self]
  have hdb : ∀ m, m ≠ n → w'.db.registry m = w.db.registry m := fun m hm => by
    rw [hw', Many.afterExec, hreg, Function.update_of_ne hm]
  refine ⟨h.dir, h.listed, h.seen, h.past, forall_setProc h.on hon, fun m => ?_, h.named,
    fun m j ho => ?_, fun m j f' g ho hg => ?_⟩
  · by_cases hmn : m = n
    · subst hmn
      rw [hself, Option.isSome_map, ← h.owned]
      rfl
    · rw [hdb m hmn, ← h.owned]
      rfl
  · obtain ⟨s', hj⟩ := h.unread m j ho
    exact ⟨s', procs_setProc_kept hp hj (by rintro ⟨⟩)⟩
  · by_cases hmn : m = n
    · subst hmn
      rw [hself, Option.map_eq_some_iff] at hg
      obtain ⟨g, hg, rfl⟩ := hg
      have hrd := h.read m j f' g ho hg
      refine ⟨hrd.version, hrd.newest, hrd.stamp, Set.union_subset hrd.sound (hG j f' ho), ?_⟩
      rcases hrd.complete with hc | ⟨s', rest', hj, hcov⟩
      · exact .inl (hc.trans Set.subset_union_left)
      · refine .inr ?_
        by_cases hji : j = i
        · -- the owner itself has stored one more element
          subst hji
          rw [hp, Option.some.injEq, Pc.inserting.injEq] at hj
          obtain ⟨rfl, -, rfl, rfl⟩ := hj
          refine ⟨s, rest, procs_setProc_self, fun e he => ?_⟩
          rcases hcov e he with hin | ⟨v', hv', hve⟩
          · exact .inl (.inl hin)
          · rcases List.mem_cons.1 hv' with rfl | hv'
            · exact .inl (.inr hve)
            · exact .inr ⟨v', hv', hve⟩
        · -- another run has stored an entry the owner has accepted too
          refine ⟨s', rest', ?_, fun e he => (hcov e he).imp_left .inl⟩
          rw [← hj]
          exact procs_setProc_of_ne hji
    · refine ownerRead_congr (h.read m j f' g ho (by rwa [← hdb m hmn])) rfl rfl
        fun s' rest' hj => procs_setProc_kept hp hj ?_
      rintro ⟨⟩
      exact hmn rfl

theorem remove (h : Consistent D w) {names names' : List Text}
    (hp : w.procs i = some (.removing names)) :
    Consistent D (w.afterExec i (.removing names) (.remove n .allDone) (w.db.remove n)
      (.removing names')) := by
  have hreg := w.db.registry_remove n
  set w' := w.afterExec i (.removing names) (.remove n .allDone) (w.db.remove n)
    (.removing names') with hw'
  have hself : w'.owner n = none := Function.update_self _ _ _
  have hown : ∀ m, m ≠ n → w'.owner m = w.owner m := fun m hm => Function.update_of_ne hm _ _
  have hdb : ∀ m, m ≠ n → w'.db.registry m = w.db.registry m := fun m hm => by
    rw [hw', Many.afterExec, hreg, Function.update_of_ne hm]
  have hne : ∀ {m o}, w'.owner m = some o → m ≠ n := by
    rintro m o ho rfl
    rw [hself] at ho
    cases ho
  refine ⟨h.dir, h.listed, h.seen, h.past, forall_setProc h.on trivial, fun m => ?_, fun m hm => ?_,
    fun m j ho => ?_, fun m j f g ho hg => ?_⟩
  · by_cases hmn : m = n
    · subst hmn
      rw [hself, hw', Many.afterExec, hreg, Function.update_self]
      rfl
    · rw [hown m hmn, hdb m hmn, h.owned]
  · obtain ⟨o, ho⟩ := Option.isSome_iff_exists.1 hm
    exact h.named m (by rw [← hown m (hne ho), ho]; rfl)
  · obtain ⟨s', hj⟩ := h.unread m j (by rw [← hown m (hne ho), ho])
    exact ⟨s', procs_setProc_kept hp hj (by rintro ⟨⟩)⟩
  · have hmn := hne ho
    exact ownerRead_congr (h.read m j f g (by rwa [← hown m hmn]) (by rwa [← hdb m hmn])) rfl rfl
      fun s' rest hj => procs_setProc_kept hp hj (by rintro ⟨⟩)

/-- New versions are newer than whatever has been read. -/
theorem change (h : Consistent D w) {fs : FileSys} (hv : VersionsGrow w.newest fs)
    (hD : fs.isDir D = true) (hl : FilesListed D fs) : Consistent D (w.afterChange fs) where
  dir := hD
  listed := hl
  seen n f hf := by
    change fs.file n = some f at hf
    simp [afterChange, latest, hf]
  past n f hf := by
    simp only [afterChange, latest] at hf ⊢
    cases hc : fs.file n with
    | none =>
      rw [hc] at hf
      exact .inl (h.past n f hf)
    | some f' =>
      rw [hc] at hf
      exact .inr hf
  on := h.on
  owned := h.owned
  named := h.named
  unread := h.unread
  read n j f g ho hg := by
    obtain ⟨hver, ⟨f', hf', hor⟩, hst, hso, hco⟩ := h.read n j f g ho hg
    refine ⟨.inl hver, ?_, hst, hso, hco⟩
    simp only [afterChange, latest]
    cases hc : fs.file n with
    | none => exact ⟨f', hf', hor⟩
    | some f'' =>
      refine ⟨f'', rfl, ?_⟩
      -- the newest version only moves away from what has been read
      rcases hv n f' f'' hf' hc with rfl | hlt
      · exact hor
      · right
        rcases hor with rfl | hlt' <;> omega

/-- Every step keeps the invariant. -/
theorem step (h : Consistent D w) {w' : Many} {e : ManyEvent} (hN : NoFailure D w e)
    (hG : NoMixture w e) (hs : w.step D e = some w') : Consistent D w' := by
  cases Many.step_sound hs with
  | change fs => exact h.change hN.1 hN.2.1 hN.2.2
  | launch i hi =>
    exact h.move rfl (by rw [hi]; rintro _ _ ⟨⟩) (by rw [hi]; rintro _ _ _ _ _ ⟨⟩)
  | exec i c pc pc' db hp hpc =>
    have hon := (h.on i pc hp).step h.dir hpc
    cases hpc with
    | settle _ | list _ _ | openDir _ _ _ | noDir _ _ _ | readFile _ _ _ _ _ | skipName _ _ _ _ _
    | endOfDir _ _ | current _ _ _ _ | outdated _ _ _ _ | finish | fileDone _ _ _ =>
      exact h.move hon (by rw [hp]; rintro _ _ ⟨⟩) (by rw [hp]; rintro _ _ _ _ _ ⟨⟩)
    -- no statement fails
    | stampFails _ _ _ | insertFails _ _ _ _ _ => cases hN
    | removeFails _ _ _ _ hst => exact absurd (of_decide_eq_true hN) hst
    | stamp s n t => exact h.stamp hp
    | insert s n f v rest => exact h.insert hp (hG.insert i _ s n f v rest rfl hp)
    | remove names n _ => exact h.remove hp
    | readContent s n f hf =>
      by_cases ho : w.owner n = some ⟨i, none⟩
      · obtain ⟨f', hf', hg⟩ := hG.read i _ s n rfl hp ho
        rw [hf, Option.some.injEq] at hf'
        subst hf'
        exact h.readContent hp ho hf hg
      · exact h.readByOther hp ho hon
    | unreadable s n hf =>
      refine h.readByOther hp (fun ho => ?_) hon
      obtain ⟨f', hf', -⟩ := hG.read i _ s n rfl hp ho
      rw [hf] at hf'
      cases hf'

/-- **One version.**  When all runs are over, no file has entries of two versions. -/
theorem oneVersion (h : Consistent D w) (hfin : AllFinished w) : OneVersion w := by
  intro n g hg
  have hsome : (w.owner n).isSome = true := by rw [h.owned, hg]; rfl
  obtain ⟨⟨i, v⟩, ho⟩ := Option.isSome_iff_exists.1 hsome
  -- the owner is over, so it has read the file and stored all of it
  cases v with
  | none =>
    obtain ⟨s, hp⟩ := h.unread n i ho
    cases hfin i _ hp
  | some f =>
    have hr := h.read n i f g ho hg
    refine ⟨f, hr.version, hr.sound.antisymm ?_⟩
    rcases hr.complete with hc | ⟨s, rest, hp, -⟩
    · exact hc
    · cases hfin i _ hp

end Consistent

end UrlDispatcher
