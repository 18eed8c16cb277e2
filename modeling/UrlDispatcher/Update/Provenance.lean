import UrlDispatcher.Update.Solo

/-!
# Where a handler comes from

Whatever the database answers should be an entry of the last version the tool read of the file whose
row is answered (`HandlersCurrent`).  Registering a file again gives it a new rowid and leaves the
rows stored under the old one behind.  They are harmless until that rowid is handed out once more,
to whichever file is registered next after the largest rowid has been removed.

`handlersCurrent_of_run` : answers are current as long as every registration finds under its new
rowid only rows that the file itself accepts.
-/

namespace UrlDispatcher

open Sql GLib Machine

/-- The name of a `*.url-dispatcher` file in some directory. -/
def HandlerFile (n : Text) : Prop := ∃ dir, HandlerFileIn dir n

/-- The AppID of a handler file is its base name without `.url-dispatcher`. -/
theorem HandlerFile.basename_eq {n : Text} (h : HandlerFile n) :
    gPathGetBasename n = fileAppid n ++ urlDispatcherSuffix := by
  obtain ⟨dir, name, hc, hs, rfl⟩ := h
  obtain ⟨A, rfl⟩ := List.isSuffixOf_iff_suffix.1 hs
  rw [fileAppid, gPathGetBasename_build hc, gStrrstr_append (by decide)]
  simp

/-- Every name in the database is that of a handler file. -/
def NamesHandlers (db : Database) : Prop := ∀ n, (db.registry n).isSome = true → HandlerFile n

theorem NamesHandlers.setTimestamp {db : Database} (h : NamesHandlers db) {n : Text}
    (hn : HandlerFile n) (t : ℤ) : NamesHandlers (db.setTimestamp n t) := by
  intro m hm
  by_cases hmn : m = n
  · rwa [hmn]
  · rw [db.registry_setTimestamp, Function.update_of_ne hmn] at hm
    exact h m hm

theorem NamesHandlers.eachUrl {db : Database} (h : NamesHandlers db) (n : Text) (v : JsonNode) :
    NamesHandlers (eachUrl .done db n v) := by
  intro m hm
  by_cases hmn : m = n
  · subst hmn
    rw [registry_eachUrl, Function.update_self, Option.isSome_map] at hm
    exact h m hm
  · rw [registry_eachUrl, Function.update_of_ne hmn] at hm
    exact h m hm

theorem NamesHandlers.remove {db : Database} (h : NamesHandlers db) (n : Text) :
    NamesHandlers (db.remove n) := by
  intro m hm
  by_cases hmn : m = n
  · rw [db.registry_remove, hmn, Function.update_self] at hm
    cases hm
  · rw [db.registry_remove, Function.update_of_ne hmn] at hm
    exact h m hm

/-- The file a run is working on. -/
def Pc.file : Pc → Option Text
  | .checking _ n => some n
  | .stamping _ n _ => some n
  | .reading _ n => some n
  | .inserting _ n _ _ => some n
  | _ => none

/-- The invariant of the runs: the stored entries of a file are entries of the version last read,
except while the file is registered and not read yet, when they are entries it has now. -/
structure Current (fs : FileSys) (db : Database) (pc : Pc) (lastRead : Text → Option File) :
    Prop where
  named : ∀ n, (db.registry n).isSome = true → HandlerFile n
  file : ∀ n, pc.file = some n → HandlerFile n
  stored : ∀ n g, db.registry n = some g → (∀ s, pc ≠ .reading s n) →
    ∀ e ∈ g.entries, ∃ f, lastRead n = some f ∧ e ∈ f.entries
  reading : ∀ s n g, pc = .reading s n → db.registry n = some g → g.entries ⊆ fs.accepted n
  inserting : ∀ s n f rest, pc = .inserting s n f rest →
    lastRead n = some f ∧ ∀ v ∈ rest, v ∈ f.elements

namespace Current

variable {fs : FileSys} {db db' : Database} {pc pc' : Pc} {c : Choice}
  {lastRead : Text → Option File}

/-- Outside the registration of a file, only the database and the name worked on matter. -/
theorem quiet (h : Current fs db pc lastRead) (hpc : ∀ s n, pc ≠ .reading s n)
    (hr : ∀ s n, pc' ≠ .reading s n) (hi : ∀ s n f rest, pc' ≠ .inserting s n f rest)
    (hf : ∀ n, pc'.file = some n → HandlerFile n) : Current fs db pc' lastRead where
  named := h.named
  file := hf
  stored n g hg _ := h.stored n g hg fun s => hpc s n
  reading s n _ he := absurd he (hr s n)
  inserting s n f rest he := absurd he (hi s n f rest)

theorem stamp {s : Scan} {n : Text} {t : ℤ} (h : Current fs db (.stamping s n t) lastRead)
    (hown : db.leftover ⊆ fs.accepted n) :
    Current fs (db.setTimestamp n (narrow t)) (.reading s n) lastRead := by
  have hreg := db.registry_setTimestamp n (narrow t)
  have hnamed := NamesHandlers.setTimestamp h.named (h.file n rfl) (narrow t)
  refine ⟨hnamed, fun m hm => h.file m hm, fun m g hg hne => ?_, ?_, ?_⟩
  · have hmn : m ≠ n := by
      rintro rfl
      exact hne s rfl
    rw [hreg, Function.update_of_ne hmn] at hg
    exact h.stored m g hg fun _ he => by cases he
  · -- the file has what was left over under its new rowid, and nothing else
    intro s' m g he hg
    cases he
    rw [hreg, Function.update_self, Option.some.injEq] at hg
    rw [← hg]
    exact hown
  · intro _ _ _ _ he
    cases he

theorem readContent {s : Scan} {n : Text} {f : File} (h : Current fs db (.reading s n) lastRead)
    (hf : fs.file n = some f) :
    Current fs db (.inserting s n f f.elements) (Function.update lastRead n (fs.file n)) := by
  refine ⟨h.named, fun m hm => h.file m hm, fun m g hg _ e he => ?_, ?_, ?_⟩
  · by_cases hmn : m = n
    · -- the version read now is the one the leftover rows were compared with
      subst hmn
      obtain ⟨f', hf', he'⟩ := h.reading s m g rfl hg he
      rw [Function.update_self]
      exact ⟨f', hf', he'⟩
    · rw [Function.update_of_ne hmn]
      exact h.stored m g hg (fun _ hs => by cases hs; exact hmn rfl) e he
  · intro _ _ _ he
    cases he
  · intro _ _ _ _ he
    cases he
    rw [Function.update_self]
    exact ⟨hf, fun v hv => hv⟩

theorem unreadable {s : Scan} {n : Text} (h : Current fs db (.reading s n) lastRead)
    (hf : fs.file n = none) :
    Current fs db (.scanning (s.found n)) (Function.update lastRead n (fs.file n)) := by
  refine ⟨h.named, fun m hm => (by cases hm), fun m g hg _ e he => ?_, ?_, ?_⟩
  · by_cases hmn : m = n
    · subst hmn
      obtain ⟨f', hf', -⟩ := h.reading s m g rfl hg he
      rw [hf] at hf'
      cases hf'
    · rw [Function.update_of_ne hmn]
      exact h.stored m g hg (fun _ hs => by cases hs; exact hmn rfl) e he
  · intro _ _ _ he
    cases he
  · intro _ _ _ _ he
    cases he

theorem insert {s : Scan} {n : Text} {f : File} {v : JsonNode} {rest : List JsonNode}
    (h : Current fs db (.inserting s n f (v :: rest)) lastRead) :
    Current fs (eachUrl .done db n v) (.inserting s n f rest) lastRead := by
  have hreg := registry_eachUrl db n v
  obtain ⟨hlast, hrest⟩ := h.inserting s n f (v :: rest) rfl
  have hnamed := NamesHandlers.eachUrl h.named n v
  refine ⟨hnamed, fun m hm => h.file m hm, fun m g hg _ e he => ?_, ?_, ?_⟩
  · by_cases hmn : m = n
    · subst hmn
      rw [hreg, Function.update_self, Option.map_eq_some_iff] at hg
      obtain ⟨g', hg', rfl⟩ := hg
      -- an entry stored before, or the element stored now
      rcases he with he | he
      · exact h.stored m g' hg' (fun _ hs => by cases hs) e he
      · exact ⟨f, hlast, v, hrest v List.mem_cons_self, he⟩
    · rw [hreg, Function.update_of_ne hmn] at hg
      exact h.stored m g hg (fun _ hs => by cases hs) e he
  · intro _ _ _ he
    cases he
  · intro _ _ _ _ he
    cases he
    exact ⟨hlast, fun v' hv' => hrest v' (List.mem_cons_of_mem _ hv')⟩

theorem remove {names names' : List Text} {n : Text}
    (h : Current fs db (.removing names) lastRead) :
    Current fs (db.remove n) (.removing names') lastRead := by
  have hreg := db.registry_remove n
  have hnamed := NamesHandlers.remove h.named n
  refine ⟨hnamed, fun m hm => (by cases hm), fun m g hg _ => ?_, ?_, ?_⟩
  · by_cases hmn : m = n
    · rw [hreg, hmn, Function.update_self] at hg
      cases hg
    · rw [hreg, Function.update_of_ne hmn] at hg
      exact h.stored m g hg fun _ hs => by cases hs
  · intro _ _ _ he
    cases he
  · intro _ _ _ _ he
    cases he

/-- A step of a run keeps the invariant, if a registration inherits only entries of the file. -/
theorem step (h : Current fs db pc lastRead) (hs : Pc.Step fs db pc c db' pc')
    (hown : ∀ s n t, pc = .stamping s n t → c = .stmt .done → db.leftover ⊆ fs.accepted n) :
    Current fs db' pc' (recordRead fs pc lastRead) := by
  -- the steps after which the run holds no file
  have hq : ∀ {pc pc' : Pc}, Current fs db pc lastRead → pc'.file = none →
      (∀ s n, pc ≠ .reading s n) → Current fs db pc' lastRead := by
    intro pc pc' h hf hpc
    refine h.quiet hpc ?_ ?_ fun n hn => by rw [hf] at hn; cases hn
    · rintro s n rfl
      cases hf
    · rintro s n f rest rfl
      cases hf
  cases hs with
  | settle _ | list _ _ | openDir _ _ _ | noDir _ _ _ | skipName _ _ _ _ _ | endOfDir _ _
  | current _ _ _ _ | stampFails _ _ _ | fileDone _ _ _ | removeFails _ _ _ _ _ | finish =>
    exact hq h rfl (by rintro _ _ ⟨⟩)
  | readFile s name hc _ hsuf =>
    refine h.quiet (by rintro _ _ ⟨⟩) (by rintro _ _ ⟨⟩) (by rintro _ _ _ _ ⟨⟩) ?_
    rintro _ ⟨⟩
    exact ⟨s.dirname, name, hc, hsuf, rfl⟩
  | outdated s n _ _ =>
    exact h.quiet (by rintro _ _ ⟨⟩) (by rintro _ _ ⟨⟩) (by rintro _ _ _ _ ⟨⟩) h.file
  | stamp s n t => exact h.stamp (hown s n t rfl rfl)
  | readContent s n f hf => exact h.readContent hf
  | unreadable s n hf => exact h.unreadable hf
  | insert s n f v rest => exact h.insert
  | insertFails s n f v rest =>
    refine ⟨h.named, h.file, fun m g hg _ => h.stored m g hg (by rintro _ ⟨⟩), ?_, ?_⟩
    · rintro _ _ _ ⟨⟩
    · rintro _ _ _ _ ⟨⟩
      obtain ⟨hlast, hrest⟩ := h.inserting s n f (v :: rest) rfl
      exact ⟨hlast, fun v' hv' => hrest v' (List.mem_cons_of_mem _ hv')⟩
  | remove names n _ => exact h.remove

end Current

/-! ### Runs -/

/-- Complete runs without failures: files change only between runs, which are not killed and whose
statements succeed. -/
def Uninterrupted (w : Solo) : SoloEvent → Prop
  | .change _ => w.proc = .finished
  | .launch _ => True
  | .exec c => c.succeeds = true
  | .kill => False

/-- Each edit of a file makes its second grow. -/
def EditsGrow (w : Solo) (e : SoloEvent) : Prop := ∀ fs, e = .change fs → VersionsGrow w.newest fs

/-- Every file being registered finds under its new rowid only rows it accepts itself. -/
def InheritsOwn (w : Solo) (e : SoloEvent) : Prop :=
  ∀ s n t, w.proc = .stamping s n t → e = .exec (.stmt .done) → w.db.leftover ⊆ w.fs.accepted n

/-- The answer `A` is that of the file `n` and its suffix `s`, an entry of the version last read. -/
structure CurrentAnswer (w : Solo) (plan : QueryPlan) (p : Text) (d : Option Text) (A n s : Text) :
    Prop where
  /-- The row answered, the first one of the `SELECT`, is that of the file and the suffix. -/
  row : ∃ r, (plan.orderBy (w.db.matching p (d.getD []))).head? = some r ∧
    r.1.val.name = n ∧ r.2.val.domainsuffix = s
  named : gPathGetBasename n = A ++ urlDispatcherSuffix
  known : ∃ g, w.db.registry n = some g ∧ (p, s) ∈ g.entries
  current : ∃ f, w.lastRead n = some f ∧ (p, s) ∈ f.entries
  matched : like ('%' :: s) (d.getD []) = true

/-- Every answer of the database is an entry of the version last read of the file whose row is
answered. -/
def HandlersCurrent (w : Solo) : Prop :=
  ∀ plan st p d A, urlDbFindUrl plan st w.db p d = some A → ∃ n s, CurrentAnswer w plan p d A n s

theorem current_init (fs : FileSys) :
    Current fs (Solo.init fs).db (Solo.init fs).proc (Solo.init fs).lastRead where
  named n h := by simp [Solo.init] at h
  file _ h := by cases h
  stored _ g h := by simp [Solo.init] at h
  reading _ _ _ h := by cases h
  inserting _ _ _ _ h := by cases h

/-- A change between two runs keeps the invariant. -/
theorem Current.change {fs fs' : FileSys} {db : Database} {lastRead : Text → Option File}
    (h : Current fs db .finished lastRead) : Current fs' db .finished lastRead where
  named := h.named
  file := h.file
  stored := h.stored
  reading _ _ _ he := by cases he
  inserting := h.inserting

theorem Current.solo_step {w w' : Solo} {e : SoloEvent}
    (h : Current w.fs w.db w.proc w.lastRead) (hu : Uninterrupted w e) (ho : InheritsOwn w e)
    (hs : w.step e = some w') : Current w'.fs w'.db w'.proc w'.lastRead := by
  cases Solo.step_sound hs with
  | change fs =>
    rw [show w.proc = .finished from hu] at h
    simpa only [show w.proc = .finished from hu] using h.change
  | launch arg hp =>
    rw [hp] at h
    exact h.quiet (by rintro _ _ ⟨⟩) (by rintro _ _ ⟨⟩) (by rintro _ _ _ _ ⟨⟩) (by rintro _ ⟨⟩)
  | exec c db pc hpc =>
    refine h.step hpc fun s n t hst hc => ?_
    exact ho s n t hst (by rw [hc])
  | kill => exact hu.elim

theorem Current.handlersCurrent {w : Solo} (h : Current w.fs w.db w.proc w.lastRead)
    (hfin : w.proc = .finished) : HandlersCurrent w := by
  intro plan st p d A hA
  obtain ⟨c, u, hrow, hmem, rfl⟩ := exists_row_of_urlDbFindUrl hA
  obtain ⟨g, hg, he, hl⟩ := registry_of_mem_matching hmem
  have hk : (w.db.registry c.val.name).isSome = true := by rw [hg]; rfl
  exact ⟨c.val.name, u.val.domainsuffix,
    { row := ⟨(c, u), hrow, rfl, rfl⟩
      named := (h.named _ hk).basename_eq
      known := ⟨g, hg, he⟩
      current := h.stored _ g hg (by rw [hfin]; rintro _ ⟨⟩) _ he
      matched := hl }⟩

/-- **No stale or foreign handler** is ever answered, in runs in which every file being registered
finds under its new rowid only rows it accepts itself. -/
theorem handlersCurrent_of_run (fs : FileSys) (es : List SoloEvent) (w : Solo)
    (h : Run Solo.step (fun w e => Uninterrupted w e ∧ InheritsOwn w e) (.init fs) es w)
    (hfin : w.proc = .finished) : HandlersCurrent w := by
  have hc := h.invariant (I := fun w => Current w.fs w.db w.proc w.lastRead) (current_init fs)
    fun _ _ _ hc hG hs => hc.solo_step hG.1 hG.2 hs
  exact hc.handlersCurrent hfin

theorem uninterrupted_of_quiet {e : SoloEvent} (h : e.quiet = true) (w : Solo) :
    Uninterrupted w e := by
  cases e with
  | launch _ => trivial
  | exec c => exact h
  | change _ => cases h
  | kill => cases h

theorem editsGrow_of_quiet {e : SoloEvent} (h : e.quiet = true) (w : Solo) : EditsGrow w e := by
  rintro fs rfl
  cases h

/-! ### A file edited, beside another one -/

/-- A file being registered finds no row under its new rowid. -/
def inheritsNothing (w : Solo) : Bool :=
  match w.proc with
  | .stamping _ _ _ =>
    w.db.urls.rows.all fun u => decide (u.val.sourcefile ≠ w.db.configfiles.fresh)
  | _ => true

theorem inheritsOwn_of_inheritsNothing {w : Solo} (h : inheritsNothing w = true) (e : SoloEvent) :
    InheritsOwn w e := by
  intro s n t hp _
  rw [inheritsNothing, hp, List.all_eq_true] at h
  rintro e ⟨u, hu, hv⟩
  have hne := of_decide_eq_true (h u hu)
  rw [hv] at hne
  exact absurd rfl hne

theorem inheriting_of_run {w w' : Solo} (es : List SoloEvent)
    (h : run (fun w e => if e.quiet && inheritsNothing w then w.step e else none) w es = some w') :
    Run Solo.step (fun w e => Uninterrupted w e ∧ InheritsOwn w e) w es w' :=
  .of_run (g := fun w e => e.quiet && inheritsNothing w)
    (fun w e hg => by
      rw [Bool.and_eq_true] at hg
      exact ⟨uninterrupted_of_quiet hg.1 w, inheritsOwn_of_inheritsNothing hg.2 e⟩) h

theorem inheriting_of_change {w w' : Solo} {fs : FileSys} (es : List SoloEvent)
    (hfin : w.proc = .finished)
    (h : run (fun w e => if e.quiet && inheritsNothing w then w.step e else none)
      { w with fs := fs, newest := latest fs w.newest } es = some w') :
    Run Solo.step (fun w e => Uninterrupted w e ∧ InheritsOwn w e) w (.change fs :: es) w' :=
  .cons ⟨hfin, fun _ _ _ _ he => by cases he⟩ rfl (inheriting_of_run es h)

/-- Two files, with one entry each. -/
def sideDir : FileSys := pairDir (some (comFile 1)) (some (suffixFile "b.com".toList 1))

/-- Both are registered. -/
def sideListed : List SoloEvent :=
  runEvents (registerEvents "a.url-dispatcher".toList 1 ++
    registerEvents "b.url-dispatcher".toList 1) []

/-- The first one has another entry instead. -/
def editedDir : FileSys :=
  pairDir (some (suffixFile "c.com".toList 2)) (some (suffixFile "b.com".toList 1))

/-- It is registered again, and the other one is up to date. -/
def editedListed : List SoloEvent :=
  runEvents (registerEvents "a.url-dispatcher".toList 1 ++
    [.exec (.readName (some "b.url-dispatcher".toList)), .exec (.stmt .done)]) []

/-- The answer is the new version's, and the row of the old one is still there. -/
theorem handlersCurrent_of_run_edited :
    ∃ w, Run Solo.step (fun w e => Uninterrupted w e ∧ InheritsOwn w e) (.init sideDir)
      (sideListed ++ .change editedDir :: editedListed) w ∧ w.proc = .finished ∧
      HandlersCurrent w ∧
      urlDbFindUrl .stable .done w.db "http".toList (some "c.com".toList) =
        some "a".toList ∧
      (w.db.urls.rows.map fun u => u.val.sourcefile) = [1, 2, 3] := by
  have h₁ := inheriting_of_run (w := .init sideDir) sideListed
    (Option.some_get (by decide)).symm
  have h₂ := h₁.append (@inheriting_of_change _ _ editedDir editedListed rfl
    (Option.some_get (by decide)).symm)
  exact ⟨_, h₂, rfl, handlersCurrent_of_run _ _ _ h₂ rfl, by decide, by decide⟩

/-! ### A run that attributes an entry to the wrong file -/

/-- A run of quiet events. -/
abbrev quietRun (w : Solo) (es : List SoloEvent) : Option Solo :=
  run (fun w e => if e.quiet then w.step e else none) w es

theorem editing_of_quietRun {w w' : Solo} (es : List SoloEvent) (h : quietRun w es = some w') :
    Run Solo.step (fun w e => Uninterrupted w e ∧ EditsGrow w e) w es w' :=
  .of_run (fun w _ he => ⟨uninterrupted_of_quiet he w, editsGrow_of_quiet he w⟩) h

theorem run_of_quietRun {w w' : Solo} (es : List SoloEvent) (h : quietRun w es = some w') :
    Run Solo.step Uninterrupted w es w' :=
  (editing_of_quietRun es h).mono fun _ _ h => h.1

/-- A run of quiet events after a change. -/
theorem run_of_change {w w' : Solo} {fs : FileSys} (es : List SoloEvent)
    (hfin : w.proc = .finished) (hv : VersionsGrow w.newest fs)
    (h : quietRun { w with fs := fs, newest := latest fs w.newest } es = some w') :
    Run Solo.step (fun w e => Uninterrupted w e ∧ EditsGrow w e) w (.change fs :: es) w' :=
  .cons ⟨hfin, fun _ he => by cases he; exact hv⟩ rfl (editing_of_quietRun es h)

/-- Its second version registers nothing, and leaves the row of the first one behind. -/
def emptied : List SoloEvent := runEvents (registerEvents "a.url-dispatcher".toList 0) []

/-- It is deleted, and its rowid becomes free. -/
def deleted : List SoloEvent := runEvents [] ["/d/a.url-dispatcher".toList]

/-- A `b.url-dispatcher` without entries gets the rowid under which the row was left behind. -/
def taken : List SoloEvent := runEvents (registerEvents "b.url-dispatcher".toList 0) []

/-- Entries of an older version of a file, which has since been removed, are attributed to another
file. -/
theorem not_handlersCurrent_of_run :
    ¬ ∀ fs es w, Run Solo.step (fun w e => Uninterrupted w e ∧ EditsGrow w e) (.init fs) es w →
      w.proc = .finished → HandlersCurrent w := by
  intro hall
  have h₁ := editing_of_quietRun (w := .init (pairDir (some (comFile 1)) none)) listed
    (Option.some_get (by decide)).symm
  have h₂ := h₁.append (run_of_change emptied rfl
    (versionsGrow_pairDir (a := some (emptyFile 2)) (b := none)
      (by rintro _ _ ⟨⟩ ⟨⟩; right; decide) (by rintro _ _ _ ⟨⟩))
    (Option.some_get (by decide)).symm)
  have h₃ := h₂.append (run_of_change deleted rfl
    (versionsGrow_pairDir (a := none) (b := none) (by rintro _ _ _ ⟨⟩) (by rintro _ _ _ ⟨⟩))
    (Option.some_get (by decide)).symm)
  have h₄ := h₃.append (run_of_change taken rfl
    (versionsGrow_pairDir (a := none) (b := some (emptyFile 3))
      (by rintro _ _ _ ⟨⟩) (by rintro _ _ ⟨⟩))
    (Option.some_get (by decide)).symm)
  -- the file answered is `b.url-dispatcher`, and the version last read of it accepts nothing
  obtain ⟨n, s, hc⟩ := hall _ _ _ h₄ rfl .stable .done "http".toList
    (some "a.com".toList) "b".toList (by decide)
  obtain ⟨g, hg, -⟩ := hc.known
  obtain ⟨f, hf, v, hv, -⟩ := hc.current
  obtain ⟨c, hmem, rfl⟩ := Database.registry_isSome.1 (Option.isSome_iff_exists.2 ⟨g, hg⟩)
  obtain rfl := List.mem_singleton.1 hmem
  cases hf
  cases hv

end UrlDispatcher
