import UrlDispatcher.Db.Integrity
import UrlDispatcher.Db.Routes
import UrlDispatcher.Update.Provenance
import UrlDispatcher.Update.Rerun

/-!
# Files that are installed and removed

A package installs a `*.url-dispatcher` file and removes it again, but as long as nobody edits one,
a path has just one version (`versions`).  Then no file is ever registered twice, no row is left
behind under an old rowid, and the database can be known exactly: `knownAfter` plays the history on
a set of paths alone, and `registry_of_history` says that the registry holds just these paths, each
with its time and its entries.

* `Unedited` : no file of a directory has been edited since it was registered.
* `Completes.registry_eq` : what one run then makes of the registry, under whatever rowids.

The history may be any sequence of complete runs on any directories, in whatever order each of them
reads its directory, with files installed and removed in between.
-/

namespace UrlDispatcher

open Sql GLib Machine

/-! ### The abstract history -/

/-- What the registry holds if the tool knows the files `known`. -/
noncomputable def Registry.ofFiles (versions : Text → File) (known : Set Text) : Registry := by
  classical
  exact fun n =>
    if n ∈ known then some ⟨(versions n).mtime, (versions n).entries⟩ else none

/-- The files known after a run on `arg`: those of its directory, and the other ones that are not
listed for it. -/
def knownAfterRun (fs : FileSys) (arg : Text) (known : Set Text) : Set Text :=
  {n | n ∈ runNames fs (settleDirname fs arg) ∨
    n ∈ known ∧ like (settleDirname fs arg ++ ['%']) n = false}

/-- The file system and the known files after an event. -/
def History.next (h : FileSys × Set Text) : SoloEvent → FileSys × Set Text
  | .change fs => (fs, h.2)
  | .launch arg => (h.1, knownAfterRun h.1 arg h.2)
  | .exec _ => h
  | .kill => h

/-- The files known after the events. -/
def knownAfter (fs : FileSys) (known : Set Text) (es : List SoloEvent) : Set Text :=
  (es.foldl History.next (fs, known)).2

/-- The listed `*.url-dispatcher` files are there, each in its only version. -/
def Installs (versions : Text → File) (fs : FileSys) : Prop :=
  ∀ dir n, n ∈ runNames fs dir → fs.file n = some (versions n)

/-- No run is interrupted, and files are installed and removed between the runs. -/
def Installing (versions : Text → File) (w : Solo) : SoloEvent → Prop
  | .change fs => w.proc = .finished ∧ Installs versions fs
  | .launch _ => True
  | .exec c => c.succeeds = true
  | .kill => False

theorem installing_of_quiet {versions : Text → File} {w : Solo} {e : SoloEvent}
    (h : e.quiet = true) : Installing versions w e := by
  cases e with
  | launch _ => trivial
  | exec c => exact h
  | change _ => cases h
  | kill => cases h

/-! ### One run -/

/-- No row is left behind, and no known file of the directory has a later time than it had. -/
structure Unedited (fs : FileSys) (D : Text) (db : Database) : Prop where
  referential : db.Referential
  current : ∀ n ∈ runNames fs D, ∀ g, db.registry n = some g → fs.filetime n ≤ narrow g.stamp

/-- The registry after a run that registers no file twice. -/
def Registry.afterRun (fs : FileSys) (D : Text) (r : Registry) : Registry := fun n =>
  if (runNames fs D).contains n then some ((r n).getD (fs.registration n ∅))
  else if like (D ++ ['%']) n then none else r n

section

variable {fs : FileSys} {db db' : Database} {D n : Text}

theorem Registry.afterRun_of_mem {r : Registry} (hn : n ∈ runNames fs D) :
    Registry.afterRun fs D r n = some ((r n).getD (fs.registration n ∅)) :=
  if_pos (List.contains_iff_mem.2 hn)

theorem Registry.afterRun_of_not_mem {r : Registry} (hn : n ∉ runNames fs D) :
    Registry.afterRun fs D r n = if like (D ++ ['%']) n then none else r n :=
  if_neg fun h => hn (List.contains_iff_mem.1 h)

theorem Database.Referential.leftover_eq_empty (h : db.Referential) : db.leftover = ∅ := by
  refine Set.eq_empty_of_forall_notMem ?_
  rintro e ⟨u, hu, hv⟩
  obtain ⟨c, hc, hr⟩ := h u hu
  have hlt := Table.rowid_lt_fresh hc
  rw [hr, hv] at hlt
  exact Nat.lt_irrefl _ hlt

/-- Registering a file without entries leaves no row behind. -/
theorem Database.Referential.setTimestamp (h : db.Referential)
    (hn : ∀ g, db.registry n = some g → g.entries = ∅) (τ : ℤ) :
    (db.setTimestamp n τ).Referential := by
  refine (Database.referential_setTimestamp_iff h n τ).2 ?_
  rintro ⟨c, hc, rfl, u, hu, hr⟩
  have he : db.entriesAt c.rowid = ∅ := hn _ (Database.registry_of_mem hc)
  have hmem : (u.val.protocol, u.val.domainsuffix) ∈ db.entriesAt c.rowid := by
    rw [← hr]
    exact ⟨u, hu, rfl⟩
  rw [he] at hmem
  exact hmem

theorem Database.Referential.eachUrl (h : db.Referential) (n : Text) (v : JsonNode) :
    (eachUrl .done db n v).Referential := by
  rw [eachUrl_done]
  split
  · exact h
  · exact h.insertUrl _ _ _

theorem Database.Referential.insertUrlsFromFile (h : db.Referential) (fs : FileSys) (n : Text) :
    (insertUrlsFromFile fs db n).Referential := by
  unfold UrlDispatcher.insertUrlsFromFile
  split
  · exact h
  · next f _ =>
    induction f.elements generalizing db with
    | nil => exact h
    | cons v vs ih => exact ih (h.eachUrl n v)

namespace Unedited

/-- A file counts as out of date only if it is not known. -/
theorem registry_eq_none (h : Unedited fs D db) (hn : n ∈ runNames fs D)
    (hu : upToDate .done db n (fs.filetime n) = false) : db.registry n = none := by
  refine Option.eq_none_iff_forall_ne_some.2 fun g hg => ?_
  have hu' := upToDate_iff.2 ⟨g, hg, h.current n hn g hg⟩
  rw [hu] at hu'
  cases hu'

/-- Registering a file registers it if it is not known. -/
theorem registry_registerFile (h : Unedited fs D db) (hn : n ∈ runNames fs D) :
    (registerFile fs db n).registry =
      Function.update db.registry n (some ((db.registry n).getD (fs.registration n ∅))) := by
  rw [UrlDispatcher.registry_registerFile]
  cases hu : upToDate .done db n (fs.filetime n) with
  | true =>
    obtain ⟨g, hg, -⟩ := upToDate_iff.1 hu
    rw [if_pos rfl, hg, Option.getD_some, ← hg, Function.update_eq_self]
  | false =>
    rw [if_neg Bool.false_ne_true, h.registry_eq_none hn hu, h.referential.leftover_eq_empty,
      Option.getD_none]

theorem registerFile (h : Unedited fs D db) (hfit : TimesFit fs D) (hn : n ∈ runNames fs D) :
    Unedited fs D (registerFile fs db n) := by
  refine ⟨?_, fun m hm g hg => ?_⟩
  · cases hu : upToDate .done db n (fs.filetime n) with
    | true =>
      rw [registerFile_of_upToDate hu]
      exact h.referential
    | false =>
      rw [registerFile_of_outdated hu]
      refine Database.Referential.insertUrlsFromFile (h.referential.setTimestamp ?_ _) _ _
      simp [h.registry_eq_none hn hu]
  · rw [h.registry_registerFile hn] at hg
    by_cases hmn : m = n
    · subst hmn
      rw [Function.update_self, Option.some.injEq] at hg
      cases hm' : db.registry m with
      | some g' =>
        rw [hm', Option.getD_some] at hg
        exact hg ▸ h.current m hm g' hm'
      | none =>
        rw [hm', Option.getD_none] at hg
        rw [← hg, FileSys.registration, narrow_narrow, hfit.narrow_filetime hm]
    · rw [Function.update_of_ne hmn] at hg
      exact h.current m hm g hg

theorem foldl_registerFile {ns : List Text} (h : Unedited fs D db) (hfit : TimesFit fs D)
    (hns : ∀ n ∈ ns, n ∈ runNames fs D) :
    Unedited fs D (ns.foldl (UrlDispatcher.registerFile fs) db) ∧
      ∀ n ∈ ns, (ns.foldl (UrlDispatcher.registerFile fs) db).registry n =
        some ((db.registry n).getD (fs.registration n ∅)) := by
  induction ns generalizing db with
  | nil => exact ⟨h, fun _ hn => absurd hn List.not_mem_nil⟩
  | cons m ns ih =>
    have hm := hns m List.mem_cons_self
    obtain ⟨hdb, hreg⟩ := ih (h.registerFile hfit hm) fun n hn => hns n (List.mem_cons_of_mem m hn)
    refine ⟨hdb, fun n hn => ?_⟩
    by_cases hin : n ∈ ns
    · rw [List.foldl_cons, hreg n hin, h.registry_registerFile hm]
      by_cases hnm : n = m
      · rw [hnm, Function.update_self, Option.getD_some]
      · rw [Function.update_of_ne hnm]
    · obtain rfl := (List.mem_cons.1 hn).resolve_right hin
      rw [List.foldl_cons, registry_foldl_registerFile_of_not_mem hin, h.registry_registerFile hm,
        Function.update_self]

end Unedited

/-- **A complete run** registers the files of its directory that are not known, and forgets the
others listed for it. -/
theorem Completes.registry_eq {arg : Text} (h : Completes fs db (.start arg) db')
    (hdb : Unedited fs (settleDirname fs arg) db) (hfit : TimesFit fs (settleDirname fs arg)) :
    db'.registry = Registry.afterRun fs (settleDirname fs arg) db.registry ∧ db'.Referential := by
  obtain ⟨ns, hns, removed, hremoved, rfl⟩ := h.exists_order
  obtain ⟨hdb', hreg⟩ := hdb.foldl_registerFile hfit fun n hn => (hns n).1 hn
  refine ⟨funext fun n => ?_, Database.Referential.foldl_remove hdb'.referential removed⟩
  rw [registry_foldl_removeFile]
  simp only [hremoved, List.mem_filter, mem_urlDbFilesForDir, decide_eq_true_eq]
  by_cases hn : n ∈ ns
  · rw [Registry.afterRun_of_mem ((hns n).1 hn)]
    simp [hn, hreg n hn]
  · rw [Registry.afterRun_of_not_mem fun h => hn ((hns n).2 h),
      registry_foldl_registerFile_of_not_mem hn]
    cases db.registry n <;> simp [hn]

end

/-- The registry holds the files `known`, and no row is left behind. -/
structure Holds (versions : Text → File) (db : Database) (known : Set Text) : Prop where
  referential : db.Referential
  registry : db.registry = Registry.ofFiles versions known

section

variable {versions : Text → File} {fs : FileSys} {db db' : Database} {known : Set Text} {n : Text}

theorem Registry.ofFiles_of_mem (h : n ∈ known) : Registry.ofFiles versions known n =
    some ⟨(versions n).mtime, (versions n).entries⟩ := by
  classical
  exact if_pos h

theorem Registry.ofFiles_of_not_mem (h : n ∉ known) : Registry.ofFiles versions known n = none := by
  classical
  exact if_neg h

theorem Registry.ofFiles_congr {known' : Set Text} (h : n ∈ known ↔ n ∈ known') :
    Registry.ofFiles versions known n = Registry.ofFiles versions known' n := by
  by_cases hn : n ∈ known
  · rw [ofFiles_of_mem hn, ofFiles_of_mem (h.1 hn)]
  · rw [ofFiles_of_not_mem hn, ofFiles_of_not_mem fun hn' => hn (h.2 hn')]

theorem holds_empty (versions : Text → File) : Holds versions .empty ∅ := by
  refine ⟨Database.referential_empty, funext fun n => ?_⟩
  rw [Database.registry_empty, Registry.ofFiles_of_not_mem (Set.notMem_empty n)]

/-- A file is registered with the time and the entries of its version. -/
theorem registration_of_version (h : fs.file n = some (versions n))
    (hfit : -2 ^ 31 ≤ (versions n).mtime ∧ (versions n).mtime < 2 ^ 31) :
    fs.registration n ∅ = ⟨(versions n).mtime, (versions n).entries⟩ := by
  have haccepted : fs.accepted n = (versions n).entries := by
    ext e
    simp [FileSys.accepted, h]
  rw [FileSys.registration, FileSys.filetime, h, narrow_of_fits hfit, haccepted, Set.empty_union]

theorem Holds.unedited {D : Text} (h : Holds versions db known)
    (hfit : ∀ n, -2 ^ 31 ≤ (versions n).mtime ∧ (versions n).mtime < 2 ^ 31)
    (hfs : Installs versions fs) : Unedited fs D db := by
  refine ⟨h.referential, fun n hn g hg => ?_⟩
  rw [h.registry] at hg
  by_cases hk : n ∈ known
  · rw [Registry.ofFiles_of_mem hk, Option.some.injEq] at hg
    rw [← hg, narrow_of_fits (hfit n), FileSys.filetime, hfs D n hn]
  · rw [Registry.ofFiles_of_not_mem hk] at hg
    cases hg

/-- A complete run knows the files of its directory, and forgets the others listed for it. -/
theorem Holds.completes {arg : Text} (h : Holds versions db known)
    (hfit : ∀ n, -2 ^ 31 ≤ (versions n).mtime ∧ (versions n).mtime < 2 ^ 31)
    (hfs : Installs versions fs) (hc : Completes fs db (.start arg) db') :
    Holds versions db' (knownAfterRun fs arg known) := by
  have htimes : TimesFit fs (settleDirname fs arg) := by
    intro n hn f hf
    rw [hfs _ n hn, Option.some.injEq] at hf
    exact hf ▸ hfit n
  obtain ⟨hreg, hdb'⟩ := hc.registry_eq (h.unedited hfit hfs) htimes
  refine ⟨hdb', ?_⟩
  rw [hreg, h.registry]
  funext n
  by_cases hn : n ∈ runNames fs (settleDirname fs arg)
  · have hafter : n ∈ knownAfterRun fs arg known := .inl hn
    rw [Registry.afterRun_of_mem hn, registration_of_version (hfs _ n hn) (hfit n),
      Registry.ofFiles_of_mem hafter]
    by_cases hk : n ∈ known
    · rw [Registry.ofFiles_of_mem hk, Option.getD_some]
    · rw [Registry.ofFiles_of_not_mem hk, Option.getD_none]
  · rw [Registry.afterRun_of_not_mem hn]
    cases hl : like (settleDirname fs arg ++ ['%']) n with
    | true =>
      rw [if_pos rfl, Registry.ofFiles_of_not_mem]
      rintro (h | ⟨-, h⟩)
      · exact hn h
      · rw [hl] at h
        cases h
    | false =>
      rw [if_neg Bool.false_ne_true]
      by_cases hk : n ∈ known
      · have hafter : n ∈ knownAfterRun fs arg known := .inr ⟨hk, hl⟩
        rw [Registry.ofFiles_of_mem hk, Registry.ofFiles_of_mem hafter]
      · rw [Registry.ofFiles_of_not_mem hk, Registry.ofFiles_of_not_mem]
        exact fun h => h.elim hn fun h => hk h.1

end

/-! ### Histories -/

section

variable {versions : Text → File}

/-- What is left of a history: the run in progress, and then the events on the known files. -/
theorem holds_of_rest {w w' : Solo} {es : List SoloEvent}
    (hfit : ∀ n, -2 ^ 31 ≤ (versions n).mtime ∧ (versions n).mtime < 2 ^ 31)
    (h : Run Solo.step (Installing versions) w es w') (hfin : w'.proc = .finished)
    (hfs : Installs versions w.fs) :
    ∃ db, Completes w.fs w.db w.proc db ∧
      ∀ known, Holds versions db known → Holds versions w'.db (knownAfter w.fs known es) := by
  induction h with
  | nil w =>
    rw [hfin]
    exact ⟨w.db, rfl, fun _ h => h⟩
  | cons hG hs _ ih =>
    cases Solo.step_sound hs with
    | change fs =>
      obtain ⟨hp, hinstalls⟩ := hG
      obtain ⟨db, hc, hrest⟩ := ih hfin hinstalls
      rw [hp] at hc ⊢
      exact ⟨db, hc, hrest⟩
    | launch arg hp =>
      obtain ⟨db, hc, hrest⟩ := ih hfin hfs
      rw [hp]
      exact ⟨_, rfl, fun known hk => hrest _ (hk.completes hfit hfs hc)⟩
    | exec c db pc hpc =>
      obtain ⟨db', hc, hrest⟩ := ih hfin hfs
      exact ⟨db', hc.of_step hpc hG, hrest⟩
    | kill => cases hG

theorem holds_of_history {fs : FileSys} {es : List SoloEvent} {w : Solo}
    (hfit : ∀ n, -2 ^ 31 ≤ (versions n).mtime ∧ (versions n).mtime < 2 ^ 31)
    (hfs : Installs versions fs) (h : Run Solo.step (Installing versions) (.init fs) es w)
    (hfin : w.proc = .finished) : Holds versions w.db (knownAfter fs ∅ es) := by
  obtain ⟨db, hc, hrest⟩ := holds_of_rest hfit h hfin hfs
  obtain rfl : db = Database.empty := hc
  exact hrest ∅ (holds_empty versions)

/-- **The registry is known exactly.**  After any complete runs on any directories, with files
installed and removed but never edited in between, the registry holds the files that the history
leaves known, each with the time and all the entries of its version, and no row is left behind. -/
theorem registry_of_history (fs : FileSys) (es : List SoloEvent) (w : Solo)
    (hfit : ∀ n, -2 ^ 31 ≤ (versions n).mtime ∧ (versions n).mtime < 2 ^ 31)
    (hfs : Installs versions fs) (h : Run Solo.step (Installing versions) (.init fs) es w)
    (hfin : w.proc = .finished) :
    w.db.registry = Registry.ofFiles versions (knownAfter fs ∅ es) ∧ w.db.Referential :=
  have hholds := holds_of_history hfit hfs h hfin
  ⟨hholds.registry, hholds.referential⟩

/-! ### A package replaced by another one -/

theorem installs_pairDir {f : File} {a b : Option File} (ha : ∀ g ∈ a, g = f)
    (hb : ∀ g ∈ b, g = f) : Installs (fun _ => f) (pairDir a b) := by
  intro dir n hn
  unfold runNames at hn
  split_ifs at hn with hdir
  · obtain rfl : dir = "/d".toList := of_decide_eq_true hdir
    obtain ⟨name, hname, rfl⟩ := List.mem_map.1 hn
    have hentry : name ∈ (a.toList.map fun _ => "a.url-dispatcher".toList) ++
        b.toList.map fun _ => "b.url-dispatcher".toList := List.mem_of_mem_filter hname
    rw [List.mem_append, List.mem_map, List.mem_map] at hentry
    rcases hentry with ⟨g, hg, rfl⟩ | ⟨g, hg, rfl⟩
    · rw [Option.mem_toList] at hg
      rw [← ha g hg]
      exact hg
    · rw [Option.mem_toList] at hg
      rw [← hb g hg]
      exact hg
  · cases hn

/-- `a.url-dispatcher` is registered, removed again, and `b.url-dispatcher` comes instead. -/
def replaced : List SoloEvent :=
  listed ++ .change (pairDir none (some (comFile 1))) ::
    runEvents (registerEvents "b.url-dispatcher".toList 1) ["/d/a.url-dispatcher".toList]

theorem installing_of_quietRun {w w' : Solo} {es : List SoloEvent} (h : quietRun w es = some w') :
    Run Solo.step (Installing versions) w es w' :=
  .of_run (fun _ _ he => installing_of_quiet he) h

end

theorem installs_comFile {a b : Option File} (ha : ∀ g ∈ a, g = comFile 1)
    (hb : ∀ g ∈ b, g = comFile 1) : Installs (fun _ => comFile 1) (pairDir a b) :=
  installs_pairDir ha hb

theorem run_replaced {w : Solo}
    (h : run Solo.step (.init (pairDir (some (comFile 1)) none)) replaced = some w) :
    Run Solo.step (Installing fun _ => comFile 1) (.init (pairDir (some (comFile 1)) none))
      replaced w := by
  have h₁ : Run Solo.step (Installing fun _ => comFile 1) (.init (pairDir (some (comFile 1)) none))
      listed _ := installing_of_quietRun (Option.some_get (by decide)).symm
  -- between the runs one file goes and the other one comes
  have hchange : Installing (fun _ => comFile 1)
      ((quietRun (.init (pairDir (some (comFile 1)) none)) listed).get (by decide))
      (.change (pairDir none (some (comFile 1)))) := ⟨rfl, installs_comFile (by simp) (by simp)⟩
  have h₂ := h₁.append (.cons hchange rfl (@installing_of_quietRun _ _ _
    (runEvents (registerEvents "b.url-dispatcher".toList 1) ["/d/a.url-dispatcher".toList])
    (Option.some_get (by decide)).symm))
  rw [← Option.some.inj (h₂.run_eq.symm.trans h)]
  exact h₂

/-- The registry is what this history leaves. -/
theorem registry_of_history_replaced : ∃ w : Solo,
    run Solo.step (.init (pairDir (some (comFile 1)) none)) replaced = some w ∧
    w.db.registry = Registry.ofFiles (fun _ => comFile 1)
      (knownAfter (pairDir (some (comFile 1)) none) ∅ replaced) := by
  obtain ⟨w, hw⟩ := Option.isSome_iff_exists.1
    (show (run Solo.step (.init (pairDir (some (comFile 1)) none)) replaced).isSome by decide)
  exact ⟨w, hw, (registry_of_history _ _ _ (fun _ => by decide)
    (installs_comFile (by simp) (by simp)) (run_replaced hw) (by cases hw; rfl)).1⟩

end UrlDispatcher
