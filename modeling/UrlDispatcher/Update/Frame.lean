import UrlDispatcher.Update.Basic

/-!
# Which files a run touches

A run on the directory `D` should make the known files directly under `D` exactly the
`*.url-dispatcher` entries of `D`, and leave every other file as it is (`TouchesOwnDirectory`).
Two things stand in the way.  The known files of the directory are listed by a `LIKE` on the
directory name as a *prefix*, which also lists the files of `D2`, `D/sub` and, since the name is
read as a pattern, of names that differ in case or under a wildcard; what is listed and not found
is removed.  And when `D` is gone, the run settles on its parent.

* `registry_foldl_registerFile` : what the loop over the directory makes of each file.  A file that
  is registered again gets the next rowid, and with it the rows left over under that rowid.
* `touchesOwnDirectory_iff` : the exact condition on the database and the file system under which
  a run touches its own directory only.
-/

namespace UrlDispatcher

open Sql GLib

/-! ### The rowids the loop hands out -/

theorem configfiles_eachUrl (db : Database) (n : Text) (v : JsonNode) :
    (eachUrl .done db n v).configfiles = db.configfiles := by
  rw [eachUrl_done]
  split <;> rfl

/-- Storing an element touches no rowid but the file's. -/
theorem entriesAt_eachUrl {db : Database} {n : Text} {r : ℕ}
    (h : ∀ c ∈ db.configfiles, c.val.name = n → r ≠ c.rowid) (v : JsonNode) :
    (eachUrl .done db n v).entriesAt r = db.entriesAt r := by
  rw [eachUrl_done]
  split
  · rfl
  · by_cases hn : ∃ c ∈ db.configfiles, c.val.name = n
    · obtain ⟨c, hc, rfl⟩ := hn
      rw [Database.entriesAt_insertUrl hc, if_neg (h c hc rfl)]
    · rw [Database.insertUrl_of_not_mem fun c hc he => hn ⟨c, hc, he⟩]

theorem foldl_eachUrl_frame {n : Text} {r : ℕ} (vs : List JsonNode) (db : Database)
    (h : ∀ c ∈ db.configfiles, c.val.name = n → r ≠ c.rowid) :
    (vs.foldl (fun db v => eachUrl .done db n v) db).configfiles = db.configfiles ∧
      (vs.foldl (fun db v => eachUrl .done db n v) db).entriesAt r = db.entriesAt r := by
  induction vs generalizing db with
  | nil => exact ⟨rfl, rfl⟩
  | cons v vs ih =>
    have hcf := configfiles_eachUrl db n v
    obtain ⟨h1, h2⟩ := ih (eachUrl .done db n v) (by rwa [hcf])
    exact ⟨h1.trans hcf, h2.trans (entriesAt_eachUrl h v)⟩

/-- Registering a file that is out of date uses up one rowid and touches no later one. -/
theorem registerFile_of_not_upToDate {fs : FileSys} {db : Database} {n : Text}
    (h : upToDate .done db n (fs.filetime n) = false) :
    (registerFile fs db n).configfiles.fresh = db.configfiles.fresh + 1 ∧
      ∀ r, db.configfiles.fresh < r → (registerFile fs db n).entriesAt r = db.entriesAt r := by
  have hlt : ∀ r, db.configfiles.fresh < r →
      ∀ c ∈ (db.setTimestamp n (narrow (fs.filetime n))).configfiles, c.val.name = n →
        r ≠ c.rowid := by
    intro r hr c hc _
    have : c.rowid < db.configfiles.fresh + 1 := by
      rw [← Table.fresh_insertOrReplace ⟨n, narrow (fs.filetime n)⟩]
      exact Table.rowid_lt_fresh hc
    omega
  have hfresh : (db.setTimestamp n (narrow (fs.filetime n))).configfiles.fresh =
      db.configfiles.fresh + 1 := Table.fresh_insertOrReplace _
  rw [registerFile_of_outdated h, insertUrlsFromFile]
  split
  · exact ⟨hfresh, fun _ _ => rfl⟩
  · refine ⟨?_, fun r hr => ?_⟩
    · rw [(foldl_eachUrl_frame _ _ (hlt _ (Nat.lt_succ_self _))).1, hfresh]
    · rw [(foldl_eachUrl_frame _ _ (hlt r hr)).2]
      rfl

/-- The files among `ns` that are registered again. -/
def staleFiles (fs : FileSys) (db : Database) (ns : List Text) : List Text :=
  ns.filter fun n => !upToDate .done db n (fs.filetime n)

/-- What the loop over `ns` makes of the file `n`: an up-to-date file stays as it is, the `k`-th of
the others (from `0`) is registered under the rowid `k` above the next one. -/
def scanned (fs : FileSys) (db : Database) (ns : List Text) (n : Text) : Option Registration :=
  if upToDate .done db n (fs.filetime n) then db.registry n
  else some (fs.registration n
    (db.entriesAt (db.configfiles.fresh + (staleFiles fs db ns).idxOf n)))

/-- **The loop over the directory**, file by file. -/
theorem registry_foldl_registerFile {fs : FileSys} {ns : List Text} (hnd : ns.Nodup) {n : Text}
    (hn : n ∈ ns) (db : Database) :
    (ns.foldl (registerFile fs) db).registry n = scanned fs db ns n := by
  induction ns generalizing db with
  | nil => cases hn
  | cons m ns ih =>
    rw [List.nodup_cons] at hnd
    rw [List.foldl_cons]
    rcases List.mem_cons.1 hn with rfl | hn
    · rw [registry_foldl_registerFile_of_not_mem hnd.1, registry_registerFile]
      by_cases h : upToDate .done db n (fs.filetime n) = true
      · simp [scanned, h]
      · simp [scanned, h, staleFiles, Database.leftover]
    · have hnm : n ≠ m := fun he => hnd.1 (he ▸ hn)
      rw [ih hnd.2 hn]
      by_cases h : upToDate .done db m (fs.filetime m) = true
      · rw [registerFile_of_upToDate h]
        simp [scanned, staleFiles, h]
      · -- the rows of `m` go to the next rowid, those of the later files to rowids above it
        rw [Bool.not_eq_true] at h
        obtain ⟨hfresh, hat⟩ := registerFile_of_not_upToDate h
        have hreg : ∀ k, k ≠ m → (registerFile fs db m).registry k = db.registry k := fun _ hk =>
          registry_registerFile_of_ne hk
        have hstale : staleFiles fs (registerFile fs db m) ns = staleFiles fs db ns := by
          refine List.filter_congr fun k hk => ?_
          rw [upToDate_congr (hreg k fun he => hnd.1 (he ▸ hk))]
        have hcons : staleFiles fs db (m :: ns) = m :: staleFiles fs db ns := by
          simp [staleFiles, h]
        simp only [scanned, upToDate_congr (hreg n hnm), hreg n hnm, hstale, hcons, hfresh]
        rw [List.idxOf_cons_ne _ hnm.symm, hat _ (by omega), Nat.add_right_comm, Nat.add_assoc]

theorem isSome_foldl_registerFile {fs : FileSys} {ns : List Text} (hnd : ns.Nodup) {n : Text}
    (hn : n ∈ ns) (db : Database) : ((ns.foldl (registerFile fs) db).registry n).isSome = true := by
  rw [registry_foldl_registerFile hnd hn, scanned]
  split_ifs with h
  · simp only [upToDate, urlDbGetFileMotificationTime_done] at h
    cases hr : db.registry n with
    | none => simp [hr] at h
    | some g => rfl
  · rfl

/-! ### The files of a directory -/

/-- `n` names a file directly under `D`. -/
def Child (D n : Text) : Prop := ∃ x, '/' ∉ x ∧ n = D ++ '/' :: x

/-- The entries of `D`, none if it is no directory. -/
def directoryEntries (fs : FileSys) (D : Text) : List Text :=
  if fs.isDir D then fs.entries D else []

theorem nodup_runNames (fs : FileSys) (D : Text) : (runNames fs D).Nodup := by
  unfold runNames scannedNames
  split_ifs
  · refine ((fs.listed_once D).filter _).map_on fun x hx y hy he => ?_
    exact gBuildFilename_inj (fs.component D x (List.mem_of_mem_filter hx))
      (fs.component D y (List.mem_of_mem_filter hy)) he
  · exact List.nodup_nil

/-- In a directory whose name has no trailing separator, the scanned files are its children. -/
theorem mem_runNames {fs : FileSys} {D : Text} (hD : gStrHasSuffix D ['/'] = false) {n : Text} :
    n ∈ runNames fs D ↔ ∃ x ∈ directoryEntries fs D,
      gStrHasSuffix x urlDispatcherSuffix = true ∧ n = D ++ '/' :: x := by
  unfold runNames scannedNames directoryEntries
  by_cases hdir : fs.isDir D = true
  · have hne : D ≠ [] := by
      rintro rfl
      rw [fs.empty_path] at hdir
      cases hdir
    simp only [hdir, ↓reduceIte, List.mem_map, List.mem_filter]
    constructor
    · rintro ⟨x, ⟨hx, hs⟩, rfl⟩
      exact ⟨x, hx, hs, gBuildFilename_of_plain hne hD (fs.component D x hx)⟩
    · rintro ⟨x, hx, hs, rfl⟩
      exact ⟨x, ⟨hx, hs⟩, gBuildFilename_of_plain hne hD (fs.component D x hx)⟩
  · simp [hdir]

theorem child_of_mem_runNames {fs : FileSys} {D : Text} (hD : gStrHasSuffix D ['/'] = false)
    {n : Text} (hn : n ∈ runNames fs D) : Child D n := by
  obtain ⟨x, hx, -, rfl⟩ := (mem_runNames hD).1 hn
  unfold directoryEntries at hx
  split_ifs at hx
  · exact ⟨x, (fs.component D x hx).2, rfl⟩
  · cases hx

theorem isDir_of_settleDirname_ne {fs : FileSys} {D : Text} (h : settleDirname fs D ≠ D) :
    fs.isDir D = false := by
  by_contra hdir
  simp [settleDirname, hdir] at h

/-! ### The own directory only -/

/-- After a run on `D` the known files are those known before outside `D` and the
`*.url-dispatcher` entries of `D`, and every file outside `D` is registered as before. -/
def TouchesOwnDirectory (fs : FileSys) (db : Database) (D : Text) : Prop :=
  (∀ n, ((updateDirectory fs db D).registry n).isSome = true ↔
    ((db.registry n).isSome = true ∧ ¬ Child D n) ∨
      ∃ x ∈ directoryEntries fs D, gStrHasSuffix x urlDispatcherSuffix = true ∧
        n = D ++ '/' :: x) ∧
  ∀ n, ¬ Child D n → (updateDirectory fs db D).registry n = db.registry n

/-- The run over `ns` finds the file `n` as it is known: up to date, or with the time and the
entries that registering it anew leaves it with. -/
def FoundAsKnown (fs : FileSys) (db : Database) (ns : List Text) (n : Text) : Prop :=
  upToDate .done db n (fs.filetime n) = true ∨
    ∃ g, db.registry n = some g ∧ g.stamp = narrow (fs.filetime n) ∧
      g.entries = db.entriesAt (db.configfiles.fresh + (staleFiles fs db ns).idxOf n) ∪
        fs.accepted n

theorem foundAsKnown_iff {fs : FileSys} {db : Database} {ns : List Text} {n : Text} :
    FoundAsKnown fs db ns n ↔ scanned fs db ns n = db.registry n := by
  rw [FoundAsKnown, scanned]
  cases upToDate .done db n (fs.filetime n) with
  | true => simp
  | false =>
    rw [if_neg Bool.false_ne_true, or_iff_right Bool.false_ne_true]
    constructor
    · rintro ⟨g, hg, hstamp, hentries⟩
      rw [hg, FileSys.registration, ← hstamp, ← hentries]
    · intro h
      exact ⟨_, h.symm, rfl, rfl⟩

/-- The run lists no foreign file, and when it settles on another directory than `D` it lists every
file of `D` and finds there nothing to change. -/
def ListsOwnDirectory (fs : FileSys) (db : Database) (D : Text) : Prop :=
  (∀ n, (db.registry n).isSome = true → like (settleDirname fs D ++ ['%']) n = true →
    Child D n ∨ n ∈ runNames fs (settleDirname fs D)) ∧
  (settleDirname fs D ≠ D →
    (∀ n, (db.registry n).isSome = true → Child D n →
      like (settleDirname fs D ++ ['%']) n = true) ∧
    ∀ n ∈ runNames fs (settleDirname fs D), (db.registry n).isSome = true ∧ ¬ Child D n ∧
      FoundAsKnown fs db (runNames fs (settleDirname fs D)) n)

variable {fs : FileSys} {db : Database} {D : Text}

theorem registry_updateDirectory_of_mem {n : Text} (hn : n ∈ runNames fs (settleDirname fs D)) :
    (updateDirectory fs db D).registry n =
      scanned fs db (runNames fs (settleDirname fs D)) n := by
  rw [registry_updateDirectory, if_pos hn, registry_foldl_registerFile (nodup_runNames _ _) hn]

theorem isSome_updateDirectory_of_mem {n : Text} (hn : n ∈ runNames fs (settleDirname fs D)) :
    ((updateDirectory fs db D).registry n).isSome = true := by
  rw [registry_updateDirectory, if_pos hn]
  exact isSome_foldl_registerFile (nodup_runNames _ _) hn db

theorem registry_updateDirectory_of_like {n : Text} (hn : n ∉ runNames fs (settleDirname fs D))
    (hl : like (settleDirname fs D ++ ['%']) n = true) :
    (updateDirectory fs db D).registry n = none := by
  rw [registry_updateDirectory, if_neg hn, if_pos hl]

theorem registry_updateDirectory_of_not_like {n : Text}
    (hn : n ∉ runNames fs (settleDirname fs D))
    (hl : like (settleDirname fs D ++ ['%']) n = false) :
    (updateDirectory fs db D).registry n = db.registry n := by
  rw [registry_updateDirectory, if_neg hn, if_neg (by simp [hl])]

theorem listsOwnDirectory_of_touches (h : TouchesOwnDirectory fs db D) :
    ListsOwnDirectory fs db D := by
  obtain ⟨hnames, hkeep⟩ := h
  refine ⟨fun n hk hl => ?_, fun hne => ⟨fun n hk hc => ?_, fun n hn => ?_⟩⟩
  · -- a foreign file that is listed and not scanned is removed
    by_contra hno
    rw [not_or] at hno
    have hgone : (updateDirectory fs db D).registry n = none :=
      registry_updateDirectory_of_like hno.2 hl
    rw [hkeep n hno.1] at hgone
    simp [hgone] at hk
  · -- `D` is no directory, so its files must be gone, and only a listed file goes
    have hdir := isDir_of_settleDirname_ne hne
    have hgone : ¬ ((updateDirectory fs db D).registry n).isSome = true := by
      rw [hnames n]
      simp [hc, directoryEntries, hdir]
    by_contra hl
    rw [Bool.not_eq_true] at hl
    by_cases hn : n ∈ runNames fs (settleDirname fs D)
    · exact hgone (isSome_updateDirectory_of_mem hn)
    · exact hgone (by rw [registry_updateDirectory_of_not_like hn hl]; exact hk)
  · have hdir := isDir_of_settleDirname_ne hne
    have hsome := (hnames n).1 (isSome_updateDirectory_of_mem hn)
    simp only [directoryEntries, hdir, Bool.false_eq_true, ↓reduceIte, List.not_mem_nil, false_and,
      exists_false, or_false] at hsome
    refine ⟨hsome.1, hsome.2, foundAsKnown_iff.2 ?_⟩
    rw [← registry_updateDirectory_of_mem hn]
    exact hkeep n hsome.2

/-- Outside `D`, a listed file that is not scanned is unknown. -/
theorem ListsOwnDirectory.registry_eq_none (h : ListsOwnDirectory fs db D) {n : Text}
    (hn : n ∉ runNames fs (settleDirname fs D)) (hc : ¬ Child D n)
    (hl : like (settleDirname fs D ++ ['%']) n = true) : db.registry n = none := by
  rw [← Option.not_isSome_iff_eq_none]
  intro hk
  exact (h.1 n hk hl).elim hc hn

theorem touches_of_settleDirname_eq (hD : gStrHasSuffix D ['/'] = false)
    (hE : settleDirname fs D = D) (h : ListsOwnDirectory fs db D) :
    TouchesOwnDirectory fs db D := by
  -- what is scanned is a child of `D`
  have hnot : ∀ n, ¬ Child D n → n ∉ runNames fs (settleDirname fs D) := by
    intro n hc hn
    rw [hE] at hn
    exact hc (child_of_mem_runNames hD hn)
  have hkeep : ∀ n, ¬ Child D n → (updateDirectory fs db D).registry n = db.registry n := by
    intro n hc
    cases hl : like (settleDirname fs D ++ ['%']) n with
    | true =>
      rw [registry_updateDirectory_of_like (hnot n hc) hl, h.registry_eq_none (hnot n hc) hc hl]
    | false => exact registry_updateDirectory_of_not_like (hnot n hc) hl
  refine ⟨fun n => ?_, hkeep⟩
  rw [← mem_runNames hD]
  by_cases hc : Child D n
  · -- a child is kept if it is scanned, and otherwise listed and removed
    by_cases hn : n ∈ runNames fs D
    · have hs : ((updateDirectory fs db D).registry n).isSome = true :=
        isSome_updateDirectory_of_mem (by rwa [hE])
      simp [hs, hn]
    · have hl : like (settleDirname fs D ++ ['%']) n = true := by
        obtain ⟨x, -, rfl⟩ := hc
        rw [hE]
        exact like_prefix _ _
      have hgone : (updateDirectory fs db D).registry n = none :=
        registry_updateDirectory_of_like (by rwa [hE]) hl
      simp [hgone, hn, hc]
  · have hn := hnot n hc
    rw [hE] at hn
    simp [hkeep n hc, hc, hn]

theorem touches_of_settleDirname_ne (hE : settleDirname fs D ≠ D)
    (h : ListsOwnDirectory fs db D) : TouchesOwnDirectory fs db D := by
  obtain ⟨hall, hscan⟩ := h.2 hE
  have hdir := isDir_of_settleDirname_ne hE
  -- the parent's files are found as they are, and nothing foreign is listed
  have hkeep : ∀ n, ¬ Child D n → (updateDirectory fs db D).registry n = db.registry n := by
    intro n hc
    by_cases hn : n ∈ runNames fs (settleDirname fs D)
    · rw [registry_updateDirectory_of_mem hn, foundAsKnown_iff.1 (hscan n hn).2.2]
    · cases hl : like (settleDirname fs D ++ ['%']) n with
      | true => rw [registry_updateDirectory_of_like hn hl, h.registry_eq_none hn hc hl]
      | false => exact registry_updateDirectory_of_not_like hn hl
  refine ⟨fun n => ?_, hkeep⟩
  simp only [directoryEntries, hdir, Bool.false_eq_true, ↓reduceIte, List.not_mem_nil, false_and,
    exists_false, or_false]
  by_cases hc : Child D n
  · have hn : n ∉ runNames fs (settleDirname fs D) := fun hn => (hscan n hn).2.1 hc
    cases hl : like (settleDirname fs D ++ ['%']) n with
    | true => simp [registry_updateDirectory_of_like hn hl, hc]
    | false =>
      rw [registry_updateDirectory_of_not_like hn hl]
      refine ⟨fun hk => ?_, fun h => absurd hc h.2⟩
      rw [hall n hk hc] at hl
      cases hl
  · simp [hkeep n hc, hc]

/-- **A run touches its own directory only, and all of it, exactly when** it lists no foreign file
and does not settle on another directory where it finds something to change. -/
theorem touchesOwnDirectory_iff (fs : FileSys) (db : Database) (D : Text)
    (hD : gStrHasSuffix D ['/'] = false) :
    TouchesOwnDirectory fs db D ↔ ListsOwnDirectory fs db D := by
  refine ⟨listsOwnDirectory_of_touches, fun h => ?_⟩
  by_cases hE : settleDirname fs D = D
  · exact touches_of_settleDirname_eq hD hE h
  · exact touches_of_settleDirname_ne hE h

/-- Two directories, of which the name of the first is a prefix of the name of the second; only the
second has a file in it. -/
def siblings : FileSys where
  isDir d := decide (d = "/a/b".toList) || decide (d = "/a/bc".toList)
  entries d := if d = "/a/bc".toList then ["x.url-dispatcher".toList] else []
  file n := if n = "/a/bc/x.url-dispatcher".toList then some ⟨1, none⟩ else none
  component d name h := by
    split_ifs at h
    · rw [List.mem_singleton.1 h]; decide
    · cases h
  listed_once d := by split_ifs <;> simp
  empty_path := by decide

/-- A file of `/a/b` is known. -/
def foreignDatabase : Database :=
  entryDatabase "/a/b/y.url-dispatcher".toList "http".toList "foo.com".toList

/-- The run on `/a/bc` leaves it alone. -/
theorem touchesOwnDirectory_siblings :
    gStrHasSuffix "/a/bc".toList ['/'] = false ∧
      TouchesOwnDirectory siblings foreignDatabase "/a/bc".toList := by
  have hD : gStrHasSuffix "/a/bc".toList ['/'] = false := by decide
  refine ⟨hD, (touchesOwnDirectory_iff siblings foreignDatabase _ hD).2 ⟨fun n hk hl => ?_, ?_⟩⟩
  · rw [foreignDatabase, registry_entryDatabase, Function.update_apply] at hk
    split_ifs at hk with hn
    · subst hn
      exact absurd hl (by decide)
    · cases hk
  · intro h
    exact absurd (by decide) h

/-- A run on `/a/b` forgets the file of `/a/bc`. -/
theorem not_touchesOwnDirectory_siblings :
    ¬ TouchesOwnDirectory siblings (updateDirectory siblings Database.empty "/a/bc".toList)
      "/a/b".toList := by
  intro h
  have hc : ¬ Child "/a/b".toList "/a/bc/x.url-dispatcher".toList := by
    rintro ⟨x, -, hx⟩
    simp at hx
  have hk := congrArg Option.isSome (h.2 _ hc)
  revert hk
  decide

end UrlDispatcher
