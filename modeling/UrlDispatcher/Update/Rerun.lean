import UrlDispatcher.Update.Recovery

/-!
# Running the tool again

A complete run leaves its directory *settled* (`Settled`): every file it scans counts as up to date,
and the names the database lists for the directory are names of scanned files.  A complete run on
a settled directory writes nothing, so a second run changes no row of either table, whatever the
database was before the first (`db_eq_of_rerun`).

The only assumption is that the times fit the 32-bit `int` they are stored through: a later one
wraps around, the file counts as out of date forever, and every run replaces its row.
-/

namespace UrlDispatcher

open Sql GLib Machine

/-- The modification times of the files scanned in `dirname` fit a 32-bit `int`. -/
def TimesFit (fs : FileSys) (dirname : Text) : Prop :=
  ∀ n ∈ runNames fs dirname, ∀ f, fs.file n = some f → -2 ^ 31 ≤ f.mtime ∧ f.mtime < 2 ^ 31

theorem narrow_of_fits {t : ℤ} (h : -2 ^ 31 ≤ t ∧ t < 2 ^ 31) : narrow t = t := by
  refine (Int.bmod_eq_iff (by decide)).2 ⟨?_, ?_, ?_⟩
  · have h := h.1
    omega
  · have h := h.2
    omega
  · rw [Int.sub_self]
    exact Int.dvd_zero _

theorem TimesFit.narrow_filetime {fs : FileSys} {dirname n : Text} (h : TimesFit fs dirname)
    (hn : n ∈ runNames fs dirname) : narrow (fs.filetime n) = fs.filetime n := by
  unfold FileSys.filetime
  cases hf : fs.file n with
  | none => decide
  | some f => exact narrow_of_fits (h n hn f hf)

section

variable {fs : FileSys} {db db' : Database} {dirname arg n : Text} {ns : List Text}

/-! ### Registering a file that is up to date -/

/-- A file that has been registered is up to date. -/
theorem upToDate_registerFile (h : narrow (fs.filetime n) = fs.filetime n) :
    upToDate .done (registerFile fs db n) n (fs.filetime n) = true := by
  cases hu : upToDate .done db n (fs.filetime n) with
  | true => rw [registerFile_of_upToDate hu, hu]
  | false =>
    refine upToDate_iff.2 ⟨fs.registration n db.leftover, ?_, ?_⟩
    · rw [registry_registerFile, hu, if_neg Bool.false_ne_true, Function.update_self]
    · rw [FileSys.registration, h, h]

/-- A file that is up to date stays so when files are registered. -/
theorem upToDate_registerFile_other (h : upToDate .done db n (fs.filetime n) = true) (m : Text) :
    upToDate .done (registerFile fs db m) n (fs.filetime n) = true := by
  by_cases hnm : n = m
  · subst hnm
    rwa [registerFile_of_upToDate h]
  · rwa [upToDate_congr (registry_registerFile_of_ne hnm)]

/-- After the loop every file it has registered is up to date. -/
theorem upToDate_foldl_registerFile (hn : n ∈ ns) (h : narrow (fs.filetime n) = fs.filetime n) :
    upToDate .done (ns.foldl (registerFile fs) db) n (fs.filetime n) = true :=
  foldl_establishes (I := fun _ => True)
    (P := fun db => upToDate .done db n (fs.filetime n) = true) (fun _ _ _ => trivial)
    (fun _ _ => upToDate_registerFile h) (fun _ m _ hu => upToDate_registerFile_other hu m) trivial
    (.inl hn)

theorem foldl_registerFile_of_upToDate
    (h : ∀ n ∈ ns, upToDate .done db n (fs.filetime n) = true) :
    ns.foldl (registerFile fs) db = db := by
  induction ns with
  | nil => rfl
  | cons m ns ih =>
    rw [List.foldl_cons, registerFile_of_upToDate (h m List.mem_cons_self)]
    exact ih fun n hn => h n (List.mem_cons_of_mem _ hn)

/-! ### A settled directory -/

/-- Every file scanned in `dirname` is up to date, and no other file is listed for it. -/
structure Settled (fs : FileSys) (dirname : Text) (db : Database) : Prop where
  upToDate : ∀ n ∈ runNames fs dirname, upToDate .done db n (fs.filetime n) = true
  listed : ∀ n ∈ urlDbFilesForDir .done db dirname, n ∈ runNames fs dirname

/-- **A complete run settles its directory.** -/
theorem Completes.settled (h : Completes fs db (.start arg) db')
    (hfit : TimesFit fs (settleDirname fs arg)) : Settled fs (settleDirname fs arg) db' := by
  obtain ⟨ns, hns, removed, hrem, rfl⟩ := h.exists_order
  constructor
  · intro n hn
    have hu : upToDate .done (ns.foldl (registerFile fs) db) n (fs.filetime n) = true :=
      upToDate_foldl_registerFile ((hns n).2 hn) (hfit.narrow_filetime hn)
    obtain ⟨g, hg, ht⟩ := upToDate_iff.1 hu
    -- a file that has been found is not removed
    have hkeep : n ∉ removed := fun hm => by
      have hno := (List.mem_filter.1 ((hrem n).1 hm)).2
      exact of_decide_eq_true hno ((hns n).2 hn)
    refine upToDate_iff.2 ⟨g, ?_, ht⟩
    rw [registry_foldl_removeFile, if_neg hkeep, hg]
  · intro n hn
    obtain ⟨hsome, hlike⟩ := mem_urlDbFilesForDir.1 hn
    by_contra hno
    have hnns : n ∉ ns := fun hm => hno ((hns n).1 hm)
    -- a file that is known and was not found was known before, so it has been removed
    rw [registry_foldl_removeFile] at hsome
    split_ifs at hsome with hm
    · cases hsome
    · rw [registry_foldl_registerFile_of_not_mem hnns] at hsome
      refine hm ((hrem n).2 (List.mem_filter.2 ⟨mem_urlDbFilesForDir.2 ⟨hsome, hlike⟩, ?_⟩))
      exact decide_eq_true hnns

/-- **A complete run on a settled directory writes nothing.** -/
theorem Completes.eq_of_settled (h : Completes fs db (.start arg) db')
    (hs : Settled fs (settleDirname fs arg) db) : db' = db := by
  obtain ⟨ns, hns, removed, hrem, rfl⟩ := h.exists_order
  have hnone : removed = [] := by
    refine List.eq_nil_iff_forall_not_mem.2 fun n hn => ?_
    obtain ⟨hl, hno⟩ := List.mem_filter.1 ((hrem n).1 hn)
    exact of_decide_eq_true hno ((hns n).2 (hs.listed n hl))
  rw [hnone, List.foldl_nil]
  exact foldl_registerFile_of_upToDate fun n hn => hs.upToDate n ((hns n).1 hn)

/-- Updating a directory twice is updating it once. -/
theorem updateDirectory_updateDirectory (db : Database)
    (hfit : TimesFit fs (settleDirname fs arg)) :
    updateDirectory fs (updateDirectory fs db arg) arg = updateDirectory fs db arg :=
  (completes_updateDirectory fs (updateDirectory fs db arg) arg).eq_of_settled
    ((completes_updateDirectory fs db arg).settled hfit)

end

/-! ### Two runs -/

/-- A run without failures leaves the file system alone. -/
theorem fs_eq_of_run {w w' : Solo} {es : List SoloEvent}
    (h : Run Solo.step (fun _ e => e.advances = true) w es w') : w'.fs = w.fs := by
  refine h.invariant (I := fun v => v.fs = w.fs) rfl fun v e v' hv hG hs => ?_
  cases Solo.step_sound hs with
  | change fs => cases hG
  | launch arg _ => cases hG
  | exec c db pc _ => exact hv
  | kill => cases hG

/-- **Re-running the tool changes nothing**: when two runs on the same argument follow each other,
nothing fails and no file changes, the second leaves both tables as the first did, row for row. -/
theorem db_eq_of_rerun (w w₁ w₂ : Solo) (arg : Text) (es es' : List SoloEvent)
    (hfit : TimesFit w.fs (settleDirname w.fs arg))
    (h : Run Solo.step (fun _ e => e.advances = true) { w with proc := .start arg } es w₁)
    (hfin : w₁.proc = .finished)
    (h' : Run Solo.step (fun _ e => e.advances = true) { w₁ with proc := .start arg } es' w₂)
    (hfin' : w₂.proc = .finished) : w₂.db = w₁.db := by
  have hfs : w₁.fs = w.fs := (fs_eq_of_run h :)
  have hc : Completes w.fs w.db (.start arg) w₁.db := completes_of_run h hfin
  have hc' : Completes w₁.fs w₁.db (.start arg) w₂.db := completes_of_run h' hfin'
  rw [hfs] at hc'
  exact hc'.eq_of_settled (hc.settled hfit)

theorem db_eq_of_rerun_listed : ∃ w w₁ w₂ : Solo,
    Run Solo.step (fun _ e => e.advances = true) { w with proc := .start "/d".toList }
      listed.tail w₁ ∧
    Run Solo.step (fun _ e => e.advances = true) { w₁ with proc := .start "/d".toList }
      nextRun w₂ ∧
    w₂.db = w₁.db := by
  have hfit : TimesFit (pairDir (some (comFile 1)) none)
      (settleDirname (pairDir (some (comFile 1)) none) "/d".toList) := by
    intro n hn f hf
    have hn : n = "/d/a.url-dispatcher".toList := List.mem_singleton.1 hn
    rw [hn] at hf
    cases hf
    decide
  refine ⟨.init (pairDir (some (comFile 1)) none), _, _,
    run_of_advances (Option.some_get (by decide)).symm,
    run_of_advances (Option.some_get (by decide)).symm, ?_⟩
  exact db_eq_of_rerun _ _ _ _ _ _ hfit (run_of_advances (Option.some_get (by decide)).symm) rfl
    (run_of_advances (Option.some_get (by decide)).symm) rfl

end UrlDispatcher
