import UrlDispatcher.Update.Isolation

/-!
# Updating and starting over

The time stored for a file is there to skip the file when nothing has changed.  If the service
cannot open the database, it is thrown away and the tool is run on all the directories again.

* `knownAfter_eq_foldl` : the files known after runs alone, without changes in between.
* `registry_eq_rebuilt` : runs over an old database leave of the files of their directories what
  the same runs over an empty one leave, so skipping files loses nothing, and neither does starting
  over.
-/

namespace UrlDispatcher

open Sql GLib Machine

/-- The arguments of the runs that are started. -/
def launches : List SoloEvent → List Text
  | [] => []
  | .launch arg :: es => arg :: launches es
  | _ :: es => launches es

section

variable {versions : Text → File} {fs : FileSys} {known known' : Set Text} {n : Text}
  {w w' v : Solo} {es es' : List SoloEvent}

/-! ### The files known after runs -/

theorem knownAfter_eq_foldl (hquiet : ∀ e ∈ es, e.quiet = true) :
    knownAfter fs known es =
      (launches es).foldl (fun known arg => knownAfterRun fs arg known) known := by
  induction es generalizing known with
  | nil => rfl
  | cons e es ih =>
    obtain ⟨he, hes⟩ := List.forall_mem_cons.1 hquiet
    cases e with
    | change fs => cases he
    | launch arg => exact @ih (knownAfterRun fs arg known) hes
    | exec c => exact @ih known hes
    | kill => cases he

/-- What a run has decided about a file, or what did not differ before, does not differ after. -/
theorem mem_foldl_knownAfterRun {args : List Text}
    (h : (n ∈ known ↔ n ∈ known') ∨ ∃ arg ∈ args, Covers (settleDirname fs arg) n) :
    n ∈ args.foldl (fun known arg => knownAfterRun fs arg known) known ↔
      n ∈ args.foldl (fun known arg => knownAfterRun fs arg known) known' := by
  induction args generalizing known known' with
  | nil => exact h.resolve_right fun ⟨_, hmem, _⟩ => List.not_mem_nil hmem
  | cons arg args ih =>
    refine ih ?_
    rcases h with h | ⟨arg', hmem, hcov⟩
    · exact .inl (or_congr_right (and_congr_left fun _ => h))
    · rcases List.mem_cons.1 hmem with rfl | hmem
      · -- the file is listed for this run, and known only if it is there
        rw [Covers] at hcov
        exact .inl (by simp [knownAfterRun, hcov])
      · exact .inr ⟨arg', hmem, hcov⟩

/-! ### Over an old database and over an empty one -/

theorem installs_of_run (h : Run Solo.step (Installing versions) w es w')
    (hfs : Installs versions w.fs) : Installs versions w'.fs := by
  refine h.invariant (I := fun v => Installs versions v.fs) hfs fun v e v' hv hG hs => ?_
  cases Solo.step_sound hs with
  | change fs => exact hG.2
  | launch arg _ => exact hv
  | exec c db pc _ => exact hv
  | kill => exact hv

/-- Runs without changes in between. -/
theorem holds_of_refresh (hfit : ∀ n, -2 ^ 31 ≤ (versions n).mtime ∧ (versions n).mtime < 2 ^ 31)
    (hfs : Installs versions w.fs) (hdb : Holds versions w.db known) (hw : w.proc = .finished)
    (h : Run Solo.step (fun _ e => e.quiet = true) w es w') (hw' : w'.proc = .finished) :
    Holds versions w'.db
      ((launches es).foldl (fun known arg => knownAfterRun w.fs arg known) known) := by
  have hquiet : ∀ e ∈ es, e.quiet = true := fun e he => by
    obtain ⟨_, _, _, _, _, hG, _⟩ := h.exists_of_mem he
    exact hG
  obtain ⟨db, hc, hrest⟩ := holds_of_rest hfit (h.mono fun _ _ => installing_of_quiet) hw' hfs
  rw [hw] at hc
  obtain rfl : db = w.db := hc
  rw [← knownAfter_eq_foldl hquiet]
  exact hrest known hdb

/-- **Starting over changes nothing.**  After any history of complete runs, with files installed and
removed in between, run the tool on some directories, over the database as it is or over an empty
one: a file that is listed for one of them, or that was not known before, has the same registration
in both. -/
theorem registry_eq_rebuilt {fs₀ : FileSys} {es₀ : List SoloEvent}
    (hfit : ∀ n, -2 ^ 31 ≤ (versions n).mtime ∧ (versions n).mtime < 2 ^ 31)
    (hfs : Installs versions fs₀) (h₀ : Run Solo.step (Installing versions) (.init fs₀) es₀ w)
    (hw : w.proc = .finished)
    (h : Run Solo.step (fun _ e => e.quiet = true) w es w') (hw' : w'.proc = .finished)
    (hv : Run Solo.step (fun _ e => e.quiet = true) (.init w.fs) es' v) (hv' : v.proc = .finished)
    (hsame : launches es' = launches es) (n : Text)
    (hn : w.db.registry n = none ∨ ∃ arg ∈ launches es, Covers (settleDirname w.fs arg) n) :
    w'.db.registry n = v.db.registry n := by
  have hfs' := installs_of_run h₀ hfs
  have hdb := holds_of_history hfit hfs h₀ hw
  have hupdated := holds_of_refresh hfit hfs' hdb hw h hw'
  have hrebuilt := holds_of_refresh (w := .init w.fs) hfit hfs' (holds_empty versions) rfl hv hv'
  have hknown : n ∈ knownAfter fs₀ ∅ es₀ → w.db.registry n ≠ none := fun hmem => by
    rw [hdb.registry, Registry.ofFiles_of_mem hmem]
    exact Option.some_ne_none _
  have hmem : (n ∈ knownAfter fs₀ ∅ es₀ ↔ n ∈ (∅ : Set Text)) ∨
      ∃ arg ∈ launches es, Covers (settleDirname w.fs arg) n :=
    hn.imp_left fun hnone => iff_of_false (fun h => hknown h hnone) (Set.notMem_empty n)
  rw [hupdated.registry, hrebuilt.registry, hsame]
  exact Registry.ofFiles_congr (mem_foldl_knownAfterRun hmem)

end

theorem quiet_of_quietRun {w w' : Solo} {es : List SoloEvent} (h : quietRun w es = some w') :
    Run Solo.step (fun _ e => e.quiet = true) w es w' :=
  .of_run (fun _ _ he => he) h

theorem proc_eq_finished {o : Option Solo} {w : Solo} (h : o = some w)
    (hfin : (o.map fun w => w.proc.isFinished) = some true) : w.proc = .finished := by
  rw [h, Option.map_some] at hfin
  exact Pc.isFinished_iff.1 (Option.some.inj hfin)

/-- `b.url-dispatcher` has come instead of `a.url-dispatcher`. -/
def replacedDir : FileSys := pairDir none (some (comFile 1))

/-- The next run makes of the database what a run over an empty one makes of that. -/
theorem registry_eq_rebuilt_replaced : ∃ w w' v : Solo,
    run Solo.step (.init (pairDir (some (comFile 1)) none)) (listed ++ [.change replacedDir]) =
      some w ∧
    run Solo.step w (runEvents (registerEvents "b.url-dispatcher".toList 1)
      ["/d/a.url-dispatcher".toList]) = some w' ∧
    run Solo.step (.init replacedDir) (runEvents (registerEvents "b.url-dispatcher".toList 1) []) =
      some v ∧
    ∀ n, Covers "/d".toList n → w'.db.registry n = v.db.registry n := by
  obtain ⟨w', h⟩ := Option.isSome_iff_exists.1 (show ((quietRun
    (.init (pairDir (some (comFile 1)) none)) listed).bind fun u =>
      quietRun { u with fs := replacedDir, newest := latest replacedDir u.newest }
        (runEvents (registerEvents "b.url-dispatcher".toList 1)
          ["/d/a.url-dispatcher".toList])).isSome by decide)
  obtain ⟨v, hv⟩ := Option.isSome_iff_exists.1 (show (quietRun (.init replacedDir)
    (runEvents (registerEvents "b.url-dispatcher".toList 1) [])).isSome by decide)
  have hfin' := proc_eq_finished h (by decide)
  obtain ⟨u, hu, hw'⟩ := Option.bind_eq_some_iff.1 h
  have hfin := proc_eq_finished hu (by decide)
  have hvfin := proc_eq_finished hv (by decide)
  have hinstalls : Installs (fun _ => comFile 1) replacedDir := installs_comFile (by simp) (by simp)
  have h₀ : Run Solo.step (Installing fun _ => comFile 1)
      (.init (pairDir (some (comFile 1)) none)) (listed ++ [.change replacedDir]) _ :=
    (installing_of_quietRun hu).append (.cons ⟨hfin, hinstalls⟩ rfl (.nil _))
  have hupdate := quiet_of_quietRun hw'
  have hrebuild := quiet_of_quietRun hv
  refine ⟨_, w', v, h₀.run_eq, hupdate.run_eq, hrebuild.run_eq, fun n hn => ?_⟩
  exact registry_eq_rebuilt (fun _ => by decide) (installs_comFile (by simp) (by simp)) h₀ hfin
    hupdate hfin' hrebuild hvfin rfl n (.inr ⟨"/d".toList, List.mem_singleton_self _, hn⟩)

end UrlDispatcher
