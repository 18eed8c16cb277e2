import UrlDispatcher.Update.Overlap
import Mathlib.Algebra.Ring.Nat

/-!
# Every run ends

While a run is on its way, other runs write to the database, statements fail, and runs are killed.
As long as the directory of the run stays as it is and no entry is returned twice, the run ends all
the same: `stepsLeft` bounds the steps it can still make, and at no point is it stuck.

* `Pc.Step.stepsLeft_lt` : every step makes the bound smaller.
* `finishes_of_run` : the steps that a run makes are bounded, and wherever the others have been
  stopped, it can go on by itself and do all its work.
-/

namespace UrlDispatcher

open Sql GLib Machine

/-! ### The bound -/

section

variable (fs : FileSys)

/-- The steps for the body of the loop on a file. -/
def fileSteps (fullname : Text) : ℕ :=
  match fs.file fullname with
  | some f => f.elements.length + 4
  | none => 4

/-- The steps for an entry of the directory. -/
def nameSteps (dirname name : Text) : ℕ :=
  1 + if gStrHasSuffix name urlDispatcherSuffix then fileSteps fs (gBuildFilename dirname name)
    else 0

/-- The steps from the loop on. -/
def scanSteps (s : Scan) : ℕ :=
  (s.unread.map (nameSteps fs s.dirname)).sum + (s.startingdb.length + 2)

/-- The steps from opening the directory on, with `listed` files listed for it. -/
def openSteps (dirname : Text) (listed : ℕ) : ℕ :=
  ((fs.entries dirname).map (nameSteps fs dirname)).sum + (listed + 3)

/-- The steps a run can still make, if at most `listed` files are listed for its directory. -/
def stepsLeft (listed : ℕ) : Pc → ℕ
  | .start arg => openSteps fs (settleDirname fs arg) listed + 2
  | .listing dirname => openSteps fs dirname listed + 1
  | .opening dirname startingdb => openSteps fs dirname startingdb.length
  | .scanning s => scanSteps fs s
  | .checking s n => fileSteps fs n + scanSteps fs s
  | .stamping s n _ => fileSteps fs n - 1 + scanSteps fs s
  | .reading s n => fileSteps fs n - 2 + scanSteps fs s
  | .inserting s _ _ rest => rest.length + 1 + scanSteps fs s
  | .removing names => names.length + 1
  | .finished => 0

end

/-- The directory for which a run has still to list the files. -/
def Pc.unlisted (fs : FileSys) : Pc → Option Text
  | .start arg => some (settleDirname fs arg)
  | .listing dirname => some dirname
  | _ => none

/-- At most `listed` files are listed, and no entry is returned twice. -/
def Pc.ReadsOnce (listed : ℕ) (db : Database) : Pc → Choice → Prop
  | .listing dirname, .stmt st => (urlDbFilesForDir st db dirname).length ≤ listed
  | .scanning s, .readName (some name) => name ∈ s.unread
  | _, _ => True

section

variable {fs : FileSys} {db db' : Database} {pc pc' : Pc} {c : Choice} {listed : ℕ} {n : Text}

theorem four_le_fileSteps (fs : FileSys) (n : Text) : 4 ≤ fileSteps fs n := by
  unfold fileSteps
  split <;> omega

theorem scanSteps_found_le (fs : FileSys) (s : Scan) (n : Text) :
    scanSteps fs (s.found n) ≤ scanSteps fs s := by
  have hlength := List.length_filter_le (fun m => decide (m ≠ n)) s.startingdb
  simp only [scanSteps, Scan.found]
  omega

theorem sum_filter_ne_add_le {α : Type*} [DecidableEq α] (f : α → ℕ) {a : α} {l : List α}
    (h : a ∈ l) : ((l.filter fun b => b ≠ a).map f).sum + f a ≤ (l.map f).sum := by
  induction l with
  | nil => cases h
  | cons b l ih =>
    have hrest : ((l.filter fun b => b ≠ a).map f).sum ≤ (l.map f).sum := by
      by_cases hl : a ∈ l
      · exact (Nat.le_add_right _ _).trans (ih hl)
      · rw [List.filter_eq_self.2 fun c hc => decide_eq_true (ne_of_mem_of_not_mem hc hl)]
    by_cases hb : b = a
    · rw [List.filter_cons_of_neg (by simp [hb]), List.map_cons, List.sum_cons, hb]
      omega
    · have hl := ih ((List.mem_cons.1 h).resolve_left fun he => hb he.symm)
      rw [List.filter_cons_of_pos (by simp [hb]), List.map_cons, List.map_cons, List.sum_cons,
        List.sum_cons]
      omega

/-- An entry that has been returned is done with. -/
theorem scanSteps_read_le (fs : FileSys) {s : Scan} {name : Text} (h : name ∈ s.unread) :
    scanSteps fs (s.read name) + nameSteps fs s.dirname name ≤ scanSteps fs s := by
  have hsum := sum_filter_ne_add_le (nameSteps fs s.dirname) h
  simp only [scanSteps, Scan.read]
  omega

theorem length_removing_lt {names : List Text} (h : n ∈ names) :
    (names.filter fun m => m ≠ n).length < names.length :=
  List.length_filter_lt_length_iff_exists.2 ⟨n, h, by simp⟩

/-- **Every step makes the bound smaller.** -/
theorem Pc.Step.stepsLeft_lt (h : Pc.Step fs db pc c db' pc') (hb : pc.ReadsOnce listed db c) :
    stepsLeft fs listed pc' < stepsLeft fs listed pc := by
  cases h with
  | settle arg => exact Nat.lt_succ_self _
  | list dirname st =>
    have hlisted : (urlDbFilesForDir st db dirname).length ≤ listed := hb
    simp only [stepsLeft, openSteps]
    omega
  | openDir dirname startingdb _ =>
    simp only [stepsLeft, openSteps, scanSteps]
    omega
  | noDir dirname startingdb _ =>
    simp only [stepsLeft, openSteps]
    omega
  | readFile s name _ _ hsuf =>
    have hread := scanSteps_read_le fs hb
    simp only [nameSteps, hsuf, if_true] at hread
    simp only [stepsLeft]
    omega
  | skipName s name _ _ _ =>
    have hread := scanSteps_read_le fs hb
    simp only [nameSteps] at hread
    simp only [stepsLeft]
    omega
  | endOfDir s _ =>
    simp only [stepsLeft, scanSteps]
    omega
  | current s n st _ =>
    have hfound := scanSteps_found_le fs s n
    have hfile := four_le_fileSteps fs n
    simp only [stepsLeft]
    omega
  | outdated s n st _ =>
    have hfile := four_le_fileSteps fs n
    simp only [stepsLeft]
    omega
  | stamp s n t =>
    have hfile := four_le_fileSteps fs n
    simp only [stepsLeft]
    omega
  | stampFails s n t =>
    have hfound := scanSteps_found_le fs s n
    have hfile := four_le_fileSteps fs n
    simp only [stepsLeft]
    omega
  | readContent s n f hf =>
    simp only [stepsLeft, fileSteps, hf]
    omega
  | unreadable s n _ =>
    have hfound := scanSteps_found_le fs s n
    have hfile := four_le_fileSteps fs n
    simp only [stepsLeft]
    omega
  | insert s n f v rest =>
    simp only [stepsLeft, List.length_cons]
    omega
  | insertFails s n f v rest =>
    simp only [stepsLeft, List.length_cons]
    omega
  | fileDone s n f =>
    have hfound := scanSteps_found_le fs s n
    simp only [stepsLeft, List.length_nil]
    omega
  | remove names n hn => exact Nat.succ_lt_succ (length_removing_lt hn)
  | removeFails names n st hn _ => exact Nat.succ_lt_succ (length_removing_lt hn)
  | finish => exact Nat.lt_succ_self _

theorem Pc.Step.unlisted (h : Pc.Step fs db pc c db' pc') :
    pc'.unlisted fs = none ∨ (pc'.unlisted fs = pc.unlisted fs ∧ db' = db) := by
  cases h with
  | settle arg => exact .inr ⟨rfl, rfl⟩
  | _ => exact .inl rfl

/-- **No run is stuck.**  Before its end it can make a step without a failure. -/
theorem Pc.exists_step (fs : FileSys) (db : Database) (h : pc ≠ .finished) :
    ∃ c db' pc', c.succeeds = true ∧ Pc.Step fs db pc c db' pc' ∧
      ((∀ D, pc.unlisted fs = some D → (urlDbFilesForDir .done db D).length ≤ listed) →
        pc.ReadsOnce listed db c) := by
  cases pc with
  | start arg => exact ⟨.tau, _, _, rfl, .settle arg, fun _ => trivial⟩
  | listing dirname => exact ⟨.stmt .done, _, _, rfl, .list dirname .done, fun h => h dirname rfl⟩
  | opening dirname startingdb =>
    cases hd : fs.isDir dirname with
    | true => exact ⟨.tau, _, _, rfl, .openDir dirname startingdb hd, fun _ => trivial⟩
    | false => exact ⟨.tau, _, _, rfl, .noDir dirname startingdb hd, fun _ => trivial⟩
  | scanning s =>
    by_cases hrest : ∀ name ∈ s.unread, name ∉ fs.entries s.dirname
    · exact ⟨.readName none, _, _, rfl, .endOfDir s hrest, fun _ => trivial⟩
    · simp only [not_forall, not_not] at hrest
      obtain ⟨name, hname, hentry⟩ := hrest
      have hc := fs.component s.dirname name hentry
      cases hsuf : gStrHasSuffix name urlDispatcherSuffix with
      | true =>
        exact ⟨.readName name, _, _, rfl, .readFile s name hc (.inl hname) hsuf, fun _ => hname⟩
      | false =>
        exact ⟨.readName name, _, _, rfl, .skipName s name hc (.inl hname) hsuf, fun _ => hname⟩
  | checking s n =>
    cases hu : upToDate .done db n (fs.filetime n) with
    | true => exact ⟨.stmt .done, _, _, rfl, .current s n .done hu, fun _ => trivial⟩
    | false => exact ⟨.stmt .done, _, _, rfl, .outdated s n .done hu, fun _ => trivial⟩
  | stamping s n t => exact ⟨.stmt .done, _, _, rfl, .stamp s n t, fun _ => trivial⟩
  | reading s n =>
    cases hf : fs.file n with
    | some f => exact ⟨.tau, _, _, rfl, .readContent s n f hf, fun _ => trivial⟩
    | none => exact ⟨.tau, _, _, rfl, .unreadable s n hf, fun _ => trivial⟩
  | inserting s n f rest =>
    cases rest with
    | nil => exact ⟨.tau, _, _, rfl, .fileDone s n f, fun _ => trivial⟩
    | cons v rest => exact ⟨.stmt .done, _, _, rfl, .insert s n f v rest, fun _ => trivial⟩
  | removing names =>
    cases names with
    | nil => exact ⟨.tau, _, _, rfl, .finish, fun _ => trivial⟩
    | cons n names =>
      exact ⟨.remove n .allDone, _, _, rfl, .remove _ n List.mem_cons_self, fun _ => trivial⟩
  | finished => exact absurd rfl h

end

/-! ### In the world of the others -/

/-- The event is a step of the run. -/
def FleetEvent.isStepOf (i : ℕ) : FleetEvent → Bool
  | .exec j _ _ => decide (j = i)
  | _ => false

/-- The directory of the run stays as it is, and lists at most `listed` files; the process does not
start another run. -/
def Unchanging (i : ℕ) (fs : FileSys) (listed : ℕ) (w : Fleet) : FleetEvent → Prop
  | .exec j fs' c => j = i → fs' = fs ∧ (w.procs i).ReadsOnce listed w.db c
  | .launch j _ => j ≠ i
  | .kill _ => True

section

variable {fs : FileSys} {listed i : ℕ} {w w' : Fleet} {e : FleetEvent} {es : List FleetEvent}

theorem stepsLeft_of_step (hG : Unchanging i fs listed w e) (hs : w.step e = some w') :
    stepsLeft fs listed (w'.procs i) + [e].countP (FleetEvent.isStepOf i) ≤
      stepsLeft fs listed (w.procs i) := by
  cases Fleet.step_sound hs with
  | launch j arg => simp [FleetEvent.isStepOf, Function.update_of_ne (Ne.symm hG)]
  | exec j fs' c db pc hpc =>
    by_cases hj : j = i
    · subst hj
      obtain ⟨rfl, hb⟩ := hG rfl
      simpa [FleetEvent.isStepOf] using Nat.succ_le_of_lt (hpc.stepsLeft_lt hb)
    · simp [FleetEvent.isStepOf, hj, Function.update_of_ne (Ne.symm hj)]
  | kill j =>
    by_cases hj : j = i
    · subst hj
      simp [FleetEvent.isStepOf, stepsLeft]
    · simp [FleetEvent.isStepOf, Function.update_of_ne (Ne.symm hj)]

/-- The steps that a run has made are none of those that are left. -/
theorem stepsLeft_of_run (h : Run Fleet.step (Unchanging i fs listed) w es w') :
    stepsLeft fs listed (w'.procs i) + es.countP (FleetEvent.isStepOf i) ≤
      stepsLeft fs listed (w.procs i) := by
  induction h with
  | nil => exact Nat.le_refl _
  | @cons w w₁ w' e es hG hs _ ih =>
    have hstep := stepsLeft_of_step hG hs
    rw [← List.singleton_append, List.countP_append]
    omega

/-- A run can go on to its end by itself. -/
theorem exists_run_finished (fs : FileSys) (w : Fleet) (i : ℕ) :
    ∃ es w', Run Fleet.step (fun _ e => Undisturbed fs e ∧ e.proc = i) w es w' ∧
      w'.procs i = .finished := by
  by_cases hw : w.procs i = .finished
  · exact ⟨[], w, .nil w, hw⟩
  obtain ⟨listed, hlisted⟩ : ∃ listed, ∀ D, (w.procs i).unlisted fs = some D →
      (urlDbFilesForDir .done w.db D).length ≤ listed := by
    cases (w.procs i).unlisted fs with
    | none => exact ⟨0, fun _ h => by cases h⟩
    | some D => exact ⟨_, fun D' h => by cases h; exact Nat.le_refl _⟩
  refine exists_run_of_measure (I := fun v => v.procs i ≠ .finished ∧
    ∀ D, (v.procs i).unlisted fs = some D → (urlDbFilesForDir .done v.db D).length ≤ listed)
    (fun v => stepsLeft fs listed (v.procs i)) ?_ ⟨hw, hlisted⟩
  rintro v ⟨hv, hlisted⟩
  obtain ⟨c, db, pc, hc, hs, honce⟩ := Pc.exists_step fs v.db hv
  refine ⟨.exec i fs c, ⟨db, Function.update v.procs i pc⟩, ⟨⟨i, c, rfl, hc⟩, rfl⟩, ?_, ?_⟩
  · rw [Fleet.step, Pc.step_complete hs, Option.map_some]
  simp only [Function.update_self]
  by_cases hpc : pc = .finished
  · exact .inl hpc
  refine .inr ⟨⟨hpc, fun D hD => ?_⟩, hs.stepsLeft_lt (honce hlisted)⟩
  obtain hnone | ⟨hsame, rfl⟩ := hs.unlisted
  · rw [hnone] at hD
    cases hD
  · exact hlisted D (hsame ▸ hD)

/-- **Every run ends.**  While the others do whatever they do, and whichever statements fail, a run
whose directory stays as it is makes only so many steps; and wherever it has come to, it can go on
by itself to its end, and do all that is left of its work. -/
theorem finishes_of_run (fs : FileSys) (listed i : ℕ) (w w' : Fleet) (es : List FleetEvent)
    (h : Run Fleet.step (Unchanging i fs listed) w es w') :
    es.countP (FleetEvent.isStepOf i) ≤ stepsLeft fs listed (w.procs i) ∧
    ∃ es' w'', Run Fleet.step (fun _ e => Undisturbed fs e ∧ e.proc = i) w' es' w'' ∧
      w''.procs i = .finished ∧ Completes fs w'.db (w'.procs i) w''.db := by
  have hsteps := stepsLeft_of_run h
  obtain ⟨es', w'', hrun, hfin⟩ := exists_run_finished fs w' i
  exact ⟨by omega, es', w'', hrun, hfin, completes_of_alone hrun hfin⟩

end

/-- The first run has not listed any files, and is given no entry twice. -/
def firstReadsOnce (w : Fleet) : FleetEvent → Bool
  | .exec j _ c => decide (j ≠ 0) ||
    match w.procs 0, c with
    | .listing dirname, .stmt st => decide ((urlDbFilesForDir st w.db dirname).length ≤ 0)
    | .scanning s, .readName (some name) => s.unread.contains name
    | _, _ => true
  | .launch j _ => decide (j ≠ 0)
  | .kill _ => true

theorem firstReadsOnce_sound {w : Fleet} {e : FleetEvent} (h : firstReadsOnce w e = true)
    (he : Undisturbed twoDirs e) : Unchanging 0 twoDirs 0 w e := by
  obtain ⟨j, c, rfl, -⟩ := he
  rintro rfl
  refine ⟨rfl, ?_⟩
  simp only [firstReadsOnce, ne_eq, not_true_eq_false, decide_false, Bool.false_or] at h
  unfold Pc.ReadsOnce
  split at h
  · exact of_decide_eq_true h
  · exact List.contains_iff_mem.1 h
  · trivial

/-- In the middle of two runs the first one can go on to its end. -/
theorem finishes_of_run_sideBySide : ∃ w' : Fleet,
    run Fleet.step twoRuns (sideBySide.take 13) = some w' ∧ ∃ es w'',
      run Fleet.step w' es = some w'' ∧ w''.procs 0 = .finished ∧
      Completes twoDirs w'.db (w'.procs 0) w''.db := by
  obtain ⟨w', hw⟩ := Option.isSome_iff_exists.1 (show (run (fun w e =>
    if firstReadsOnce w e then Fleet.step w e else none) twoRuns (sideBySide.take 13)).isSome
      by decide)
  have hrun := (Run.of_run (g := firstReadsOnce) (fun _ _ h => h) hw).of_mem.mono fun _ e he =>
    firstReadsOnce_sound he.1 (undisturbed_sideBySide e (List.mem_of_mem_take he.2))
  obtain ⟨-, es, w'', hrun', hfin, hc⟩ := finishes_of_run twoDirs 0 0 twoRuns w' _ hrun
  exact ⟨w', hrun.run_eq, es, w'', hrun'.run_eq, hfin, hc⟩

end UrlDispatcher
