import UrlDispatcher.Update.Isolation

/-!
# Overlapping runs

Runs on separate directories that nothing disturbs may overlap: their rows get other rowids than
they would get one after the other, but every file ends with the same registration.

* `Steady` : the invariant that no run registers a file that is known, so that `Apart` holds of
  every step and each run can be looked at without the others.
* `registry_of_overlapping` : complete runs come to what `updateDirectory` comes to on the same
  directories one after the other, in any order.
-/

namespace UrlDispatcher

open Sql GLib Machine

/-- The runs are left alone: nothing fails, nobody is killed, and the files stay as they are. -/
def Undisturbed (fs : FileSys) (e : FleetEvent) : Prop :=
  ∃ i c, e = .exec i fs c ∧ c.succeeds = true

/-! ### What a run finds -/

section

variable {D n : Text} {fs : FileSys} {db db' : Database} {pc pc' : Pc} {c : Choice}

theorem covers_of_mem_runNames (hD : gStrHasSuffix D ['/', '/'] = false)
    (hn : n ∈ runNames fs D) : Covers D n := by
  rw [runNames] at hn
  split_ifs at hn with hdir
  · obtain ⟨name, hname, rfl⟩ := List.mem_map.1 hn
    exact covers_gBuildFilename hD (fs.component D name (List.mem_filter.1 hname).1)
  · cases hn

/-- The loop reads the directory `D`, as it is. -/
structure Scan.Reads (s : Scan) (fs : FileSys) (D : Text) : Prop where
  dirname : s.dirname = D
  isDir : fs.isDir D = true
  unread : ∀ name ∈ s.unread, name ∈ fs.entries D

/-- The run goes over the files of `D` as they are, and the one it registers is not known yet. -/
def Pc.Reads (fs : FileSys) (D : Text) (db : Database) : Pc → Prop
  | .start arg => settleDirname fs arg = D
  | .listing dirname => dirname = D
  | .opening dirname _ => dirname = D
  | .scanning s => s.Reads fs D
  | .checking s n => s.Reads fs D ∧ n ∈ runNames fs D
  | .stamping s n t => s.Reads fs D ∧ n ∈ runNames fs D ∧ t = fs.filetime n ∧ db.registry n = none
  | .reading s _ => s.Reads fs D
  | .inserting s _ _ _ => s.Reads fs D
  | _ => True

theorem Scan.Reads.read {s : Scan} (h : s.Reads fs D) (name : Text) : (s.read name).Reads fs D :=
  ⟨h.dirname, h.isDir, fun m hm => h.unread m (List.mem_filter.1 hm).1⟩

theorem Scan.Reads.found {s : Scan} (h : s.Reads fs D) (n : Text) : (s.found n).Reads fs D :=
  ⟨h.dirname, h.isDir, h.unread⟩

theorem Scan.Reads.mem_runNames {s : Scan} {name : Text} (h : s.Reads fs D)
    (hin : name ∈ s.unread ∨ name ∈ fs.entries s.dirname)
    (hsuf : gStrHasSuffix name urlDispatcherSuffix = true) :
    gBuildFilename s.dirname name ∈ runNames fs D := by
  have hname : name ∈ fs.entries D := hin.elim (h.unread name) fun hin => h.dirname ▸ hin
  rw [runNames, if_pos h.isDir, h.dirname]
  exact List.mem_map_of_mem (List.mem_filter.2 ⟨hname, hsuf⟩)

theorem Pc.Reads.congr (h : pc.Reads fs D db)
    (hreg : ∀ n ∈ runNames fs D, db'.registry n = db.registry n) : pc.Reads fs D db' := by
  cases pc with
  | stamping s n t => exact ⟨h.1, h.2.1, h.2.2.1, (hreg n h.2.1).trans h.2.2.2⟩
  | _ => exact h

theorem Unedited.congr (h : Unedited fs D db) (hdb' : db'.Referential)
    (hreg : ∀ n ∈ runNames fs D, db'.registry n = db.registry n) : Unedited fs D db' :=
  ⟨hdb', fun n hn g hg => h.current n hn g (hreg n hn ▸ hg)⟩

theorem Unedited.setTimestamp (h : Unedited fs D db) (hfit : TimesFit fs D)
    (hn : n ∈ runNames fs D) (hnone : db.registry n = none) :
    Unedited fs D (db.setTimestamp n (narrow (fs.filetime n))) := by
  refine ⟨h.referential.setTimestamp (by simp [hnone]) _, fun m hm g hg => ?_⟩
  rw [Database.registry_setTimestamp] at hg
  by_cases hmn : m = n
  · subst hmn
    rw [Function.update_self, Option.some.injEq] at hg
    rw [← hg, narrow_narrow, hfit.narrow_filetime hm]
  · rw [Function.update_of_ne hmn] at hg
    exact h.current m hm g hg

theorem Unedited.eachUrl (h : Unedited fs D db) (n : Text) (v : JsonNode) :
    Unedited fs D (eachUrl .done db n v) := by
  refine ⟨h.referential.eachUrl n v, fun m hm g hg => ?_⟩
  rw [registry_eachUrl] at hg
  by_cases hmn : m = n
  · subst hmn
    rw [Function.update_self, Option.map_eq_some_iff] at hg
    obtain ⟨g', hg', rfl⟩ := hg
    exact h.current m hm g' hg'
  · rw [Function.update_of_ne hmn] at hg
    exact h.current m hm g hg

theorem Unedited.remove (h : Unedited fs D db) (n : Text) : Unedited fs D (db.remove n) := by
  refine ⟨h.referential.remove n, fun m hm g hg => ?_⟩
  rw [Database.registry_remove] at hg
  by_cases hmn : m = n
  · rw [hmn, Function.update_self] at hg
    cases hg
  · rw [Function.update_of_ne hmn] at hg
    exact h.current m hm g hg

/-- A step of a run that nothing disturbs. -/
theorem Pc.Reads.step (h : pc.Reads fs D db) (hdb : Unedited fs D db) (hfit : TimesFit fs D)
    (hc : c.succeeds = true) (hs : Pc.Step fs db pc c db' pc') :
    pc'.Reads fs D db' ∧ Unedited fs D db' := by
  cases hs with
  | settle arg => exact ⟨h, hdb⟩
  | list dirname st => exact ⟨h, hdb⟩
  | openDir dirname startingdb hd =>
    obtain rfl : dirname = D := h
    exact ⟨⟨rfl, hd, fun _ hm => hm⟩, hdb⟩
  | noDir dirname startingdb _ => exact ⟨trivial, hdb⟩
  | readFile s name _ hin hsuf =>
    exact ⟨⟨Scan.Reads.read h name, Scan.Reads.mem_runNames h hin hsuf⟩, hdb⟩
  | skipName s name _ _ _ => exact ⟨Scan.Reads.read h name, hdb⟩
  | endOfDir s _ => exact ⟨trivial, hdb⟩
  | current s n st _ => exact ⟨h.1.found n, hdb⟩
  | outdated s n st hu =>
    obtain rfl : st = .done := of_decide_eq_true hc
    exact ⟨⟨h.1, h.2, rfl, hdb.registry_eq_none h.2 hu⟩, hdb⟩
  | stamp s n t =>
    obtain ⟨hscan, hn, rfl, hnone⟩ := h
    exact ⟨hscan, hdb.setTimestamp hfit hn hnone⟩
  | stampFails s n t => cases hc
  | readContent s n f _ => exact ⟨h, hdb⟩
  | unreadable s n _ => exact ⟨Scan.Reads.found h n, hdb⟩
  | insert s n f v rest => exact ⟨h, hdb.eachUrl n v⟩
  | insertFails s n f v rest => cases hc
  | fileDone s n f => exact ⟨Scan.Reads.found h n, hdb⟩
  | remove names n _ => exact ⟨trivial, hdb.remove n⟩
  | removeFails names n st _ hst => exact absurd (of_decide_eq_true hc) hst
  | finish => exact ⟨trivial, hdb⟩

end

/-! ### Runs that overlap -/

section

variable {A : Set ℕ} {D : ℕ → Text} {w w' : Fleet} {fs : FileSys} {e : FleetEvent}
  {es : List FleetEvent}

/-- The invariant of runs that nothing disturbs. -/
structure Steady (A : Set ℕ) (D : ℕ → Text) (fs : FileSys) (w : Fleet) : Prop where
  referential : w.db.Referential
  within : ∀ j ∈ A, (w.procs j).Within (D j)
  reads : ∀ j ∈ A, (w.procs j).Reads fs (D j) w.db
  unedited : ∀ j ∈ A, Unedited fs (D j) w.db
  idle : ∀ j, j ∉ A → w.procs j = .finished

theorem Steady.apart (h : Steady A D fs w) (he : Undisturbed fs e) (hs : w.step e = some w') :
    Apart A D w e := by
  obtain ⟨i, c, rfl, -⟩ := he
  have hi : i ∈ A := by
    by_contra hi
    rw [Fleet.step, h.idle i hi] at hs
    cases hs
  refine ⟨hi, ?_⟩
  rintro _ _ _ ⟨⟩
  have hreads := h.reads i hi
  cases hp : w.procs i with
  | start arg =>
    rw [hp] at hreads
    exact hreads
  | stamping s n t =>
    rw [hp] at hreads
    simp [Pc.Apart, hreads.2.2.2]
  | _ => trivial

theorem Steady.step (h : Steady A D fs w) (hsep : Separate A D) (hfit : ∀ i ∈ A, TimesFit fs (D i))
    (he : Undisturbed fs e) (hs : w.step e = some w') : Steady A D fs w' := by
  obtain ⟨hi, hapart⟩ := h.apart he hs
  obtain ⟨i, c, rfl, hc⟩ := he
  cases Fleet.step_sound hs with
  | exec _ _ _ db pc hpc =>
    obtain ⟨hpc', hdb, hreg⟩ :=
      (h.within i hi).step (hsep.plain i hi) (hapart i fs c rfl) h.referential hpc
    obtain ⟨hreads, hunedited⟩ := (h.reads i hi).step (h.unedited i hi) (hfit i hi) hc hpc
    -- the files of the other runs stay as they are
    have hother : ∀ j ∈ A, j ≠ i → ∀ n ∈ runNames fs (D j), db.registry n = w.db.registry n := by
      intro j hj hji n hn
      refine hreg n fun hcov => hji ?_
      exact hsep.disjoint j hj i hi n (covers_of_mem_runNames (hsep.plain j hj) hn) hcov
    refine ⟨hdb, within_update h.within hpc', ?_, fun j hj => ?_, fun j hj => ?_⟩
    · refine (Function.forall_update_iff w.procs fun j pc => j ∈ A → pc.Reads fs (D j) db).2
        ⟨fun _ => hreads, fun j hji hj => ?_⟩
      exact (h.reads j hj).congr (hother j hj hji)
    · by_cases hji : j = i
      · exact hji ▸ hunedited
      · exact (h.unedited j hj).congr hdb (hother j hj hji)
    · have hji : j ≠ i := by
        rintro rfl
        exact hj hi
      exact (Function.update_of_ne hji _ _).trans (h.idle j hj)

/-- A run on its own that ends has done all that a run does. -/
theorem completes_of_alone {i : ℕ}
    (h : Run Fleet.step (fun _ e => Undisturbed fs e ∧ e.proc = i) w es w')
    (hfin : w'.procs i = .finished) : Completes fs w.db (w.procs i) w'.db := by
  induction h with
  | nil w =>
    rw [hfin]
    exact rfl
  | cons hG hs _ ih =>
    obtain ⟨⟨j, c, rfl, hc⟩, hj⟩ := hG
    obtain rfl : j = i := hj
    cases Fleet.step_sound hs with
    | exec _ _ _ db pc hpc =>
      have hrest := ih hfin
      simp only [Function.update_self] at hrest
      exact hrest.of_step hpc hc

end

/-! ### One after the other -/

section

variable {A : Set ℕ} {arg : ℕ → Text} {fs : FileSys} {db : Database} {n : Text}

theorem Registry.afterRun_congr {r r' : Registry} {D : Text} (h : r' n = r n) :
    Registry.afterRun fs D r' n = Registry.afterRun fs D r n := by
  rw [afterRun, afterRun, h]

theorem Registry.afterRun_of_not_covers {r : Registry} {D : Text}
    (hD : gStrHasSuffix D ['/', '/'] = false) (h : ¬ Covers D n) :
    Registry.afterRun fs D r n = r n := by
  have hn : n ∉ runNames fs D := fun hn => h (covers_of_mem_runNames hD hn)
  rw [Covers] at h
  rw [afterRun_of_not_mem hn, if_neg h]

/-- Complete runs one after the other leave of each file what the run on its directory leaves. -/
theorem registry_foldl_updateDirectory {order : List ℕ} (hnd : order.Nodup)
    (hA : ∀ i ∈ order, i ∈ A) (hsep : Separate A fun i => settleDirname fs (arg i))
    (hfit : ∀ i ∈ A, TimesFit fs (settleDirname fs (arg i)))
    (hdb : ∀ i ∈ order, Unedited fs (settleDirname fs (arg i)) db) :
    (∀ i ∈ order, Covers (settleDirname fs (arg i)) n →
      (order.foldl (fun db i => updateDirectory fs db (arg i)) db).registry n =
        Registry.afterRun fs (settleDirname fs (arg i)) db.registry n) ∧
    ((∀ i ∈ order, ¬ Covers (settleDirname fs (arg i)) n) →
      (order.foldl (fun db i => updateDirectory fs db (arg i)) db).registry n = db.registry n) := by
  induction order generalizing db with
  | nil => exact ⟨fun _ hi => absurd hi List.not_mem_nil, fun _ => rfl⟩
  | cons i order ih =>
    obtain ⟨hiorder, hnd⟩ := List.nodup_cons.1 hnd
    have hi : i ∈ A := hA i List.mem_cons_self
    have hne : ∀ j ∈ order, j ≠ i := by
      rintro j hj rfl
      exact hiorder hj
    obtain ⟨hreg, href⟩ := (completes_updateDirectory fs db (arg i)).registry_eq
      (hdb i List.mem_cons_self) (hfit i hi)
    have hkeep : ∀ m, ¬ Covers (settleDirname fs (arg i)) m →
        (updateDirectory fs db (arg i)).registry m = db.registry m := fun m hm =>
      hreg ▸ Registry.afterRun_of_not_covers (hsep.plain i hi) hm
    have hdb' : ∀ j ∈ order, Unedited fs (settleDirname fs (arg j))
        (updateDirectory fs db (arg i)) := by
      intro j hj
      have hjA : j ∈ A := hA j (List.mem_cons_of_mem i hj)
      refine (hdb j (List.mem_cons_of_mem i hj)).congr href fun m hm => hkeep m fun hcov => ?_
      have hcov' := covers_of_mem_runNames (hsep.plain j hjA) hm
      exact hne j hj (hsep.disjoint j hjA i hi m hcov' hcov)
    obtain ⟨hmem, hnot⟩ := ih hnd (fun j hj => hA j (List.mem_cons_of_mem i hj)) hdb'
    constructor
    · intro j hj hcov
      rcases List.mem_cons.1 hj with rfl | hj
      · rw [List.foldl_cons, hnot, hreg]
        intro k hk hcov'
        exact hne k hk (hsep.disjoint k (hA k (List.mem_cons_of_mem j hk)) j hi n hcov' hcov)
      · rw [List.foldl_cons, hmem j hj hcov]
        refine Registry.afterRun_congr (hkeep n fun hcov' => hne j hj ?_)
        exact hsep.disjoint j (hA j (List.mem_cons_of_mem i hj)) i hi n hcov hcov'
    · intro hno
      rw [List.foldl_cons, hnot fun j hj => hno j (List.mem_cons_of_mem i hj)]
      exact hkeep n (hno i List.mem_cons_self)

/-- **Overlapping runs come to the same as runs one after the other**, in whatever order: if nothing
disturbs them and no file of theirs has been edited since it was registered, they leave every file
with the registration it would have then, however their steps are interleaved. -/
theorem registry_of_overlapping (arg : ℕ → Text) (fs : FileSys) (w w' : Fleet)
    (es : List FleetEvent) (order : List ℕ) (hnd : order.Nodup)
    (hsep : Separate {i | i ∈ order} fun i => settleDirname fs (arg i))
    (hfit : ∀ i ∈ order, TimesFit fs (settleDirname fs (arg i))) (href : w.db.Referential)
    (hdb : ∀ i ∈ order, Unedited fs (settleDirname fs (arg i)) w.db)
    (hstart : ∀ i, w.procs i = if i ∈ order then .start (arg i) else .finished)
    (h : Run Fleet.step (fun _ e => Undisturbed fs e) w es w')
    (hfin : ∀ i ∈ order, w'.procs i = .finished) :
    w'.db.registry =
      (order.foldl (fun db i => updateDirectory fs db (arg i)) w.db).registry := by
  have hprocs : ∀ i ∈ order, w.procs i = .start (arg i) := fun i hi => by rw [hstart, if_pos hi]
  have hsteady : Steady {i | i ∈ order} (fun i => settleDirname fs (arg i)) fs w := by
    refine ⟨href, fun i hi => ?_, fun i hi => ?_, hdb, fun i hi => (hstart i).trans (if_neg hi)⟩
    · rw [hprocs i hi]
      trivial
    · rw [hprocs i hi]
      rfl
  have hrun := h.of_invariant hsteady (fun _ _ _ hv he hs => hv.step hsep hfit he hs)
    fun _ _ _ hv he hs => hv.apart he hs
  funext n
  obtain ⟨hmem, hnot⟩ := registry_foldl_updateDirectory (n := n) hnd (fun _ hi => hi) hsep hfit hdb
  by_cases hcov : ∃ i ∈ order, Covers (settleDirname fs (arg i)) n
  · -- what becomes of the file, its run would have done alone
    obtain ⟨i, hi, hcov⟩ := hcov
    obtain ⟨v, hv, hpurged⟩ := (Purged.refl hsteady.within href).exists_run hi hsep hrun
    have halone : Run Fleet.step (fun _ e => Undisturbed fs e ∧ e.proc = i) w
        (es.filter fun e => e.proc = i) v := by
      refine hv.of_mem.mono fun _ e he => ?_
      obtain ⟨he, hi⟩ := List.mem_filter.1 he.2
      obtain ⟨_, _, _, _, _, hund, _⟩ := h.exists_of_mem he
      exact ⟨hund, of_decide_eq_true hi⟩
    have hc := completes_of_alone halone (hpurged.same.eq_finished (hfin i hi))
    rw [hprocs i hi] at hc
    rw [hmem i hi hcov, ← hpurged.agrees.registry n hcov, (hc.registry_eq (hdb i hi) (hfit i hi)).1]
  · have hno : ∀ i ∈ order, ¬ Covers (settleDirname fs (arg i)) n := fun i hi hc =>
      hcov ⟨i, hi, hc⟩
    rw [hnot hno]
    refine (h.invariant (I := fun v => v.db.registry n = w.db.registry n ∧
      Steady {i | i ∈ order} (fun i => settleDirname fs (arg i)) fs v) ⟨rfl, hsteady⟩ ?_).1
    rintro v e v' ⟨hreg, hv⟩ he hs
    refine ⟨?_, hv.step hsep hfit he hs⟩
    obtain ⟨hi, hapart⟩ := hv.apart he hs
    obtain ⟨i, c, rfl, -⟩ := he
    cases Fleet.step_sound hs with
    | exec _ _ _ db pc hpc =>
      obtain ⟨-, -, hkeep⟩ := (hv.within i hi).step (hsep.plain i hi) (hapart i fs c rfl)
        hv.referential hpc
      exact (hkeep n (hno i hi)).trans hreg

end

theorem undisturbed_bothStep {c c' : Choice} (hc : c.succeeds = true) (hc' : c'.succeeds = true) :
    ∀ e ∈ bothStep c c', Undisturbed twoDirs e := by
  intro e he
  simp only [bothStep, List.mem_cons, List.not_mem_nil, or_false] at he
  rcases he with rfl | rfl
  · exact ⟨0, c, rfl, hc⟩
  · exact ⟨1, c', rfl, hc'⟩

theorem undisturbed_sideBySide : ∀ e ∈ sideBySide, Undisturbed twoDirs e := by
  simp only [sideBySide, List.forall_mem_append]
  refine ⟨⟨⟨⟨⟨⟨⟨⟨⟨⟨?_, ?_⟩, ?_⟩, ?_⟩, ?_⟩, ?_⟩, ?_⟩, ?_⟩, ?_⟩, ?_⟩, ?_⟩
  all_goals exact undisturbed_bothStep rfl rfl

/-- Step by step in turn the two runs register what they register one after the other. -/
theorem registry_of_overlapping_sideBySide : ∃ w,
    run Fleet.step twoRuns sideBySide = some w ∧
    w.db.registry = (updateDirectory twoDirs (updateDirectory twoDirs .empty "/d".toList)
      "/e".toList).registry := by
  have hsettle : (fun i => settleDirname twoDirs (twoArgs i)) = twoArgs := by
    funext i
    by_cases hi : i = 0
    · rw [hi]
      decide
    · simp only [twoArgs, if_neg hi]
      decide
  have hsep : Separate {i | i ∈ [0, 1]} fun i => settleDirname twoDirs (twoArgs i) := by
    rw [hsettle]
    exact separate_twoArgs
  have hfit : ∀ D, TimesFit twoDirs D := by
    intro D n _ f hf
    simp only [twoDirs] at hf
    split_ifs at hf <;> cases hf <;> decide
  have hnew : ∀ D, Unedited twoDirs D .empty := fun D =>
    ⟨Database.referential_empty, fun n _ g hg => by simp at hg⟩
  obtain ⟨w, hw⟩ := Option.isSome_iff_exists.1
    (show (run Fleet.step twoRuns sideBySide).isSome by decide)
  have hfin : ∀ i ∈ [0, 1], w.procs i = .finished := by
    have hboth : (run Fleet.step twoRuns sideBySide).map (fun w =>
        (w.procs 0).isFinished && (w.procs 1).isFinished) = some true := by decide
    rw [hw, Option.map_some, Option.some.injEq, Bool.and_eq_true, Pc.isFinished_iff,
      Pc.isFinished_iff] at hboth
    simpa using hboth
  have hrun : Run Fleet.step (fun _ _ => True) twoRuns sideBySide w :=
    @Run.of_run _ _ _ _ _ _ _ (fun _ _ => true) (fun _ _ _ => trivial) hw
  exact ⟨w, hw, registry_of_overlapping twoArgs twoDirs twoRuns w sideBySide [0, 1] (by decide)
    hsep (fun _ _ => hfit _) Database.referential_empty
    (fun _ _ => hnew _) (fun _ => rfl)
    (hrun.of_mem.mono fun _ e he => undisturbed_sideBySide e he.2) hfin⟩

end UrlDispatcher
