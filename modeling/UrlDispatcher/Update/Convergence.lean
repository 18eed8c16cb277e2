import UrlDispatcher.Update.Concurrent

/-!
# After the last change

Once the files do not change any more, one run that starts then brings the database up to date, in
whatever order its steps and those of older runs come: when all runs are over, the entries stored
under each name are those of the newest version, and every file is known (`Newest`).  Older runs may
still forget a file that has come back since they listed the directory; that they do not
(`KeepsPresent`) is the second condition.

* `Converging` : what holds while that run is at some point.
* `consistent_of_run` : both halves together, from an empty database.
-/

namespace UrlDispatcher

open Sql GLib Machine

/-- A file on disk is not removed from the database. -/
def KeepsPresent (w : Many) (e : ManyEvent) : Prop :=
  ∀ i n st, e = .exec i (.remove n st) → w.fs.file n = none

/-- The entries stored under each name are those of the newest version, and every file of `D` is
known. -/
def Newest (D : Text) (w : Many) : Prop :=
  (∀ n g, w.db.registry n = some g → ∃ f, w.newest n = some f ∧ g.entries = f.entries) ∧
    ∀ name ∈ w.fs.entries D, gStrHasSuffix name urlDispatcherSuffix = true →
      (w.db.registry (gBuildFilename D name)).isSome = true

/-- The file has an owner, which has read nothing but what is on disk now. -/
def OwnedNow (fs : FileSys) (owner : Text → Option Owner) (n : Text) : Prop :=
  ∃ o, owner n = some o ∧ ∀ f, o.version = some f → fs.file n = some f

theorem OwnedNow.step {fs : FileSys} {owner : Text → Option Owner} {n : Text} {i : ℕ} {pc : Pc}
    {c : Choice} (h : OwnedNow fs owner n) (hk : ∀ st, c ≠ .remove n st) :
    OwnedNow fs (recordOwner fs i pc c owner) n := by
  unfold recordOwner
  split
  · next m _ =>
    by_cases hnm : n = m
    · exact ⟨_, by rw [hnm, Function.update_self], by rintro _ ⟨⟩⟩
    · rwa [OwnedNow, Function.update_of_ne hnm]
  · next m =>
    split_ifs
    · by_cases hnm : n = m
      · exact ⟨_, by rw [hnm, Function.update_self], fun f hf => by rw [hnm]; exact hf⟩
      · rwa [OwnedNow, Function.update_of_ne hnm]
    · exact h
  · next m st =>
    split_ifs
    · have hnm : n ≠ m := by
        rintro rfl
        exact hk st rfl
      rwa [OwnedNow, Function.update_of_ne hnm]
    · exact h
  · exact h

/-- A version of a file that is not on disk has been read before. -/
theorem owner_of_recordOwner {fs : FileSys} {owner : Text → Option Owner} {n : Text} {i j : ℕ}
    {pc : Pc} {c : Choice} {f : File} (hf : fs.file n = none)
    (h : recordOwner fs i pc c owner n = some ⟨j, some f⟩) : owner n = some ⟨j, some f⟩ := by
  unfold recordOwner at h
  split at h
  · next m _ =>
    by_cases hnm : n = m
    · rw [hnm, Function.update_self] at h
      cases h
    · rwa [Function.update_of_ne hnm] at h
  · next m =>
    split_ifs at h
    · by_cases hnm : n = m
      · rw [← hnm, Function.update_self, hf] at h
        cases h
      · rwa [Function.update_of_ne hnm] at h
    · exact h
  · next m st =>
    split_ifs at h
    · by_cases hnm : n = m
      · rw [hnm, Function.update_self] at h
        cases h
      · rwa [Function.update_of_ne hnm] at h
    · exact h
  · exact h

/-! ### The run that starts after the last change -/

/-- The loop over the directory, if the run is in it. -/
def Pc.scan : Pc → Option Scan
  | .scanning s => some s
  | .checking s _ => some s
  | .stamping s _ _ => some s
  | .reading s _ => some s
  | .inserting s _ _ _ => some s
  | _ => none

/-- The run has yet to decide about the entry `name` of `D`. -/
def Pc.Ahead (D name : Text) : Pc → Prop
  | .start _ => True
  | .listing _ => True
  | .opening _ _ => True
  | .scanning s => name ∈ s.unread
  | .checking s n => n = gBuildFilename D name ∨ name ∈ s.unread
  | .stamping s n _ => n = gBuildFilename D name ∨ name ∈ s.unread
  | .reading s _ => name ∈ s.unread
  | .inserting s _ _ _ => name ∈ s.unread
  | .removing _ => False
  | .finished => False

/-- The run is going to remove the file `n`. -/
def Pc.Drops (n : Text) : Pc → Prop
  | .start _ => True
  | .listing _ => True
  | .opening _ startingdb => n ∈ startingdb
  | .scanning s => n ∈ s.startingdb
  | .checking s m => n ∈ s.startingdb ∧ n ≠ m
  | .stamping s m _ => n ∈ s.startingdb ∧ n ≠ m
  | .reading s m => n ∈ s.startingdb ∧ n ≠ m
  | .inserting s m _ _ => n ∈ s.startingdb ∧ n ≠ m
  | .removing names => n ∈ names
  | .finished => False

/-- What holds while the run that started after the last change is at `pc`. -/
structure Converging (D : Text) (w : Many) (pc : Pc) : Prop where
  unread : ∀ s, pc.scan = some s → ∀ name ∈ s.unread, name ∈ w.fs.entries D
  present : ∀ name ∈ w.fs.entries D, gStrHasSuffix name urlDispatcherSuffix = true →
    pc.Ahead D name ∨ OwnedNow w.fs w.owner (gBuildFilename D name)
  gone : ∀ n j f, w.fs.file n = none → w.owner n = some ⟨j, some f⟩ → pc.Drops n

theorem like_of_handlerFileIn {D n : Text} (hD : gStrHasSuffix D ['/', '/'] = false)
    (h : HandlerFileIn D n) : like (D ++ ['%']) n = true := by
  obtain ⟨name, hc, -, rfl⟩ := h
  obtain ⟨r, hr⟩ := exists_append_of_single hD hc
  rw [hr]
  exact like_prefix _ _

/-- A file that counts as up to date has an owner that has read it as it is now. -/
theorem Consistent.ownedNow_of_upToDate {D : Text} {w : Many} (h : Consistent D w) {n : Text}
    {F : File} (hF : w.fs.file n = some F)
    (hu : upToDate .done w.db n (w.fs.filetime n) = true) : OwnedNow w.fs w.owner n := by
  obtain ⟨g, hg, hle⟩ := upToDate_iff.1 hu
  have hsome : (w.owner n).isSome = true := by rw [h.owned, hg]; rfl
  obtain ⟨⟨i, v⟩, ho⟩ := Option.isSome_iff_exists.1 hsome
  refine ⟨_, ho, ?_⟩
  rintro f rfl
  have hr := h.read n i f g ho hg
  obtain ⟨f', hf', hor⟩ := hr.newest
  rw [h.seen n F hF, Option.some.injEq] at hf'
  subst hf'
  rw [FileSys.filetime, hF] at hle
  -- a later version would not count as up to date
  rcases hor with rfl | hlt
  · exact hF
  · have hst := hr.stamp
    dsimp only at hle
    omega

namespace Converging

variable {D : Text} {w : Many} {p : ℕ}

theorem start : Converging D w (.start D) where
  unread _ h := by cases h
  present _ _ _ := .inl trivial
  gone _ _ _ _ _ := trivial

/-- A step of another run does not disturb the run. -/
theorem other {pc : Pc} (h : Converging D w pc) (hc : Consistent D w) {i : ℕ} {q q' : Pc}
    {c : Choice} {db : Database}
    (hk : ∀ n st, c = .remove n st → w.fs.file n = none) :
    Converging D (w.afterExec i q c db q') pc where
  unread := h.unread
  present name hname hs := by
    refine (h.present name hname hs).imp_right fun ho => ho.step fun st he => ?_
    have hfile := (hc.listed name (w.fs.component D name hname) hs).1 hname
    rw [hk _ st he] at hfile
    cases hfile
  gone n j f hf ho := h.gone n j f hf (owner_of_recordOwner hf ho)

/-- The run moves on in a world that stays as it is. -/
theorem advance {pc pc' : Pc} (h : Converging D w pc)
    (hu : ∀ s, pc'.scan = some s → ∀ name ∈ s.unread, name ∈ w.fs.entries D)
    (ha : ∀ name ∈ w.fs.entries D, gStrHasSuffix name urlDispatcherSuffix = true →
      pc.Ahead D name → pc'.Ahead D name ∨ OwnedNow w.fs w.owner (gBuildFilename D name))
    (hd : ∀ n j f, w.fs.file n = none → w.owner n = some ⟨j, some f⟩ → pc.Drops n → pc'.Drops n) :
    Converging D w pc' where
  unread := hu
  present name hname hs := (h.present name hname hs).elim (ha name hname hs) .inr
  gone n j f hf ho := hd n j f hf ho (h.gone n j f hf ho)

/-- What is unread has been an entry since the directory was opened, and the files do not change. -/
theorem unread_of_step {pc pc' : Pc} (h : Converging D w pc) {c : Choice} {db : Database}
    (hon : pc.On D) (hs : Pc.Step w.fs w.db pc c db pc') :
    ∀ s, pc'.scan = some s → ∀ name ∈ s.unread, name ∈ w.fs.entries D := by
  have hu := h.unread
  cases hs with
  | openDir dirname startingdb _ =>
    obtain rfl : dirname = D := hon
    rintro _ ⟨⟩ name hname
    exact hname
  | readFile s name' _ _ _ | skipName s name' _ _ _ =>
    rintro _ ⟨⟩ name hname
    exact hu s rfl name (List.mem_of_mem_filter hname)
  | settle _ | list _ _ | noDir _ _ _ | endOfDir _ _ | remove _ _ _ | removeFails _ _ _ _ _
  | finish => rintro _ ⟨⟩
  | current s _ _ _ | outdated s _ _ _ | stamp s _ _ | stampFails s _ _ | readContent s _ _ _
  | unreadable s _ _ | insert s _ _ _ _ | insertFails s _ _ _ _ | fileDone s _ _ =>
    rintro _ ⟨⟩
    exact hu s rfl

/-- An entry stops being ahead when its file is stamped or found up to date. -/
theorem ahead_of_step {pc pc' : Pc} (hc : Consistent D w) {c : Choice} {db : Database}
    (hon : pc.On D) (hs : Pc.Step w.fs w.db pc c db pc') (hsucc : c.succeeds = true) :
    ∀ name ∈ w.fs.entries D, gStrHasSuffix name urlDispatcherSuffix = true → pc.Ahead D name →
      pc'.Ahead D name ∨
        OwnedNow w.fs (recordOwner w.fs p pc c w.owner) (gBuildFilename D name) := by
  intro name hname hsuf ha
  cases hs with
  | settle _ | list _ _ => exact .inl trivial
  | openDir dirname startingdb _ =>
    obtain rfl : dirname = D := hon
    exact .inl hname
  | noDir dirname startingdb hdir =>
    obtain rfl : dirname = D := hon
    rw [hc.dir] at hdir
    cases hdir
  | readFile s name' hcomp hin hs' =>
    obtain rfl : s.dirname = D := hon
    by_cases hne : name = name'
    · exact .inl (.inl (by rw [hne]))
    · exact .inl (.inr (List.mem_filter.2 ⟨ha, by simpa using hne⟩))
  | skipName s name' _ _ hs' =>
    have hne : name ≠ name' := by
      rintro rfl
      rw [hs'] at hsuf
      cases hsuf
    exact .inl (List.mem_filter.2 ⟨ha, by simpa using hne⟩)
  | endOfDir s hall =>
    obtain rfl : s.dirname = D := hon
    exact absurd hname (hall name ha)
  | current s n st hu =>
    rcases ha with rfl | ha
    · obtain rfl : st = .done := of_decide_eq_true hsucc
      have hfile := (hc.listed name (w.fs.component D name hname) hsuf).1 hname
      obtain ⟨F, hF⟩ := Option.isSome_iff_exists.1 hfile
      exact .inr (hc.ownedNow_of_upToDate hF hu)
    · exact .inl ha
  | outdated s n st _ => exact .inl ha
  | stamp s n t =>
    rcases ha with rfl | ha
    · exact .inr ⟨_, Function.update_self _ _ _, by rintro _ ⟨⟩⟩
    · exact .inl ha
  | stampFails _ _ _ | insertFails _ _ _ _ _ => cases hsucc
  | readContent _ _ _ _ | unreadable _ _ _ | insert _ _ _ _ _ | fileDone _ _ _ => exact .inl ha
  | remove _ _ _ | removeFails _ _ _ _ _ | finish => exact ha.elim

/-- A file that is gone is listed, never found, and removed. -/
theorem drops_of_step {pc pc' : Pc} (h : Converging D w pc) (hc : Consistent D w)
    (hD : gStrHasSuffix D ['/', '/'] = false) {c : Choice} {db : Database} (hon : pc.On D)
    (hs : Pc.Step w.fs w.db pc c db pc') (hsucc : c.succeeds = true) :
    ∀ n j f, w.fs.file n = none → recordOwner w.fs p pc c w.owner n = some ⟨j, some f⟩ →
      pc.Drops n → pc'.Drops n := by
  intro n j f hf ho hd
  cases hs with
  | settle _ => trivial
  | list dirname st =>
    obtain rfl : dirname = D := hon
    obtain rfl : st = .done := of_decide_eq_true hsucc
    have hsome : (w.owner n).isSome = true := Option.isSome_iff_exists.2 ⟨_, ho⟩
    exact mem_urlDbFilesForDir.2
      ⟨by rw [← hc.owned, hsome], like_of_handlerFileIn hD (hc.named n hsome)⟩
  | openDir _ _ _ | noDir _ _ _ | skipName _ _ _ _ _ | endOfDir _ _ | outdated _ _ _ _
  | stamp _ _ _ | readContent _ _ _ _ | insert _ _ _ _ _ => exact hd
  | readFile s name' hcomp hin hs' =>
    obtain rfl : s.dirname = D := hon
    refine ⟨hd, ?_⟩
    -- the file read is on disk, and `n` is not
    rintro rfl
    have hname := hin.elim (h.unread s rfl name') id
    have hfile := (hc.listed name' hcomp hs').1 hname
    rw [show w.fs.file _ = none from hf] at hfile
    cases hfile
  | current s m _ _ | unreadable s m _ | fileDone s m _ =>
    exact List.mem_filter.2 ⟨hd.1, by simpa using hd.2⟩
  | stampFails _ _ _ | insertFails _ _ _ _ _ => cases hsucc
  | remove names m _ =>
    refine List.mem_filter.2 ⟨hd, ?_⟩
    rw [decide_eq_true_eq]
    rintro rfl
    have hself : recordOwner w.fs p (.removing names) (.remove n .allDone) w.owner n = none :=
      Function.update_self _ _ _
    cases hself.symm.trans ho
  | removeFails _ _ _ _ hst => exact absurd (of_decide_eq_true hsucc) hst
  | finish => cases hd

/-- The run itself makes a step: what it decides about an entry leaves the entry's file owned. -/
theorem own {pc pc' : Pc} (h : Converging D w pc) (hc : Consistent D w)
    (hD : gStrHasSuffix D ['/', '/'] = false) {c : Choice} {db : Database} (hon : pc.On D)
    (hs : Pc.Step w.fs w.db pc c db pc') (hsucc : c.succeeds = true)
    (hk : ∀ n st, c = .remove n st → w.fs.file n = none) :
    Converging D (w.afterExec p pc c db pc') pc' :=
  (h.other hc hk).advance (h.unread_of_step hon hs) (ahead_of_step hc hon hs hsucc)
    (h.drops_of_step hc hD hon hs hsucc)

/-- **The newest version.**  When all runs are over, the database is up to date. -/
theorem newest (h : Converging D w .finished) (hc : Consistent D w) (hfin : AllFinished w) :
    Newest D w := by
  refine ⟨fun n g hg => ?_, fun name hname hs => ?_⟩
  · have hsome : (w.owner n).isSome = true := by rw [hc.owned, hg]; rfl
    obtain ⟨⟨i, v⟩, ho⟩ := Option.isSome_iff_exists.1 hsome
    obtain ⟨name, hcomp, hs, rfl⟩ := hc.named n hsome
    cases v with
    | none =>
      obtain ⟨s, hp⟩ := hc.unread _ i ho
      cases hfin i _ hp
    | some f =>
      -- the version read is the one on disk, since the run has decided about the file
      have hr := hc.read _ i f g ho hg
      cases hF : w.fs.file (gBuildFilename D name) with
      | none => exact (h.gone _ i f hF ho).elim
      | some F =>
        have hname := (hc.listed name hcomp hs).2 (by rw [hF]; rfl)
        obtain ⟨o, ho', hv⟩ := (h.present name hname hs).resolve_left id
        rw [ho, Option.some.injEq] at ho'
        subst ho'
        rw [hv f rfl, Option.some.injEq] at hF
        subst hF
        refine ⟨f, hc.seen _ f (hv f rfl), hr.sound.antisymm ?_⟩
        rcases hr.complete with hco | ⟨s, rest, hp, -⟩
        · exact hco
        · cases hfin i _ hp
  · obtain ⟨o, ho, -⟩ := (h.present name hname hs).resolve_left id
    rw [← hc.owned, ho]
    rfl

end Converging

/-! ### Runs -/

/-- When all runs are over no file has entries of two versions, and if one of them started after the
last change the database is up to date: in every history whose steps meet `G`, and `G'` from that
start on. -/
def AlwaysConsistent (D : Text) (fs : FileSys) (G G' : Many → ManyEvent → Prop) : Prop :=
  (∀ es w, Run (Many.step D) G (.init fs) es w → AllFinished w → OneVersion w) ∧
  ∀ es p es' w₁ w, Run (Many.step D) G (.init fs) es w₁ →
    Run (Many.step D) (fun w e => G' w e ∧ ∀ fs, e ≠ .change fs) w₁ (.launch p :: es') w →
    AllFinished w → Newest D w

theorem consistent_of_run {D : Text} {fs : FileSys} (hD : fs.isDir D = true)
    (hl : FilesListed D fs) {es : List ManyEvent} {w : Many}
    (h : Run (Many.step D) (fun w e => NoFailure D w e ∧ NoMixture w e) (.init fs) es w) :
    Consistent D w :=
  h.invariant (Consistent.init hD hl) fun _ _ _ hc hG hs => hc.step hG.1 hG.2 hs

theorem Converging.step {D : Text} {w w' : Many} {p : ℕ} {e : ManyEvent}
    (hD : gStrHasSuffix D ['/', '/'] = false) (hc : Consistent D w)
    (h : ∃ pc, w.procs p = some pc ∧ Converging D w pc) (hN : NoFailure D w e)
    (hK : KeepsPresent w e) (hch : ∀ fs, e ≠ .change fs) (hs : w.step D e = some w') :
    ∃ pc, w'.procs p = some pc ∧ Converging D w' pc := by
  obtain ⟨pc, hp, hv⟩ := h
  cases Many.step_sound hs with
  | change fs => exact absurd rfl (hch fs)
  | launch i hi =>
    have hpi : p ≠ i := by
      rintro rfl
      rw [hi] at hp
      cases hp
    exact ⟨pc, by rw [Many.procs_setProc_of_ne hpi, hp], hv.unread, hv.present, hv.gone⟩
  | exec i c q q' db hq hpc =>
    have hk : ∀ n st, c = .remove n st → w.fs.file n = none := by
      rintro n st rfl
      exact hK i n st rfl
    -- a step of the run itself, or of another one
    by_cases hpi : p = i
    · subst hpi
      rw [hp, Option.some.injEq] at hq
      subst hq
      exact ⟨q', Many.procs_setProc_self, hv.own hc hD (hc.on p pc hp) hpc hN hk⟩
    · exact ⟨pc, (Many.procs_setProc_of_ne hpi).trans hp, hv.other hc hk⟩

/-- **Concurrent runs do not mix versions** in any order of steps in which no version is mixed with
another; and they bring the database up to date after the last change, if from then on no file on
disk is removed and `D` does not end in two separators. -/
theorem alwaysConsistent (D : Text) (fs : FileSys) (hdir : fs.isDir D = true)
    (hl : FilesListed D fs) :
    AlwaysConsistent D fs (fun w e => NoFailure D w e ∧ NoMixture w e)
      (fun w e => (NoFailure D w e ∧ NoMixture w e) ∧ KeepsPresent w e ∧
        gStrHasSuffix D ['/', '/'] = false) := by
  refine ⟨fun es w h hfin => (consistent_of_run hdir hl h).oneVersion hfin,
    fun es p es' w₁ w h h' hfin => ?_⟩
  have hc₁ := consistent_of_run hdir hl h
  cases h' with
  | cons hG hs h' =>
    rename_i w₂
    have hc₂ := hc₁.step hG.1.1.1 hG.1.1.2 hs
    have hp₂ : ∃ pc, w₂.procs p = some pc ∧ Converging D w₂ pc := by
      cases Many.step_sound hs with
      | launch _ _ => exact ⟨_, Many.procs_setProc_self, Converging.start⟩
    obtain ⟨hc, pc, hp, hv⟩ := h'.invariant
      (I := fun w => Consistent D w ∧ ∃ pc, w.procs p = some pc ∧ Converging D w pc) ⟨hc₂, hp₂⟩
      fun w e w' hI hG hs => ⟨hI.1.step hG.1.1.1 hG.1.1.2 hs,
        Converging.step hG.1.2.2 hI.1 hI.2 hG.1.1.1 hG.1.2.1 hG.2 hs⟩
    obtain rfl := hfin p pc hp
    exact hv.newest hc hfin

/-! ### Two runs -/

theorem filesListed_pairDir (a b : Option File) : FilesListed "/d".toList (pairDir a b) := by
  intro name hc hs
  have hb : gBuildFilename "/d".toList name = "/d/".toList ++ name :=
    gBuildFilename_of_plain (by decide) (by decide) hc
  have heq : ∀ m : Text, "/d/".toList ++ name = "/d/".toList ++ m ↔ name = m := fun m =>
    List.append_right_inj _
  have ha' := heq "a.url-dispatcher".toList
  have hb' := heq "b.url-dispatcher".toList
  rw [hb]
  simp only [pairDir, ↓reduceIte]
  rw [show "/d/a.url-dispatcher".toList = "/d/".toList ++ "a.url-dispatcher".toList from rfl,
    show "/d/b.url-dispatcher".toList = "/d/".toList ++ "b.url-dispatcher".toList from rfl]
  simp only [ha', hb']
  split_ifs with h1 h2
  · subst h1
    cases a <;> cases b <;> simp
  · subst h2
    cases a <;> cases b <;> simp
  · simp at h1 h2
    cases a <;> cases b <;> simp [h1, h2]

/-- A sufficient check of the conditions for one step, while nothing is stored before a read. -/
def mixesNothing (w : Many) : ManyEvent → Bool
  | .change _ => false
  | .launch _ => true
  | .exec i c => c.succeeds && (match c with
      | .remove _ _ => false
      | _ => true) &&
    match w.procs i with
    | some (.reading _ n) =>
      (w.fs.file n).any fun f => w.db.urls.rows.isEmpty &&
        (urlDbGetFileMotificationTime .done w.db n).all fun t => decide (t ≤ f.mtime)
    | some (.inserting _ n _ (v :: _)) =>
      match w.owner n with
      | some ⟨_, some f⟩ => f.elements.any fun v' => decide (acceptedEntry v' = acceptedEntry v)
      | _ => true
    | _ => true

theorem mixesNothing_sound {D : Text} {w : Many} {e : ManyEvent} (h : mixesNothing w e = true) :
    ((NoFailure D w e ∧ NoMixture w e) ∧ KeepsPresent w e) ∧ ∀ fs, e ≠ .change fs := by
  cases e with
  | change fs => cases h
  | launch i =>
    exact ⟨⟨⟨trivial, by rintro _ _ _ _ ⟨⟩, by rintro _ _ _ _ _ _ _ ⟨⟩⟩, by rintro _ _ _ ⟨⟩⟩,
      by rintro _ ⟨⟩⟩
  | exec i c =>
    simp only [mixesNothing, Bool.and_eq_true] at h
    obtain ⟨⟨hsucc, hrem⟩, hpc⟩ := h
    refine ⟨⟨⟨hsucc, ?_, ?_⟩, ?_⟩, by rintro _ ⟨⟩⟩
    · rintro _ _ s n ⟨⟩ hp ho
      rw [hp] at hpc
      obtain ⟨f, hf, hand⟩ := (Option.any_eq_true _ _).1 hpc
      rw [Bool.and_eq_true, List.isEmpty_iff, urlDbGetFileMotificationTime_done] at hand
      refine ⟨f, hf, fun g hg => ⟨?_, ?_⟩⟩
      · obtain ⟨c, -, -, -, hr⟩ := Database.registry_eq_some.1 hg
        rw [← hr, Database.entriesAt_eq_empty hand.1]
        exact Set.empty_subset _
      · simpa [hg] using hand.2
    · rintro _ _ s n f v rest ⟨⟩ hp j f' ho e he
      simp only [hp, ho, List.any_eq_true, decide_eq_true_eq] at hpc
      obtain ⟨v', hv', heq⟩ := hpc
      exact ⟨v', hv', heq.trans he⟩
    · rintro _ n st ⟨⟩
      cases hrem

theorem mixesNothing_run {D : Text} {w w' : Many} (es : List ManyEvent)
    (h : run (fun w e => if mixesNothing w e then w.step D e else none) w es = some w') :
    Run (Many.step D) (fun w e => ((NoFailure D w e ∧ NoMixture w e) ∧ KeepsPresent w e) ∧
      ∀ fs, e ≠ .change fs) w es w' :=
  .of_run (fun _ _ => mixesNothing_sound) h

/-- Two runs register the same version of a file at the same time. -/
def together : List ManyEvent :=
  [.exec 0 .tau, .exec 1 .tau, .exec 0 (.stmt .done), .exec 1 (.stmt .done),
    .exec 0 .tau, .exec 1 .tau, .exec 0 (.readName (some "a.url-dispatcher".toList)),
    .exec 1 (.readName (some "a.url-dispatcher".toList)), .exec 0 (.stmt .done),
    .exec 1 (.stmt .done), .exec 0 (.stmt .done), .exec 1 (.stmt .done), .exec 0 .tau,
    .exec 1 .tau, .exec 0 (.stmt .done), .exec 1 (.stmt .done), .exec 0 .tau, .exec 1 .tau,
    .exec 0 (.readName none), .exec 1 (.readName none), .exec 0 .tau, .exec 1 .tau]

/-- The second run starts after the last change, and brings the database up to date. -/
theorem newest_together : ∃ w₁ w,
    Run (Many.step "/d".toList) (fun w e => NoFailure "/d".toList w e ∧ NoMixture w e)
      (.init (pairDir (some (comFile 1)) none)) [.launch 0] w₁ ∧
    Run (Many.step "/d".toList) (fun w e => ((NoFailure "/d".toList w e ∧ NoMixture w e) ∧
      KeepsPresent w e) ∧ ∀ fs, e ≠ .change fs) w₁ (.launch 1 :: together) w ∧
    OneVersion w ∧ Newest "/d".toList w := by
  obtain ⟨hone, hnew⟩ := alwaysConsistent "/d".toList (pairDir (some (comFile 1)) none) rfl
    (filesListed_pairDir _ _)
  have h₁ := mixesNothing_run (D := "/d".toList) [.launch 0]
    (w := .init (pairDir (some (comFile 1)) none)) rfl
  obtain ⟨w, hw, hfin⟩ : ∃ w, run (fun w e => if mixesNothing w e then w.step "/d".toList e
      else none) ((Many.init (pairDir (some (comFile 1)) none)).setProc 0 (.start "/d".toList))
      (.launch 1 :: together) = some w ∧ AllFinished w := by
    refine ⟨_, (Option.some_get (by decide)).symm, fun i pc hi => ?_⟩
    match i with
    | 0 => cases hi; rfl
    | 1 => cases hi; rfl
    | i + 2 => cases hi
  have h₂ := mixesNothing_run _ hw
  exact ⟨_, w, h₁.mono fun _ _ h => h.1.1, h₂,
    hone _ _ ((h₁.append h₂).mono fun _ _ h => h.1.1) hfin,
    hnew _ _ _ _ _ (h₁.mono fun _ _ h => h.1.1)
      (h₂.mono fun _ _ h => ⟨⟨h.1.1, h.1.2, by decide⟩, h.2⟩) hfin⟩

/-- The first run has read a version when the file is edited, and the second run registers the new
one. -/
def beforeEdit : List ManyEvent :=
  [.launch 0, .exec 0 .tau, .exec 0 (.stmt .done), .exec 0 .tau,
    .exec 0 (.readName (some "a.url-dispatcher".toList)), .exec 0 (.stmt .done),
    .exec 0 (.stmt .done), .exec 0 .tau]

/-- The second run registers the file, and then the first run stores what it has read. -/
def afterEdit : List ManyEvent :=
  [.launch 1, .exec 1 .tau, .exec 1 (.stmt .done), .exec 1 .tau,
    .exec 1 (.readName (some "a.url-dispatcher".toList)), .exec 1 (.stmt .done),
    .exec 1 (.stmt .done), .exec 1 .tau, .exec 1 (.stmt .done), .exec 1 .tau,
    .exec 1 (.readName none), .exec 1 .tau,
    .exec 0 (.stmt .done), .exec 0 .tau, .exec 0 (.readName none), .exec 0 .tau]

/-- Launches and successful steps. -/
def ManyEvent.quiet : ManyEvent → Bool
  | .change _ => false
  | .launch _ => true
  | .exec _ c => c.succeeds

theorem noFailure_run {D : Text} {w w' : Many} (es : List ManyEvent)
    (h : run (fun w e => if e.quiet then w.step D e else none) w es = some w') :
    Run (Many.step D) (NoFailure D) w es w' := by
  refine .of_run (fun w e he => ?_) h
  cases e with
  | change _ => cases he
  | launch _ => trivial
  | exec _ c => exact he

theorem noFailure_change {D : Text} {w w' : Many} {fs : FileSys} (es : List ManyEvent)
    (hv : VersionsGrow w.newest fs) (hD : fs.isDir D = true) (hl : FilesListed D fs)
    (h : Run (Many.step D) (NoFailure D) (w.afterChange fs) es w') :
    Run (Many.step D) (NoFailure D) w (.change fs :: es) w' := .cons ⟨hv, hD, hl⟩ rfl h

/-- Two runs on one directory store entries of two versions of a file under its name. -/
theorem not_alwaysConsistent :
    ¬ ∀ D fs, fs.isDir D = true → FilesListed D fs →
      AlwaysConsistent D fs (NoFailure D) (NoFailure D) := by
  intro hall
  obtain ⟨hone, -⟩ := hall "/d".toList (pairDir (some (comFile 1)) none) rfl
    (filesListed_pairDir _ _)
  have h₁ := noFailure_run (w := .init (pairDir (some (comFile 1)) none)) (D := "/d".toList)
    beforeEdit (Option.some_get (by decide)).symm
  have h₂ := h₁.append (noFailure_change afterEdit
    (versionsGrow_pairDir (a := some (suffixFile "a.org".toList 2)) (b := none)
      (by rintro _ _ ⟨⟩ ⟨⟩; right; decide) (by rintro _ _ _ ⟨⟩))
    rfl (filesListed_pairDir _ _) (noFailure_run _ (Option.some_get (by decide)).symm))
  obtain ⟨f, hf, hg⟩ := hone _ _ h₂ (fun i pc hi => by
    match i with
    | 0 => cases hi; rfl
    | 1 => cases hi; rfl
    | i + 2 => cases hi) "/d/a.url-dispatcher".toList _ rfl
  -- both entries are stored, and no version has them both
  have hcom : ("http".toList, "a.com".toList) ∈ f.entries :=
    hg ▸ ⟨⟨2, 2, "http".toList, "a.com".toList⟩, by decide, rfl⟩
  have horg : ("http".toList, "a.org".toList) ∈ f.entries :=
    hg ▸ ⟨⟨1, 2, "http".toList, "a.org".toList⟩, by decide, rfl⟩
  rcases hf with hf | hf
  · cases hf
    obtain ⟨v, hv, he⟩ := horg
    obtain rfl := List.mem_singleton.1 hv
    revert he
    decide
  · cases hf
    obtain ⟨v, hv, he⟩ := hcom
    obtain rfl := List.mem_singleton.1 hv
    revert he
    decide

end UrlDispatcher
