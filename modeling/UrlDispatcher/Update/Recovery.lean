import UrlDispatcher.Update.Refinement
import Mathlib.Algebra.Ring.Int.Defs

/-!
# After an interruption

A run writes the timestamp that vouches for a file before it stores the entries of the file.  If it
is killed in between, or storing an entry fails, the next run takes the file for up to date, and the
entries that are missing stay lost until the file is edited.

* `Vouching` : the invariant that a stored time only vouches for a version of a file all of whose
  entries are stored.
* `allPresent_of_run` : whatever happened before, one complete run on a directory leaves all entries
  of its files in the database, as long as no interruption loses an entry (`LosesNothing`).
-/

namespace UrlDispatcher

open Sql GLib Machine

/-- The entry is stored under the file's name. -/
def Stored (db : Database) (n : Text) (e : Entry) : Prop :=
  ∃ g, db.registry n = some g ∧ e ∈ g.entries

/-- Every entry accepted from a `*.url-dispatcher` file of `D` is stored under the file's name. -/
def AllPresent (fs : FileSys) (db : Database) (D : Text) : Prop :=
  ∀ name ∈ fs.entries D, gStrHasSuffix name urlDispatcherSuffix = true →
    ∀ e ∈ fs.accepted (gBuildFilename D name), Stored db (gBuildFilename D name) e

/-! ### One complete run -/

/-- Files that count as up to date have all their entries stored. -/
def Vouched (fs : FileSys) (db : Database) : Prop :=
  ∀ n g, db.registry n = some g → fs.filetime n ≤ narrow g.stamp → fs.accepted n ⊆ g.entries

/-- The file is known, with all its entries. -/
def Registered (fs : FileSys) (db : Database) (n : Text) : Prop :=
  ∃ g, db.registry n = some g ∧ fs.accepted n ⊆ g.entries

section

variable {fs : FileSys} {db : Database}

theorem Vouched.registered_registerFile (h : Vouched fs db) (n : Text) :
    Registered fs (registerFile fs db n) n := by
  unfold Registered
  rw [registry_registerFile]
  split_ifs with hu
  · obtain ⟨g, hg, ht⟩ := upToDate_iff.1 hu
    exact ⟨g, hg, h n g hg ht⟩
  · exact ⟨_, Function.update_self _ _ _, Set.subset_union_right⟩

theorem Registered.register_other {m n : Text} (h : Registered fs db m) (hmn : m ≠ n) :
    Registered fs (registerFile fs db n) m := by
  rwa [Registered, registry_registerFile_of_ne hmn]

theorem Vouched.register (h : Vouched fs db) (n : Text) : Vouched fs (registerFile fs db n) := by
  intro m g hg ht
  by_cases hmn : m = n
  · subst hmn
    obtain ⟨g', hg', hsub⟩ := h.registered_registerFile m
    rw [hg, Option.some.injEq] at hg'
    rwa [hg']
  · rw [registry_registerFile_of_ne hmn] at hg
    exact h m g hg ht

/-- After the loop every file it has registered is known, with all its entries. -/
theorem Vouched.registered_foldl (h : Vouched fs db) {ns : List Text} {n : Text} (hn : n ∈ ns) :
    Registered fs (ns.foldl (registerFile fs) db) n :=
  foldl_establishes (I := Vouched fs) (P := fun db => Registered fs db n)
    (fun _ m hv => hv.register m) (fun _ hv => hv.registered_registerFile n)
    (fun _ m hv hr => by
      by_cases hnm : n = m
      · exact hnm ▸ hv.registered_registerFile n
      · exact hr.register_other hnm) h (.inl hn)

theorem Vouched.allPresent (h : Vouched fs db) {D : Text} (hD : fs.isDir D = true)
    {db' : Database} (hc : Completes fs db (.start D) db') : AllPresent fs db' D := by
  have hE : settleDirname fs D = D := by simp [settleDirname, hD]
  obtain ⟨ns, hns, removed, hrem, rfl⟩ := Completes.exists_order hc
  rw [hE] at hns hrem
  -- the loop comes across the file, and what it has found is not removed
  intro name hname hs e he
  have hmem : gBuildFilename D name ∈ ns := by
    rw [hns, runNames, if_pos hD]
    exact List.mem_map_of_mem (List.mem_filter.2 ⟨hname, hs⟩)
  obtain ⟨g, hg, hsub⟩ := h.registered_foldl hmem
  refine ⟨g, ?_, hsub he⟩
  rw [registry_foldl_removeFile, if_neg, hg]
  rw [hrem, List.mem_filter]
  simp [hmem]

end

/-! ### Between the runs -/

/-- The file whose entries are being stored. -/
def Pc.registering : Pc → Option Text
  | .reading _ n => some n
  | .inserting _ n _ _ => some n
  | _ => none

/-- The invariant of the runs. -/
structure Vouching (fs : FileSys) (db : Database) (pc : Pc) (newest : Text → Option File) :
    Prop where
  seen : ∀ n f, fs.file n = some f → newest n = some f
  known : ∀ n g, db.registry n = some g → ∃ f, newest n = some f ∧ narrow g.stamp ≤ f.mtime
  vouched : ∀ n g f, db.registry n = some g → newest n = some f → pc.registering ≠ some n →
    f.mtime ≤ narrow g.stamp → f.entries ⊆ g.entries
  stamping : ∀ s n t, pc = .stamping s n t → ∃ f, newest n = some f ∧ t ≤ f.mtime
  inserting : ∀ s n f rest, pc = .inserting s n f rest →
    (∃ f', newest n = some f' ∧ (f' = f ∨ f.mtime < f'.mtime)) ∧
      ∀ g, db.registry n = some g → narrow g.stamp ≤ f.mtime ∧
        ∀ e ∈ f.entries, e ∈ g.entries ∨ ∃ v ∈ rest, acceptedEntry v = some e

theorem narrow_narrow (t : ℤ) : narrow (narrow t) = narrow t := Int.bmod_bmod

theorem narrow_le {t : ℤ} (h : -2 ^ 31 ≤ t) : narrow t ≤ t := by
  unfold narrow
  rw [Int.bmod_def]
  split <;> omega

namespace Vouching

variable {fs : FileSys} {db db' : Database} {pc pc' : Pc} {c : Choice}
  {newest : Text → Option File}

/-- A file may be left when the stored time vouches for nothing that is missing. -/
theorem leave (h : Vouching fs db pc newest)
    (hv : ∀ n g f, pc.registering = some n → db.registry n = some g → newest n = some f →
      f.mtime ≤ narrow g.stamp → f.entries ⊆ g.entries)
    (hs : ∀ s n t, pc' ≠ .stamping s n t) (hi : ∀ s n f rest, pc' ≠ .inserting s n f rest) :
    Vouching fs db pc' newest where
  seen := h.seen
  known := h.known
  vouched n g f hg hf _ ht := by
    by_cases hr : pc.registering = some n
    · exact hv n g f hr hg hf ht
    · exact h.vouched n g f hg hf hr ht
  stamping s n t he := absurd he (hs s n t)
  inserting s n f rest he := absurd he (hi s n f rest)

/-- What is stored when a version is being inserted and nothing of it is missing. -/
theorem vouched_of_inserting {s : Scan} {n : Text} {f : File} {rest : List JsonNode}
    (h : Vouching fs db (.inserting s n f rest) newest)
    (hrest : ∀ v ∈ rest, ∀ e, acceptedEntry v = some e → Stored db n e) {g : Registration}
    {f' : File} (hg : db.registry n = some g) (hf' : newest n = some f')
    (ht : f'.mtime ≤ narrow g.stamp) : f'.entries ⊆ g.entries := by
  obtain ⟨⟨f'', hf'', hor⟩, hent⟩ := h.inserting s n f rest rfl
  obtain ⟨hle, hcov⟩ := hent g hg
  rw [hf', Option.some.injEq] at hf''
  subst hf''
  rcases hor with rfl | hlt
  · intro e he
    rcases hcov e he with hin | ⟨v, hv, hve⟩
    · exact hin
    · obtain ⟨g', hg', hin⟩ := hrest v hv e hve
      rw [hg, Option.some.injEq] at hg'
      rwa [hg']
  · omega

theorem outdated {s : Scan} {n : Text} (h : Vouching fs db (.checking s n) newest)
    {f : File} (hf : fs.file n = some f) :
    Vouching fs db (.stamping s n (fs.filetime n)) newest where
  seen := h.seen
  known := h.known
  vouched m g f hg hf _ ht := h.vouched m g f hg hf (by rintro ⟨⟩) ht
  stamping s' m t he := by
    cases he
    exact ⟨f, h.seen n f hf, by rw [FileSys.filetime, hf]⟩
  inserting _ _ _ _ he := by cases he

theorem stamp {s : Scan} {n : Text} {t : ℤ} (h : Vouching fs db (.stamping s n t) newest)
    (ht : -2 ^ 31 ≤ t) : Vouching fs (db.setTimestamp n (narrow t)) (.reading s n) newest := by
  have hreg := db.registry_setTimestamp n (narrow t)
  obtain ⟨f, hf, htf⟩ := h.stamping s n t rfl
  refine ⟨h.seen, fun m g hg => ?_, fun m g f hg hf hne => ?_, ?_, ?_⟩
  · by_cases hmn : m = n
    · -- the time written is not later than the version it was taken from
      subst hmn
      rw [hreg, Function.update_self, Option.some.injEq] at hg
      subst hg
      refine ⟨f, hf, ?_⟩
      rw [narrow_narrow]
      exact (narrow_le ht).trans htf
    · rw [hreg, Function.update_of_ne hmn] at hg
      exact h.known m g hg
  · have hmn : m ≠ n := by
      rintro rfl
      exact hne rfl
    rw [hreg, Function.update_of_ne hmn] at hg
    exact h.vouched m g f hg hf (by rintro ⟨⟩)
  · rintro _ _ _ ⟨⟩
  · rintro _ _ _ _ ⟨⟩

theorem readContent {s : Scan} {n : Text} {f : File} (h : Vouching fs db (.reading s n) newest)
    (hf : fs.file n = some f) : Vouching fs db (.inserting s n f f.elements) newest where
  seen := h.seen
  known := h.known
  vouched := h.vouched
  stamping _ _ _ he := by cases he
  inserting s' m f' rest he := by
    cases he
    have hn := h.seen n f hf
    refine ⟨⟨f, hn, .inl rfl⟩, fun g hg => ⟨?_, fun e he => .inr he⟩⟩
    obtain ⟨f', hf', hle⟩ := h.known n g hg
    rw [hn, Option.some.injEq] at hf'
    rwa [hf']

theorem insert {s : Scan} {n : Text} {f : File} {v : JsonNode} {rest : List JsonNode}
    (h : Vouching fs db (.inserting s n f (v :: rest)) newest) :
    Vouching fs (eachUrl .done db n v) (.inserting s n f rest) newest := by
  have hreg := registry_eachUrl db n v
  obtain ⟨hnew, hent⟩ := h.inserting s n f (v :: rest) rfl
  refine ⟨h.seen, fun m g hg => ?_, fun m g f hg hf hne => ?_, ?_, ?_⟩
  · by_cases hmn : m = n
    · subst hmn
      rw [hreg, Function.update_self, Option.map_eq_some_iff] at hg
      obtain ⟨g', hg', rfl⟩ := hg
      exact h.known m g' hg'
    · rw [hreg, Function.update_of_ne hmn] at hg
      exact h.known m g hg
  · have hmn : m ≠ n := by
      rintro rfl
      exact hne rfl
    rw [hreg, Function.update_of_ne hmn] at hg
    exact h.vouched m g f hg hf hne
  · rintro _ _ _ ⟨⟩
  · rintro _ _ _ _ ⟨⟩
    refine ⟨hnew, fun g hg => ?_⟩
    rw [hreg, Function.update_self, Option.map_eq_some_iff] at hg
    obtain ⟨g', hg', rfl⟩ := hg
    obtain ⟨hle, hcov⟩ := hent g' hg'
    refine ⟨hle, fun e he => ?_⟩
    rcases hcov e he with hin | ⟨v', hv', hve⟩
    · exact .inl (.inl hin)
    · rcases List.mem_cons.1 hv' with rfl | hv'
      · exact .inl (.inr hve)
      · exact .inr ⟨v', hv', hve⟩

theorem insertFails {s : Scan} {n : Text} {f : File} {v : JsonNode} {rest : List JsonNode}
    (h : Vouching fs db (.inserting s n f (v :: rest)) newest)
    (hv : ∀ e, acceptedEntry v = some e → Stored db n e) :
    Vouching fs db (.inserting s n f rest) newest where
  seen := h.seen
  known := h.known
  vouched := h.vouched
  stamping _ _ _ he := by cases he
  inserting s' m f' rest' he := by
    cases he
    obtain ⟨hnew, hent⟩ := h.inserting s n f (v :: rest) rfl
    refine ⟨hnew, fun g hg => ⟨(hent g hg).1, fun e he => ?_⟩⟩
    rcases (hent g hg).2 e he with hin | ⟨v', hv', hve⟩
    · exact .inl hin
    · rcases List.mem_cons.1 hv' with rfl | hv'
      · obtain ⟨g', hg', hin⟩ := hv e hve
        rw [hg, Option.some.injEq] at hg'
        exact .inl (by rwa [hg'])
      · exact .inr ⟨v', hv', hve⟩

theorem remove {names names' : List Text} {n : Text}
    (h : Vouching fs db (.removing names) newest) :
    Vouching fs (db.remove n) (.removing names') newest := by
  have hreg := db.registry_remove n
  have hold : ∀ m g, (db.remove n).registry m = some g → db.registry m = some g := by
    intro m g hg
    by_cases hmn : m = n
    · rw [hreg, hmn, Function.update_self] at hg
      cases hg
    · rwa [hreg, Function.update_of_ne hmn] at hg
  refine ⟨h.seen, fun m g hg => h.known m g (hold m g hg), fun m g f hg hf _ => ?_, ?_, ?_⟩
  · exact h.vouched m g f (hold m g hg) hf (by rintro ⟨⟩)
  · rintro _ _ _ ⟨⟩
  · rintro _ _ _ _ ⟨⟩

/-- New versions keep the invariant: no stored time vouches for them. -/
theorem change (h : Vouching fs db pc newest) {fs' : FileSys} (hv : VersionsGrow newest fs') :
    Vouching fs' db pc (latest fs' newest) := by
  have hgrow : ∀ n f, newest n = some f →
      ∃ f', latest fs' newest n = some f' ∧ (f' = f ∨ f.mtime < f'.mtime) := by
    intro n f hf
    unfold latest
    cases hf' : fs'.file n with
    | none => exact ⟨f, hf, .inl rfl⟩
    | some f' => exact ⟨f', rfl, hv n f f' hf hf'⟩
  refine ⟨fun n f hf => by rw [latest, hf], fun n g hg => ?_, fun n g f hg hf hr ht => ?_,
    fun s n t he => ?_, fun s n f rest he => ?_⟩
  · obtain ⟨f, hf, hle⟩ := h.known n g hg
    obtain ⟨f', hf', hor⟩ := hgrow n f hf
    refine ⟨f', hf', ?_⟩
    rcases hor with rfl | hlt <;> omega
  · obtain ⟨f₀, hf₀, hle⟩ := h.known n g hg
    obtain ⟨f', hf', hor⟩ := hgrow n f₀ hf₀
    rw [hf, Option.some.injEq] at hf'
    subst hf'
    -- a new version is newer than the stored time
    rcases hor with rfl | hlt
    · exact h.vouched n g f hg hf₀ hr ht
    · omega
  · obtain ⟨f, hf, hle⟩ := h.stamping s n t he
    obtain ⟨f', hf', hor⟩ := hgrow n f hf
    refine ⟨f', hf', ?_⟩
    rcases hor with rfl | hlt <;> omega
  · obtain ⟨⟨f₀, hf₀, hor₀⟩, hent⟩ := h.inserting s n f rest he
    obtain ⟨f', hf', hor⟩ := hgrow n f₀ hf₀
    refine ⟨⟨f', hf', ?_⟩, hent⟩
    rcases hor with rfl | hlt
    · exact hor₀
    · right
      rcases hor₀ with rfl | hlt₀ <;> omega

end Vouching

/-! ### Interruptions -/

/-- The files that a run looks at are there and can be read, and change their content only with
strictly growing seconds.  Anything else may happen: kills, failing statements, changes at any
moment. -/
def FilesReadable (w : Solo) (e : SoloEvent) : Prop :=
  (∀ fs, e = .change fs → VersionsGrow w.newest fs) ∧
  (∀ c s n, e = .exec c → w.proc = .checking s n ∨ w.proc = .reading s n → w.fs.file n ≠ none)

/-- The entries of the file being registered that are still to be stored. -/
def pendingEntries (newest : Text → Option File) (n : Text) : Pc → Set Entry
  | .reading _ m => {e | m = n ∧ ∃ f, newest n = some f ∧ e ∈ f.entries}
  | .inserting _ m _ rest => {e | m = n ∧ ∃ v ∈ rest, acceptedEntry v = some e}
  | _ => ∅

/-- The interruption loses no entry: a run is killed, or fails to store an entry, only when what it
had yet to store is stored already.  Timestamps do not wrap around to later ones. -/
structure LosesNothing (w : Solo) (e : SoloEvent) : Prop where
  kill : e = .kill → ∀ n, ∀ x ∈ pendingEntries w.newest n w.proc, Stored w.db n x
  insertion : e = .exec (.stmt .error) → ∀ s n f v rest x, w.proc = .inserting s n f (v :: rest) →
    acceptedEntry v = some x → Stored w.db n x
  timestamp : e = .exec (.stmt .done) → ∀ s n t, w.proc = .stamping s n t → -2 ^ 31 ≤ t

namespace Vouching

theorem init (fs : FileSys) :
    Vouching fs (Solo.init fs).db (Solo.init fs).proc (Solo.init fs).newest where
  seen _ _ h := h
  known _ _ h := by simp [Solo.init] at h
  vouched _ _ _ h := by simp [Solo.init] at h
  stamping _ _ _ h := by cases h
  inserting _ _ _ _ h := by cases h

theorem killed {w : Solo} (h : Vouching w.fs w.db w.proc w.newest)
    (hk : ∀ n, ∀ x ∈ pendingEntries w.newest n w.proc, Stored w.db n x) :
    Vouching w.fs w.db .finished w.newest := by
  refine h.leave (fun n g f hr hg hf ht => ?_) (by rintro _ _ _ ⟨⟩) (by rintro _ _ _ _ ⟨⟩)
  -- only the file being registered when the run is killed could be missing something
  have hpend := hk n
  cases hp : w.proc with
  | reading s m =>
    rw [hp] at hr hpend
    cases hr
    intro e he
    obtain ⟨g', hg', hin⟩ := hpend e ⟨rfl, f, hf, he⟩
    rw [hg, Option.some.injEq] at hg'
    rwa [hg']
  | inserting s m f₀ rest =>
    rw [hp] at h hr hpend
    cases hr
    exact h.vouched_of_inserting (fun v hv e hve => hpend e ⟨rfl, v, hv, hve⟩) hg hf ht
  | start _ | listing _ | opening _ _ | scanning _ | checking _ _ | stamping _ _ _ | removing _
  | finished =>
    rw [hp] at hr
    cases hr

/-- A step of a run keeps the invariant if it loses nothing. -/
theorem exec {w : Solo} {c : Choice} {db : Database} {pc : Pc}
    (h : Vouching w.fs w.db w.proc w.newest) (hs : Pc.Step w.fs w.db w.proc c db pc)
    (hr : FilesReadable w (.exec c)) (hl : LosesNothing w (.exec c)) :
    Vouching w.fs db pc w.newest := by
  obtain ⟨fs, db₀, proc, newest, lastRead⟩ := w
  -- the steps that neither write nor end the registration of a file
  have hquiet : ∀ {pc'}, proc.registering = none → (∀ s n t, pc' ≠ .stamping s n t) →
      (∀ s n f rest, pc' ≠ .inserting s n f rest) → Vouching fs db₀ pc' newest := by
    intro pc' hreg hst hi
    exact h.leave (fun n _ _ hn => by rw [hreg] at hn; cases hn) hst hi
  cases hs with
  | settle _ | list _ _ | openDir _ _ _ | noDir _ _ _ | readFile _ _ _ _ _ | skipName _ _ _ _ _
  | endOfDir _ _ | current _ _ _ _ | stampFails _ _ _ | removeFails _ _ _ _ _ | finish =>
    exact hquiet rfl (by rintro _ _ _ ⟨⟩) (by rintro _ _ _ _ ⟨⟩)
  | outdated s n st _ =>
    obtain ⟨f, hf⟩ := Option.ne_none_iff_exists'.1 (hr.2 _ s n rfl (.inl rfl))
    exact h.outdated hf
  | stamp s n t => exact h.stamp (hl.timestamp rfl s n t rfl)
  | readContent s n f hf => exact h.readContent hf
  | unreadable s n hf => exact absurd hf (hr.2 _ s n rfl (.inr rfl))
  | insert s n f v rest => exact h.insert
  | insertFails s n f v rest =>
    exact h.insertFails fun x hx => hl.insertion rfl s n f v rest x rfl hx
  | fileDone s n f =>
    refine h.leave ?_ (by rintro _ _ _ ⟨⟩) (by rintro _ _ _ _ ⟨⟩)
    rintro _ g f' ⟨⟩ hg hf' ht
    exact h.vouched_of_inserting (fun v hv => by cases hv) hg hf' ht
  | remove names n _ => exact h.remove

theorem solo_step {w w' : Solo} {e : SoloEvent} (h : Vouching w.fs w.db w.proc w.newest)
    (hr : FilesReadable w e) (hl : LosesNothing w e) (hs : w.step e = some w') :
    Vouching w'.fs w'.db w'.proc w'.newest := by
  cases Solo.step_sound hs with
  | change fs => exact h.change (hr.1 fs rfl)
  | launch arg hp =>
    rw [hp] at h
    exact h.leave (by rintro _ _ _ ⟨⟩) (by rintro _ _ _ ⟨⟩) (by rintro _ _ _ _ ⟨⟩)
  | exec c db pc hpc => exact h.exec hpc hr hl
  | kill => exact h.killed (hl.kill rfl)

/-- Between runs, files that count as up to date have all their entries stored. -/
theorem allVouched {fs : FileSys} {db : Database} {newest : Text → Option File}
    (h : Vouching fs db .finished newest) : Vouched fs db := by
  rintro n g hg ht e ⟨f, hf, he⟩
  rw [FileSys.filetime, hf] at ht
  exact h.vouched n g f hg (h.seen n f hf) (by rintro ⟨⟩) ht he

end Vouching

/-- **Recovery.**  After any history in which no interruption loses an entry, one complete run on
a directory leaves all entries of its files in the database. -/
theorem allPresent_of_run (fs : FileSys) (es es' : List SoloEvent) (w w' : Solo) (D : Text)
    (h : Run Solo.step (fun w e => FilesReadable w e ∧ LosesNothing w e) (.init fs) es w)
    (hfin : w.proc = .finished) (hD : w.fs.isDir D = true)
    (h' : Run Solo.step (fun _ e => e.advances = true) { w with proc := .start D } es' w')
    (hfin' : w'.proc = .finished) : AllPresent w.fs w'.db D := by
  have hv := h.invariant (I := fun w => Vouching w.fs w.db w.proc w.newest) (Vouching.init fs)
    fun _ _ _ hv hG hs => hv.solo_step hG.1 hG.2 hs
  rw [hfin] at hv
  exact hv.allVouched.allPresent hD (completes_of_run h' hfin')

/-! ### A kill that loses an entry -/

/-- The file the run looks at is there. -/
def looksAtFile (w : Solo) : Bool :=
  match w.proc with
  | .checking _ n => (w.fs.file n).isSome
  | .reading _ n => (w.fs.file n).isSome
  | _ => true

theorem filesReadable_of_looksAtFile {w : Solo} {e : SoloEvent} (h : looksAtFile w = true)
    (hc : ∀ fs, e ≠ .change fs) : FilesReadable w e := by
  refine ⟨fun fs he => absurd he (hc fs), fun c s n _ hp => ?_⟩
  rw [looksAtFile] at h
  rcases hp with hp | hp <;> rw [hp] at h <;> exact Option.isSome_iff_ne_none.1 h

/-- The file system does not change. -/
def SoloEvent.keepsFiles : SoloEvent → Bool
  | .change _ => false
  | _ => true

theorem run_of_advances {w w' : Solo} {es : List SoloEvent}
    (h : run (fun w e => if e.advances then w.step e else none) w es = some w') :
    Run Solo.step (fun _ e => e.advances = true) w es w' :=
  .of_run (fun _ _ he => he) h

theorem run_of_looksAtFile {w w' : Solo} (es : List SoloEvent)
    (h : run (fun w e => if looksAtFile w && e.keepsFiles then w.step e else none) w es = some w') :
    Run Solo.step FilesReadable w es w' := by
  refine .of_run (fun w e hg => ?_) h
  rw [Bool.and_eq_true] at hg
  refine filesReadable_of_looksAtFile hg.1 ?_
  rintro fs rfl
  cases hg.2

/-- A run is killed after it has written the timestamp of `a.url-dispatcher`. -/
def killed : List SoloEvent :=
  [.launch "/d".toList, .exec .tau, .exec (.stmt .done), .exec .tau,
    .exec (.readName (some "a.url-dispatcher".toList)), .exec (.stmt .done), .exec (.stmt .done),
    .kill]

/-- The next run takes the file for up to date. -/
def nextRun : List SoloEvent :=
  [.exec .tau, .exec (.stmt .done), .exec .tau,
    .exec (.readName (some "a.url-dispatcher".toList)), .exec (.stmt .done),
    .exec (.readName none), .exec .tau]

/-- The run is not killed while it registers a file, stores what it has yet to store, and stamps no
time that wraps around. -/
def losesNothing (w : Solo) : SoloEvent → Bool
  | .kill => w.proc.registering.isNone
  | .exec (.stmt st) =>
    match w.proc with
    | .stamping _ _ t => decide (-2 ^ 31 ≤ t)
    | .inserting _ _ _ _ => decide (st = .done)
    | _ => true
  | _ => true

theorem losesNothing_sound {w : Solo} {e : SoloEvent} (h : losesNothing w e = true) :
    LosesNothing w e := by
  refine ⟨?_, ?_, ?_⟩
  · rintro rfl n x hx
    rw [losesNothing] at h
    cases hp : w.proc with
    | reading s m =>
      rw [hp] at h
      cases h
    | inserting s m f rest =>
      rw [hp] at h
      cases h
    | _ =>
      rw [hp] at hx
      exact hx.elim
  · rintro rfl s n f v rest x hp
    rw [losesNothing, hp] at h
    cases h
  · rintro rfl s n t hp
    rw [losesNothing, hp] at h
    exact of_decide_eq_true h

/-- A run is killed before it has written the timestamp, and the next one fails to write it. -/
def interrupted : List SoloEvent :=
  [.launch "/d".toList, .exec .tau, .exec (.stmt .done), .exec .tau,
    .exec (.readName (some "a.url-dispatcher".toList)), .exec (.stmt .done), .kill] ++
  runEvents [.exec (.readName (some "a.url-dispatcher".toList)), .exec (.stmt .done),
    .exec (.stmt .error)] []

/-- The run after that registers the file. -/
theorem allPresent_interrupted : ∃ w w',
    Run Solo.step (fun w e => FilesReadable w e ∧ LosesNothing w e)
      (.init (pairDir (some (comFile 1)) none)) interrupted w ∧
    Run Solo.step (fun _ e => e.advances = true) { w with proc := .start "/d".toList }
      listed.tail w' ∧
    AllPresent w.fs w'.db "/d".toList := by
  have h : Run Solo.step (fun w e => FilesReadable w e ∧ LosesNothing w e)
      (.init (pairDir (some (comFile 1)) none)) interrupted _ :=
    .of_run (g := fun w e => (looksAtFile w && e.keepsFiles) && losesNothing w e)
      (fun w e hg => by
        rw [Bool.and_eq_true, Bool.and_eq_true] at hg
        refine ⟨filesReadable_of_looksAtFile hg.1.1 ?_, losesNothing_sound hg.2⟩
        rintro fs rfl
        cases hg.1.2)
      (Option.some_get (by decide)).symm
  refine ⟨_, _, h, run_of_advances (Option.some_get (by decide)).symm, ?_⟩
  exact allPresent_of_run _ _ _ _ _ _ h rfl rfl
    (run_of_advances (Option.some_get (by decide)).symm) rfl

/-- A run that is killed between the timestamp of a file and its entries loses them. -/
theorem not_allPresent_of_run :
    ¬ ∀ fs es es' w w' D, Run Solo.step FilesReadable (.init fs) es w → w.proc = .finished →
      w.fs.isDir D = true →
      Run Solo.step (fun _ e => e.advances = true) { w with proc := .start D } es' w' →
      w'.proc = .finished → AllPresent w.fs w'.db D := by
  intro hall
  have h := run_of_looksAtFile (w := .init (pairDir (some (comFile 1)) none)) killed
    (Option.some_get (by decide)).symm
  obtain ⟨g, hg, he⟩ := hall _ _ nextRun _ _ "/d".toList h rfl rfl
    (run_of_advances (Option.some_get (by decide)).symm) rfl
    "a.url-dispatcher".toList (by decide) (by decide) ("http".toList, "a.com".toList)
    ⟨comFile 1, rfl, _, List.mem_cons_self, rfl⟩
  obtain ⟨c, -, -, -, hr⟩ := Database.registry_eq_some.1 hg
  rw [← hr, Database.entriesAt_eq_empty rfl] at he
  exact he

end UrlDispatcher
