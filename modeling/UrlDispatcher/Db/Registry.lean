import UrlDispatcher.Db.Basic
import Mathlib.Data.Set.Insert
import Mathlib.Logic.Function.Basic

/-!
# What the URL database is for

Abstractly the database is a *registry*: a partial map from file names to the timestamp the file
was read with and the set of `(protocol, suffix)` entries it registered.  `Database.registry` reads
the registry off the two tables, and the statements of `url-db.c` act on it as

* `registry_setTimestamp` : registering a file gives it the new timestamp and, since its new rowid
  may be one that was in use before, whatever rows are left over under that rowid
  (`Database.leftover`);
* `registry_insertUrl` : an insertion adds one entry to a known file and does nothing to an unknown
  one;
* `registry_remove` : a removal forgets the file.

`exists_of_urlDbFindUrl` says that what is looked up is an entry of the registry, and
`urlDbFindUrl_eq_none_iff` when there is none.
-/

namespace UrlDispatcher

open Sql GLib

/-- A protocol and a domain suffix. -/
abbrev Entry := Text × Text

/-- What the registry holds for a file. -/
@[ext]
structure Registration where
  stamp : ℤ
  entries : Set Entry

namespace Database

variable (db : Database)

/-- The entries stored under the rowid `r`. -/
def entriesAt (r : ℕ) : Set Entry := {e | ∃ u ∈ db.urls, u.val = ⟨r, e.1, e.2⟩}

theorem entriesAt_eq_empty {db : Database} (h : db.urls.rows = []) (r : ℕ) :
    db.entriesAt r = ∅ := by
  refine Set.eq_empty_of_forall_notMem ?_
  rintro _ ⟨u, hu, -⟩
  rw [Table.mem_def, h] at hu
  cases hu

/-- The entries a newly registered file finds under its rowid. -/
def leftover : Set Entry := db.entriesAt db.configfiles.fresh

/-- The registry stored in the two tables. -/
def registry (n : Text) : Option Registration :=
  (db.configfiles.rows.find? fun c => c.val.name = n).map fun c =>
    ⟨c.val.timestamp, db.entriesAt c.rowid⟩

variable {db}

theorem registry_of_mem {c : Row ConfigFile} (h : c ∈ db.configfiles) :
    db.registry c.val.name = some ⟨c.val.timestamp, db.entriesAt c.rowid⟩ := by
  rw [registry, Table.find?_key_of_mem h]
  rfl

theorem registry_eq_none {n : Text} :
    db.registry n = none ↔ ∀ c ∈ db.configfiles, c.val.name ≠ n := by
  constructor
  · intro h c hc he
    rw [← he, registry_of_mem hc] at h
    cases h
  · intro h
    rw [registry, Table.find?_key_of_not_mem h]
    rfl

theorem registry_eq_some {n : Text} {g : Registration} :
    db.registry n = some g ↔ ∃ c ∈ db.configfiles, c.val.name = n ∧ c.val.timestamp = g.stamp ∧
      db.entriesAt c.rowid = g.entries := by
  constructor
  · intro h
    obtain ⟨c, hc, he⟩ : ∃ c ∈ db.configfiles, c.val.name = n := by
      by_contra hno
      rw [registry_eq_none.2 fun c hc he => hno ⟨c, hc, he⟩] at h
      cases h
    rw [← he, registry_of_mem hc, Option.some.injEq] at h
    exact ⟨c, hc, he, congrArg Registration.stamp h, congrArg Registration.entries h⟩
  · rintro ⟨c, hc, rfl, ht, he⟩
    rw [registry_of_mem hc, ht, he]

theorem registry_isSome {n : Text} :
    (db.registry n).isSome = true ↔ ∃ c ∈ db.configfiles, c.val.name = n := by
  rw [Option.isSome_iff_ne_none, ne_eq, registry_eq_none]
  simp

@[simp] theorem registry_empty (n : Text) : empty.registry n = none :=
  registry_eq_none.2 fun _ hc => absurd hc (Table.not_mem_empty _)

/-! ### The statements on the registry -/

/-- Registering a file gives it the timestamp, and the rows left over under its new rowid. -/
theorem registry_setTimestamp (n : Text) (τ : ℤ) :
    (db.setTimestamp n τ).registry = Function.update db.registry n (some ⟨τ, db.leftover⟩) := by
  funext m
  by_cases hm : m = n
  · -- the new row has the next rowid, under which the leftover rows are found
    subst hm
    rw [Function.update_self]
    have hmem : ⟨db.configfiles.fresh, ⟨m, τ⟩⟩ ∈ (db.setTimestamp m τ).configfiles :=
      Table.mem_insertOrReplace_self _
    exact registry_of_mem hmem
  · rw [Function.update_of_ne hm]
    cases h : db.registry m with
    | none =>
      rw [registry_eq_none] at h ⊢
      intro c hc
      rcases Table.mem_insertOrReplace.1 hc with ⟨hc, -⟩ | rfl
      · exact h c hc
      · exact Ne.symm hm
    | some g =>
      rw [registry_eq_some] at h ⊢
      obtain ⟨c, hc, hn, ht, he⟩ := h
      exact ⟨c, Table.mem_insertOrReplace.2 (.inl ⟨hc, by rw [hn]; exact hm⟩), hn, ht, he⟩

theorem insertUrl_of_mem {c : Row ConfigFile} (h : c ∈ db.configfiles) (p s : Text) :
    db.insertUrl c.val.name p s = { db with urls := db.urls.insertOrReplace ⟨c.rowid, p, s⟩ } := by
  rw [insertUrl, Table.filter_key_of_mem h]
  rfl

theorem insertUrl_of_not_mem {n : Text} (h : ∀ c ∈ db.configfiles, c.val.name ≠ n) (p s : Text) :
    db.insertUrl n p s = db := by
  rw [insertUrl, Table.filter_key_of_not_mem h]
  rfl

theorem entriesAt_insertUrl {c : Row ConfigFile} (h : c ∈ db.configfiles) (p s : Text) (r : ℕ) :
    (db.insertUrl c.val.name p s).entriesAt r =
      if r = c.rowid then insert (p, s) (db.entriesAt r) else db.entriesAt r := by
  rw [insertUrl_of_mem h]
  ext ⟨p', s'⟩
  have hmem : (p', s') ∈
      (⟨db.configfiles, db.urls.insertOrReplace ⟨c.rowid, p, s⟩⟩ : Database).entriesAt r ↔
      (p', s') ∈ db.entriesAt r ∨ (r = c.rowid ∧ p' = p ∧ s' = s) := by
    simp only [entriesAt, Set.mem_ofPred_eq, Table.mem_insertOrReplace, id]
    constructor
    · rintro ⟨u, ⟨hu, -⟩ | rfl, hv⟩
      · exact .inl ⟨u, hu, hv⟩
      · simp only [Url.mk.injEq] at hv
        exact .inr ⟨hv.1.symm, hv.2.1.symm, hv.2.2.symm⟩
    · rintro (⟨u, hu, hv⟩ | ⟨rfl, rfl, rfl⟩)
      · -- an equal row has been replaced by the new one
        by_cases hk : u.val = ⟨c.rowid, p, s⟩
        · exact ⟨_, .inr rfl, by rw [← hv, hk]⟩
        · exact ⟨u, .inl ⟨hu, hk⟩, hv⟩
      · exact ⟨_, .inr rfl, rfl⟩
  rw [hmem]
  -- under another rowid nothing changes
  by_cases hr : r = c.rowid
  · simp only [hr, true_and, ↓reduceIte, Set.mem_insert_iff, Prod.mk.injEq]
    exact or_comm
  · simp [hr]

/-- An insertion adds one entry to the named file, if that file is known. -/
theorem registry_insertUrl (n p s : Text) :
    (db.insertUrl n p s).registry = Function.update db.registry n
      ((db.registry n).map fun g => { g with entries := insert (p, s) g.entries }) := by
  by_cases hn : ∃ c ∈ db.configfiles, c.val.name = n
  · obtain ⟨c, hc, rfl⟩ := hn
    rw [registry_of_mem hc]
    funext m
    by_cases hm : m = c.val.name
    · subst hm
      have hc' : c ∈ (db.insertUrl c.val.name p s).configfiles := hc
      rw [Function.update_self, registry_of_mem hc', entriesAt_insertUrl hc, if_pos rfl]
      rfl
    · rw [Function.update_of_ne hm]
      cases h : db.registry m with
      | none =>
        have h' := registry_eq_none.1 h
        exact registry_eq_none.2 h'
      | some g =>
        obtain ⟨c', hc', hn, ht, he⟩ := registry_eq_some.1 h
        have hr : c'.rowid ≠ c.rowid := by
          intro hr
          rw [Table.eq_of_rowid_eq hc' hc hr] at hn
          exact hm hn.symm
        refine registry_eq_some.2 ⟨c', hc', hn, ht, ?_⟩
        rw [entriesAt_insertUrl hc, if_neg hr, he]
  · have hno : ∀ c ∈ db.configfiles, c.val.name ≠ n := fun c hc he => hn ⟨c, hc, he⟩
    rw [insertUrl_of_not_mem hno, registry_eq_none.2 hno, Option.map_none,
      ← registry_eq_none.2 hno, Function.update_eq_self]

theorem mem_remove_configfiles {n : Text} {c : Row ConfigFile} :
    c ∈ (db.remove n).configfiles ↔ c ∈ db.configfiles ∧ c.val.name ≠ n := by
  simp [remove, deleteFile, deleteUrls]

theorem mem_remove_urls {n : Text} {u : Row Url} :
    u ∈ (db.remove n).urls ↔
      u ∈ db.urls ∧ ∀ c ∈ db.configfiles, c.val.name = n → u.val.sourcefile ≠ c.rowid := by
  simp only [remove, deleteFile, deleteUrls, Table.mem_delete, List.any_eq_false, Bool.and_eq_true,
    decide_eq_true_eq, not_and, ne_comm, ne_eq]
  rfl

/-- A removal forgets the file, and nothing else. -/
theorem registry_remove (n : Text) :
    (db.remove n).registry = Function.update db.registry n none := by
  funext m
  by_cases hm : m = n
  · subst hm
    rw [Function.update_self, registry_eq_none]
    intro c hc
    exact (mem_remove_configfiles.1 hc).2
  · rw [Function.update_of_ne hm]
    cases h : db.registry m with
    | none =>
      exact registry_eq_none.2 fun c hc => registry_eq_none.1 h c (mem_remove_configfiles.1 hc).1
    | some g =>
      obtain ⟨c, hc, hn, ht, he⟩ := registry_eq_some.1 h
      refine registry_eq_some.2 ⟨c, mem_remove_configfiles.2 ⟨hc, by rwa [hn]⟩, hn, ht, ?_⟩
      rw [← he]
      -- no row of `c` is deleted: the rowids deleted belong to other files
      ext e
      constructor
      · rintro ⟨u, hu, hv⟩
        exact ⟨u, (mem_remove_urls.1 hu).1, hv⟩
      · rintro ⟨u, hu, hv⟩
        refine ⟨u, mem_remove_urls.2 ⟨hu, fun c' hc' hn' hr => ?_⟩, hv⟩
        rw [hv] at hr
        rw [Table.eq_of_rowid_eq hc' hc hr.symm] at hn'
        exact hm (hn.symm.trans hn')

end Database

/-- The database in which one file has registered one entry. -/
def entryDatabase (n p s : Text) : Database := (Database.empty.setTimestamp n 1).insertUrl n p s

theorem registry_entryDatabase (n p s : Text) :
    (entryDatabase n p s).registry = Function.update (fun _ => none) n (some ⟨1, {(p, s)}⟩) := by
  have hleft : Database.empty.leftover = ∅ := Database.entriesAt_eq_empty rfl _
  have hempty : Database.empty.registry = fun _ => none := funext Database.registry_empty
  rw [entryDatabase, Database.registry_insertUrl, Database.registry_setTimestamp, hleft, hempty,
    Function.update_idem, Function.update_self]
  simp

/-! ### The queries on the registry -/

variable {db : Database}

theorem urlDbGetFileMotificationTime_done (db : Database) (n : Text) :
    urlDbGetFileMotificationTime .done db n = (db.registry n).map fun g => narrow g.stamp := by
  simp [urlDbGetFileMotificationTime, Database.registry, Function.comp_def]

theorem mem_urlDbFilesForDir {dir n : Text} :
    n ∈ urlDbFilesForDir .done db dir ↔
      (db.registry n).isSome = true ∧ like (dir ++ ['%']) n = true := by
  simp only [urlDbFilesForDir, List.mem_reverse, List.mem_filter, List.mem_map,
    Database.registry_isSome]
  rfl

theorem mem_matching {p d : Text} {c : Row ConfigFile} {u : Row Url} :
    (c, u) ∈ db.matching p d ↔ c ∈ db.configfiles ∧ u ∈ db.urls ∧ u.val.sourcefile = c.rowid ∧
      u.val.protocol = p ∧ like ('%' :: u.val.domainsuffix) d = true := by
  simp only [Database.matching, Database.join, List.mem_filter, List.mem_flatMap, List.mem_map,
    Prod.mk.injEq, decide_eq_true_eq, Bool.and_eq_true]
  constructor
  · rintro ⟨⟨c', hc', u', ⟨hu', hr⟩, rfl, rfl⟩, hp, hl⟩
    exact ⟨hc', hu', hr, hp, hl⟩
  · rintro ⟨hc, hu, hr, hp, hl⟩
    exact ⟨⟨c, hc, u, ⟨hu, hr⟩, rfl, rfl⟩, hp, hl⟩

/-- The row answered is the first one. -/
theorem exists_row_of_urlDbFindUrl {plan : QueryPlan} {st : Status} {p : Text} {d : Option Text}
    {A : Text} (h : urlDbFindUrl plan st db p d = some A) :
    ∃ c u, (plan.orderBy (db.matching p (d.getD []))).head? = some (c, u) ∧
      (c, u) ∈ db.matching p (d.getD []) ∧ A = fileAppid c.val.name := by
  cases st with
  | error => cases h
  | done =>
    simp only [urlDbFindUrl, Option.map_eq_some_iff] at h
    obtain ⟨⟨c, u⟩, hr, rfl⟩ := h
    exact ⟨c, u, hr, (plan.perm _).mem_iff.1 (List.mem_of_mem_head? hr), rfl⟩

/-- A row that matches is an entry of its file in the registry. -/
theorem registry_of_mem_matching {p d : Text} {c : Row ConfigFile} {u : Row Url}
    (h : (c, u) ∈ db.matching p d) : ∃ g, db.registry c.val.name = some g ∧
      (p, u.val.domainsuffix) ∈ g.entries ∧ like ('%' :: u.val.domainsuffix) d = true := by
  obtain ⟨hc, hu, hs, hp, hl⟩ := mem_matching.1 h
  refine ⟨_, Database.registry_of_mem hc, ⟨u, hu, ?_⟩, hl⟩
  rw [← hs, ← hp]

/-- What is looked up is the AppID of a known file with an entry that matches. -/
theorem exists_of_urlDbFindUrl {plan : QueryPlan} {st : Status} {p : Text} {d : Option Text}
    {A : Text} (h : urlDbFindUrl plan st db p d = some A) :
    ∃ n g s, db.registry n = some g ∧ (p, s) ∈ g.entries ∧
      like ('%' :: s) (d.getD []) = true ∧ A = fileAppid n := by
  obtain ⟨c, u, -, hm, rfl⟩ := exists_row_of_urlDbFindUrl h
  obtain ⟨g, hg, he, hl⟩ := registry_of_mem_matching hm
  exact ⟨_, g, _, hg, he, hl, rfl⟩

/-- Nothing is found if and only if no known file has an entry that matches. -/
theorem urlDbFindUrl_eq_none_iff {plan : QueryPlan} {p : Text} {d : Option Text} :
    urlDbFindUrl plan .done db p d = none ↔ ∀ n g s, db.registry n = some g → (p, s) ∈ g.entries →
      like ('%' :: s) (d.getD []) = false := by
  constructor
  · intro h n g s hg hs
    obtain ⟨c, hc, -, -, he⟩ := Database.registry_eq_some.1 hg
    rw [← he] at hs
    obtain ⟨u, hu, hv⟩ := hs
    rw [Bool.eq_false_iff]
    intro hl
    have hmem : (c, u) ∈ plan.orderBy (db.matching p (d.getD [])) := by
      rw [(plan.perm _).mem_iff, mem_matching, hv]
      exact ⟨hc, hu, rfl, rfl, hl⟩
    rw [urlDbFindUrl, Option.map_eq_none_iff, List.head?_eq_none_iff] at h
    rw [h] at hmem
    cases hmem
  · intro h
    cases hf : urlDbFindUrl plan .done db p d with
    | none => rfl
    | some A =>
      obtain ⟨n, g, s, hg, hs, hl, -⟩ := exists_of_urlDbFindUrl hf
      rw [h n g s hg hs] at hl
      cases hl

end UrlDispatcher
