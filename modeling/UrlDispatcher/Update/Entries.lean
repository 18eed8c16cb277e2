import UrlDispatcher.Update.Frame
import UrlDispatcher.Update.Solo
import Mathlib.Data.List.Perm.Lattice

/-!
# The entries of a file form a set

The loop of `insert_urls_from_file` has four early exits for an element and stores the others
through a unique index, under the rowid that the file has at that moment.

* `Contributes` : which pair an element stands for, read off its members.
* `StoresExactly` : below the file's rowid there are the pairs that were there before and those of
  the elements, each of them once, and nothing else has changed.
* `entries_form_set` : that is what the loop does for every array, in whatever order and however
  often the elements stand in it, and an element that stands for nothing is passed over.
-/

namespace UrlDispatcher

open Sql GLib

/-- The pair an array element stands for: an object with a string as `protocol`, and with a string
as `domain-suffix` unless the empty suffix is meant, which an `intent` must not. -/
inductive Contributes : JsonNode → Entry → Prop
  | suffixed {members : List (Text × JsonNode)} {p s : Text}
      (hp : members.lookup "protocol".toList = some (.string p))
      (hs : members.lookup "domain-suffix".toList = some (.string s)) :
      Contributes (.object members) (p, s)
  | bare {members : List (Text × JsonNode)} {p : Text}
      (hp : members.lookup "protocol".toList = some (.string p))
      (hs : ∀ s, members.lookup "domain-suffix".toList ≠ some (.string s))
      (hintent : p ≠ "intent".toList) : Contributes (.object members) (p, [])

theorem jsonObjectGetStringMember_eq_some {members : List (Text × JsonNode)} {name s : Text} :
    jsonObjectGetStringMember members name = some s ↔ members.lookup name = some (.string s) := by
  unfold jsonObjectGetStringMember
  split
  · next value h => rw [h, Option.some.injEq, Option.some.injEq, JsonNode.string.injEq]
  · next hno => exact iff_of_false (by rintro ⟨⟩) (hno s)

theorem jsonObjectGetStringMember_eq_none {members : List (Text × JsonNode)} {name : Text} :
    jsonObjectGetStringMember members name = none ↔
      ∀ s, members.lookup name ≠ some (.string s) := by
  rw [Option.eq_none_iff_forall_ne_some]
  exact forall_congr' fun s => not_congr jsonObjectGetStringMember_eq_some

/-- What `each_url` stores is the pair the element stands for. -/
theorem acceptedEntry_eq_some {v : JsonNode} {e : Entry} :
    acceptedEntry v = some e ↔ Contributes v e := by
  constructor
  · intro h
    cases v with
    | object members =>
      cases hp : jsonObjectGetStringMember members "protocol".toList with
      | none =>
        simp only [acceptedEntry, hp] at h
        cases h
      | some p =>
        cases hs : jsonObjectGetStringMember members "domain-suffix".toList with
        | none =>
          simp only [acceptedEntry, hp, hs, Option.ite_none_left_eq_some,
            Option.some.injEq] at h
          obtain ⟨hintent, rfl⟩ := h
          exact .bare (jsonObjectGetStringMember_eq_some.1 hp)
            (jsonObjectGetStringMember_eq_none.1 hs) hintent
        | some s =>
          simp only [acceptedEntry, hp, hs, Option.some.injEq] at h
          rw [← h]
          exact .suffixed (jsonObjectGetStringMember_eq_some.1 hp)
            (jsonObjectGetStringMember_eq_some.1 hs)
    | array _ => cases h
    | string _ => cases h
    | scalar => cases h
  · rintro (⟨hp, hs⟩ | ⟨hp, hs, hintent⟩)
    · rw [← jsonObjectGetStringMember_eq_some] at hp hs
      simp only [acceptedEntry, hp, hs]
    · rw [← jsonObjectGetStringMember_eq_some] at hp
      rw [← jsonObjectGetStringMember_eq_none] at hs
      simp only [acceptedEntry, hp, hs, if_neg hintent]

/-! ### The rows -/

variable {fs fs' : FileSys} {db db' : Database} {c : Row ConfigFile} {vs vs' : List JsonNode}

/-- Storing an element changes no row of another rowid. -/
theorem mem_urls_eachUrl {u : Row Url} (hc : c ∈ db.configfiles) (hu : u.val.sourcefile ≠ c.rowid)
    (v : JsonNode) : u ∈ (eachUrl .done db c.val.name v).urls ↔ u ∈ db.urls := by
  rw [eachUrl_done]
  split
  · rfl
  · next p s _ =>
    have hne : u.val ≠ ⟨c.rowid, p, s⟩ := fun he => hu (congrArg Url.sourcefile he)
    rw [Database.insertUrl_of_mem hc]
    simp only [Table.mem_insertOrReplace, id, ne_eq, hne, not_false_eq_true, and_true,
      or_iff_left_iff_imp]
    rintro rfl
    exact absurd rfl hne

theorem mem_urls_foldl_eachUrl {u : Row Url} (hu : u.val.sourcefile ≠ c.rowid)
    (hc : c ∈ db.configfiles) :
    u ∈ (vs.foldl (fun db v => eachUrl .done db c.val.name v) db).urls ↔ u ∈ db.urls := by
  induction vs generalizing db with
  | nil => rfl
  | cons v vs ih =>
    have hc' : c ∈ (eachUrl .done db c.val.name v).configfiles := by rwa [configfiles_eachUrl]
    rw [List.foldl_cons, ih hc', mem_urls_eachUrl hc hu v]

/-- The file of that name holds that array. -/
def FileSys.HoldsArray (fs : FileSys) (n : Text) (vs : List JsonNode) : Prop :=
  ∃ f, fs.file n = some f ∧ f.content = some (.array vs)

theorem FileSys.HoldsArray.insertUrlsFromFile_eq {n : Text} (h : fs.HoldsArray n vs)
    (db : Database) :
    insertUrlsFromFile fs db n = vs.foldl (fun db v => eachUrl .done db n v) db := by
  obtain ⟨f, hf, hv⟩ := h
  simp only [insertUrlsFromFile, hf, File.elements, hv]

theorem FileSys.HoldsArray.accepted_eq {n : Text} (h : fs.HoldsArray n vs) :
    fs.accepted n = {e | ∃ v ∈ vs, Contributes v e} := by
  obtain ⟨f, hf, hv⟩ := h
  ext e
  simp [FileSys.accepted, hf, File.entries, File.elements, hv, acceptedEntry_eq_some]

/-- The rows of `db'` are those of `db` and one for every pair an element of `vs` stands for, under
the rowid of the file `c`. -/
structure StoresExactly (db db' : Database) (c : Row ConfigFile) (vs : List JsonNode) : Prop where
  /-- A pair of the file is one that was there before, or that of an element. -/
  stored : ∀ p s, (∃ u ∈ db'.urls, u.val = ⟨c.rowid, p, s⟩) ↔
    (∃ u ∈ db.urls, u.val = ⟨c.rowid, p, s⟩) ∨ ∃ v ∈ vs, Contributes v (p, s)
  /-- It is there once. -/
  once : ∀ u ∈ db'.urls, ∀ u' ∈ db'.urls, u.val = u'.val → u = u'
  /-- The rows of the other rowids are the same. -/
  others : ∀ u : Row Url, u.val.sourcefile ≠ c.rowid → (u ∈ db'.urls ↔ u ∈ db.urls)
  configfiles : db'.configfiles = db.configfiles

theorem storesExactly_insertUrlsFromFile (hc : c ∈ db.configfiles)
    (h : fs.HoldsArray c.val.name vs) :
    StoresExactly db (insertUrlsFromFile fs db c.val.name) c vs := by
  have heq := h.insertUrlsFromFile_eq db
  have hcf : (insertUrlsFromFile fs db c.val.name).configfiles = db.configfiles := by
    rw [heq]
    clear heq h
    induction vs generalizing db with
    | nil => rfl
    | cons v vs ih =>
      have he := configfiles_eachUrl db c.val.name v
      rw [List.foldl_cons, ih (by rwa [he]), he]
  refine ⟨fun p s => ?_, fun u hu u' hu' he => Table.eq_of_key_eq hu hu' he, fun u hu => ?_, hcf⟩
  · -- what the registry holds for the file, before and after
    have hreg := congrFun (registry_insertUrlsFromFile fs db c.val.name) c.val.name
    have hc' : c ∈ (insertUrlsFromFile fs db c.val.name).configfiles := by rwa [hcf]
    rw [Function.update_self, Database.registry_of_mem hc', Database.registry_of_mem hc,
      Option.map_some, Option.some.injEq] at hreg
    have hentries := congrArg Registration.entries hreg
    rw [Registration.add, h.accepted_eq] at hentries
    exact Set.ext_iff.1 hentries (p, s)
  · rw [heq]
    exact mem_urls_foldl_eachUrl hu hc

/-- The rows depend only on which elements there are, up to their own rowids. -/
theorem StoresExactly.perm {db₁ db₂ : Database} (h₁ : StoresExactly db db₁ c vs)
    (h₂ : StoresExactly db db₂ c vs') (hvs : ∀ v, v ∈ vs' ↔ v ∈ vs) :
    (db₁.urls.rows.map Row.val).Perm (db₂.urls.rows.map Row.val) := by
  have hmem : ∀ x : Url, (∃ u ∈ db₁.urls, u.val = x) ↔ ∃ u ∈ db₂.urls, u.val = x := by
    intro x
    by_cases hx : x.sourcefile = c.rowid
    · obtain ⟨r, p, s⟩ := x
      obtain rfl : r = c.rowid := hx
      rw [h₁.stored, h₂.stored]
      simp only [hvs]
    · refine exists_congr fun u => and_congr_left fun he => ?_
      rw [← he] at hx
      rw [h₁.others u hx, h₂.others u hx]
  refine (List.perm_ext_iff_of_nodup db₁.urls.unique db₂.urls.unique).2 fun x => ?_
  rw [List.mem_map, List.mem_map]
  exact hmem x

theorem eachUrl_of_forall_not_contributes {v : JsonNode} (hv : ∀ e, ¬ Contributes v e)
    (db : Database) (n : Text) : eachUrl .done db n v = db := by
  have hnone : acceptedEntry v = none := by
    rw [Option.eq_none_iff_forall_ne_some]
    exact fun e he => hv e (acceptedEntry_eq_some.1 he)
  rw [eachUrl_done, hnone]

/-- **A file's entries form a set.**  The loop over an array stores exactly the pairs its elements
stand for.  The rows it leaves depend neither on the order of the elements nor on how often they
stand there, and an element that stands for nothing is as good as absent. -/
theorem entries_form_set (fs : FileSys) (db : Database) (c : Row ConfigFile)
    (hc : c ∈ db.configfiles) (vs : List JsonNode) (h : fs.HoldsArray c.val.name vs) :
    StoresExactly db (insertUrlsFromFile fs db c.val.name) c vs ∧
    (∀ (fs' : FileSys) (vs' : List JsonNode), fs'.HoldsArray c.val.name vs' →
      (∀ v, v ∈ vs' ↔ v ∈ vs) →
      ((insertUrlsFromFile fs db c.val.name).urls.rows.map Row.val).Perm
        ((insertUrlsFromFile fs' db c.val.name).urls.rows.map Row.val)) ∧
    ∀ (before : List JsonNode) (v : JsonNode) (after : List JsonNode), vs = before ++ v :: after →
      (∀ e, ¬ Contributes v e) → ∀ fs' : FileSys, fs'.HoldsArray c.val.name (before ++ after) →
        insertUrlsFromFile fs db c.val.name = insertUrlsFromFile fs' db c.val.name := by
  have hexact := storesExactly_insertUrlsFromFile hc h
  refine ⟨hexact, fun fs' vs' h' hvs => ?_, fun before v after he hv fs' h' => ?_⟩
  · exact hexact.perm (storesExactly_insertUrlsFromFile hc h') hvs
  · rw [h.insertUrlsFromFile_eq, h'.insertUrlsFromFile_eq, he, List.foldl_append, List.foldl_cons,
      eachUrl_of_forall_not_contributes hv, List.foldl_append]

/-- A number, an object without members, and twice the entry of `a.com`. -/
def repeatedElements : List JsonNode :=
  [.scalar] ++ (comFile 1).elements ++ [.object []] ++ (comFile 1).elements

theorem entries_form_set_repeatedElements :
    StoresExactly (Database.empty.setTimestamp "/d/a.url-dispatcher".toList 1)
      (insertUrlsFromFile (pairDir (some ⟨1, some (.array repeatedElements)⟩) none)
        (Database.empty.setTimestamp "/d/a.url-dispatcher".toList 1) "/d/a.url-dispatcher".toList)
      ⟨1, ⟨"/d/a.url-dispatcher".toList, 1⟩⟩ repeatedElements :=
  (entries_form_set (pairDir (some ⟨1, some (.array repeatedElements)⟩) none) _
    ⟨1, ⟨"/d/a.url-dispatcher".toList, 1⟩⟩ (by decide) repeatedElements ⟨_, rfl, rfl⟩).1

end UrlDispatcher
