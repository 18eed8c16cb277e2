import Mathlib.Data.List.Basic
import Mathlib.Data.List.DropRight
import Mathlib.Data.List.Infix

/-!
# Path and string functions of GLib

The functions of GLib on file names, over character lists, for the Unix separator `/`.

* `gBuildFilename dir name` joins a directory and an entry name by exactly one separator.
* `gPathGetBasename`, `gPathGetDirname` split a path at its last separator.
* `gStrrstr` finds the last occurrence of a string in another.

`gPathGetBasename_build` and `gBuildFilename_inj` say that an entry name is recovered from the
joined path, `gStrrstr_append` that the last occurrence of a suffix is that suffix.
-/

namespace GLib

/-- A component of a path: not empty, without a separator. -/
def IsComponent (name : List Char) : Prop := name ≠ [] ∧ '/' ∉ name

instance (name : List Char) : Decidable (IsComponent name) :=
  inferInstanceAs (Decidable (_ ∧ _))

/-- `g_str_has_suffix`. -/
def gStrHasSuffix (s suffix : List Char) : Bool := suffix.isSuffixOf s

/-- `p` without its trailing separators. -/
def dropTrailingSeparators (p : List Char) : List Char :=
  (p.reverse.dropWhile (· == '/')).reverse

/-- `g_build_filename` for two elements, the second of which has a component in it.  A first
element of separators only, or an empty one, is kept as it is. -/
def gBuildFilename (dir name : List Char) : List Char :=
  if dropTrailingSeparators dir = [] then dir ++ name.dropWhile (· == '/')
  else dropTrailingSeparators dir ++ '/' :: name.dropWhile (· == '/')

/-- `g_path_get_basename`. -/
def gPathGetBasename (p : List Char) : List Char :=
  if p = [] then ['.']
  else if dropTrailingSeparators p = [] then ['/']
  else ((dropTrailingSeparators p).reverse.takeWhile (· != '/')).reverse

/-- `g_path_get_dirname`. -/
def gPathGetDirname (p : List Char) : List Char :=
  match p.reverse.dropWhile (· != '/') with
  | [] => ['.']
  | q => match q.dropWhile (· == '/') with
    | [] => ['/']
    | r => r.reverse

/-- `g_strrstr`: the offset of the last occurrence of `needle` in `hay`. -/
def gStrrstr : List Char → List Char → Option ℕ
  | [], needle => if needle = [] then some 0 else none
  | c :: hay, needle =>
    match gStrrstr hay needle with
    | some i => some (i + 1)
    | none => if needle.isPrefixOf (c :: hay) then some 0 else none

/-! ### Joining and splitting -/

theorem IsComponent.dropWhile_eq {name : List Char} (h : IsComponent name) :
    name.dropWhile (· == '/') = name := by
  obtain ⟨hne, hs⟩ := h
  cases name with
  | nil => exact absurd rfl hne
  | cons c name =>
    have hc : c ≠ '/' := fun he => hs (he ▸ List.mem_cons_self)
    simp [hc]

theorem dropTrailingSeparators_append {p name : List Char} (h : IsComponent name) :
    dropTrailingSeparators (p ++ name) = p ++ name := by
  have hr : IsComponent name.reverse := ⟨by simpa using h.1, by simpa using h.2⟩
  obtain ⟨c, cs, hc⟩ := List.exists_cons_of_ne_nil hr.1
  have hcs : c ≠ '/' := fun he => hr.2 (by rw [hc, he]; exact List.mem_cons_self)
  simp only [dropTrailingSeparators, List.reverse_append, hc, List.cons_append]
  rw [List.dropWhile_cons_of_neg (by simpa using hcs), ← List.cons_append, ← hc]
  simp

/-- A directory path that neither is empty nor ends in a separator is joined as it is. -/
theorem gBuildFilename_of_plain {dir name : List Char} (hd : dir ≠ [])
    (hs : gStrHasSuffix dir ['/'] = false) (hn : IsComponent name) :
    gBuildFilename dir name = dir ++ '/' :: name := by
  have hdrop : dropTrailingSeparators dir = dir := by
    obtain ⟨p, c, rfl⟩ := (List.eq_nil_or_concat dir).resolve_left hd
    have hc : c ≠ '/' := by
      rintro rfl
      rw [List.concat_eq_append, gStrHasSuffix,
        List.isSuffixOf_iff_suffix.2 (List.suffix_append p ['/'])] at hs
      cases hs
    simp [dropTrailingSeparators, hc]
  rw [gBuildFilename, hdrop, if_neg hd, hn.dropWhile_eq]

/-- Joining extends a directory path that does not end in two separators. -/
theorem exists_append_of_single {dir name : List Char}
    (hs : gStrHasSuffix dir ['/', '/'] = false) (hn : IsComponent name) :
    ∃ r, gBuildFilename dir name = dir ++ r := by
  rcases List.eq_nil_or_concat dir with rfl | ⟨p, c, rfl⟩
  · exact ⟨_, rfl⟩
  rw [List.concat_eq_append] at hs ⊢
  by_cases hc : c = '/'
  · subst hc
    rcases List.eq_nil_or_concat p with rfl | ⟨q, c, rfl⟩
    · exact ⟨_, rfl⟩
    rw [List.concat_eq_append] at hs ⊢
    have hc : c ≠ '/' := by
      rintro rfl
      have hsuf : gStrHasSuffix (q ++ ['/'] ++ ['/']) ['/', '/'] = true :=
        List.isSuffixOf_iff_suffix.2 ⟨q, by simp⟩
      rw [hsuf] at hs
      cases hs
    exact ⟨name, by simp [gBuildFilename, dropTrailingSeparators, hc, hn.dropWhile_eq]⟩
  · exact ⟨'/' :: name, by simp [gBuildFilename, dropTrailingSeparators, hc, hn.dropWhile_eq]⟩

theorem dropTrailingSeparators_append_separator (p : List Char) :
    dropTrailingSeparators (dropTrailingSeparators p ++ ['/']) = dropTrailingSeparators p := by
  have hlast : ∀ q : List Char,
      dropTrailingSeparators (q ++ ['/']) = dropTrailingSeparators q := by
    intro q
    simp [dropTrailingSeparators]
  rw [hlast, dropTrailingSeparators, dropTrailingSeparators, List.reverse_reverse,
    List.dropWhile_idempotent]

/-- Joining puts one prefix, empty or ending in a separator, before every entry name.  But for its
trailing separators that prefix is the directory. -/
theorem exists_gBuildFilename_eq_append (dir : List Char) :
    ∃ p, (p = [] ∨ ∃ q, p = q ++ ['/']) ∧
      dropTrailingSeparators p = dropTrailingSeparators dir ∧
      ∀ name, IsComponent name → gBuildFilename dir name = p ++ name := by
  by_cases hd : dropTrailingSeparators dir = []
  · refine ⟨dir, ?_, rfl, fun name hn => ?_⟩
    · rcases List.eq_nil_or_concat dir with h | ⟨q, c, rfl⟩
      · exact .inl h
      · right
        by_cases hc : c = '/'
        · exact ⟨q, by rw [hc, List.concat_eq_append]⟩
        · simp [dropTrailingSeparators, hc] at hd
    · rw [gBuildFilename, if_pos hd, hn.dropWhile_eq]
  · refine ⟨dropTrailingSeparators dir ++ ['/'], .inr ⟨_, rfl⟩,
      dropTrailingSeparators_append_separator dir, fun name hn => ?_⟩
    rw [gBuildFilename, if_neg hd, hn.dropWhile_eq]
    simp

theorem gBuildFilename_inj {dir m n : List Char} (hm : IsComponent m) (hn : IsComponent n)
    (h : gBuildFilename dir m = gBuildFilename dir n) : m = n := by
  obtain ⟨p, -, -, hp⟩ := exists_gBuildFilename_eq_append dir
  rw [hp m hm, hp n hn] at h
  exact List.append_cancel_left h

/-- The base name of a joined path is the entry name. -/
theorem gPathGetBasename_build {dir name : List Char} (hn : IsComponent name) :
    gPathGetBasename (gBuildFilename dir name) = name := by
  obtain ⟨p, hp, -, he⟩ := exists_gBuildFilename_eq_append dir
  have hne : p ++ name ≠ [] := fun h => hn.1 (List.append_eq_nil_iff.1 h).2
  have hall : ∀ c ∈ name.reverse, (c != '/') = true := by
    intro c hc
    simp only [bne_iff_ne, ne_eq]
    rintro rfl
    exact hn.2 (List.mem_reverse.1 hc)
  rw [he name hn, gPathGetBasename, if_neg hne, dropTrailingSeparators_append hn, if_neg hne,
    List.reverse_append, List.takeWhile_append_of_pos hall]
  rcases hp with rfl | ⟨q, rfl⟩ <;> simp

/-! ### The last occurrence -/

theorem gStrHasSuffix_eq_false_of_length {s suffix : List Char} (h : s.length < suffix.length) :
    gStrHasSuffix s suffix = false := by
  rw [Bool.eq_false_iff]
  intro hs
  exact absurd (List.isSuffixOf_iff_suffix.1 hs).length_le (Nat.not_le.2 h)

/-- A suffix of a string that is not all of it is one of what follows the first character. -/
theorem gStrHasSuffix_cons_of_ne {c : Char} {s suffix : List Char} (h : c :: s ≠ suffix) :
    gStrHasSuffix (c :: s) suffix = gStrHasSuffix s suffix := by
  rw [Bool.eq_iff_iff, gStrHasSuffix, gStrHasSuffix, List.isSuffixOf_iff_suffix,
    List.isSuffixOf_iff_suffix, List.suffix_cons_iff]
  exact or_iff_right h.symm

theorem gStrrstr_eq_none_of_length {hay needle : List Char} (h : hay.length < needle.length) :
    gStrrstr hay needle = none := by
  induction hay with
  | nil =>
    have : needle ≠ [] := by rintro rfl; simp at h
    simp [gStrrstr, this]
  | cons c hay ih =>
    have hp : needle.isPrefixOf (c :: hay) = false := by
      rw [Bool.eq_false_iff]
      intro hp
      exact absurd (List.isPrefixOf_iff_prefix.1 hp).length_le (by omega)
    simp only [List.length_cons] at h
    simp [gStrrstr, ih (by omega), hp]

/-- The last occurrence of a suffix is that suffix. -/
theorem gStrrstr_append {s suffix : List Char} (h : suffix ≠ []) :
    gStrrstr (s ++ suffix) suffix = some s.length := by
  induction s with
  | nil =>
    obtain ⟨c, cs, rfl⟩ := List.exists_cons_of_ne_nil h
    have hp : (c :: cs).isPrefixOf (c :: cs) = true :=
      List.isPrefixOf_iff_prefix.2 (List.prefix_refl _)
    have hn : gStrrstr cs (c :: cs) = none := gStrrstr_eq_none_of_length (by simp)
    simp [gStrrstr, hn, hp]
  | cons c s ih => simp [gStrrstr, ih]

end GLib
