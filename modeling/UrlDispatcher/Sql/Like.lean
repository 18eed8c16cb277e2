import Mathlib.Data.List.Basic
import Mathlib.Data.List.Infix

/-!
# The default `LIKE` operator

`like p s` is `s LIKE p` with the default options of SQLite: `%` stands for any run of characters,
`_` for any one character, and the other characters are compared without the case of ASCII letters.
There is no escape character, so a pattern built from data reads the `%` and `_` of the data as
wildcards.  By default a statement fails if it comes to a pattern of more than 50000 bytes; `like`
is for statements that do not fail.
-/

namespace Sql

/-- The string `s` is like the pattern `p`. -/
def like : List Char → List Char → Bool
  | [], s => s.isEmpty
  | c :: p, s =>
    if c = '%' then s.tails.any (like p)
    else match s with
      | [] => false
      | d :: s => (decide (c = '_') || decide (c.toLower = d.toLower)) && like p s

@[simp] theorem like_nil {s : List Char} : like [] s = true ↔ s = [] := by
  simp [like]

theorem like_percent {p s : List Char} :
    like ('%' :: p) s = true ↔ ∃ a b, s = a ++ b ∧ like p b = true := by
  simp only [like, ↓reduceIte, List.any_eq_true, List.mem_tails]
  constructor
  · rintro ⟨b, ⟨a, rfl⟩, h⟩
    exact ⟨a, b, rfl, h⟩
  · rintro ⟨a, b, rfl, h⟩
    exact ⟨b, List.suffix_append a b, h⟩

theorem like_cons {c : Char} (hc : c ≠ '%') {p : List Char} {d : Char} {s : List Char} :
    like (c :: p) (d :: s) = true ↔ (c = '_' ∨ c.toLower = d.toLower) ∧ like p s = true := by
  simp [like, hc]

/-- The empty string is like the patterns of `%` only. -/
theorem like_nil_right {p : List Char} : like p [] = true ↔ ∀ c ∈ p, c = '%' := by
  induction p with
  | nil => simp
  | cons c p ih =>
    rw [List.forall_mem_cons, ← ih]
    by_cases hc : c = '%'
    · subst hc
      simp [like]
    · simp [like, hc]

/-- Concatenated patterns match concatenated strings. -/
theorem like_append {p q a b : List Char} (hp : like p a = true) (hq : like q b = true) :
    like (p ++ q) (a ++ b) = true := by
  induction p generalizing a with
  | nil => rw [like_nil.1 hp]; exact hq
  | cons c p ih =>
    by_cases hc : c = '%'
    · subst hc
      obtain ⟨x, y, rfl, hy⟩ := like_percent.1 hp
      rw [List.cons_append, List.append_assoc]
      exact like_percent.2 ⟨x, y ++ b, rfl, ih hy⟩
    · cases a with
      | nil => simp [like, hc] at hp
      | cons d a =>
        obtain ⟨h, ha⟩ := (like_cons hc).1 hp
        exact (like_cons hc).2 ⟨h, ih ha⟩

/-- A string is like every pattern that differs from it only in the case of letters. -/
theorem like_of_map_toLower {p s : List Char} (h : p.map Char.toLower = s.map Char.toLower) :
    like p s = true := by
  induction p generalizing s with
  | nil => rw [like_nil, ← List.map_eq_nil_iff (f := Char.toLower), ← h, List.map_nil]
  | cons c p ih =>
    cases s with
    | nil => cases h
    | cons d s =>
      obtain ⟨hcd, hps⟩ := List.cons.inj h
      by_cases hc : c = '%'
      · subst hc
        exact like_percent.2 ⟨[d], s, rfl, ih hps⟩
      · exact (like_cons hc).2 ⟨.inr hcd, ih hps⟩

/-- Every string is like itself, whatever wildcards it holds. -/
theorem like_self (s : List Char) : like s s = true := like_of_map_toLower rfl

/-- Without wildcards only the case of letters does not count. -/
theorem like_of_plain {p s : List Char} (hp : ∀ c ∈ p, c ∉ ['%', '_']) (h : like p s = true) :
    p.map Char.toLower = s.map Char.toLower := by
  induction p generalizing s with
  | nil => rw [like_nil.1 h]
  | cons c p ih =>
    obtain ⟨hc, hp⟩ := List.forall_mem_cons.1 hp
    simp only [List.mem_cons, List.not_mem_nil, or_false, not_or] at hc
    cases s with
    | nil => simp [like, hc.1] at h
    | cons d s =>
      obtain ⟨hcd, hps⟩ := (like_cons hc.1).1 h
      rw [List.map_cons, List.map_cons, ih hp hps, hcd.resolve_left hc.2]

/-- A string that ends in `p`, whatever wildcards it holds, is like `%` followed by `p`. -/
theorem like_of_suffix {p s : List Char} (h : p.map Char.toLower <:+ s.map Char.toLower) :
    like ('%' :: p) s = true := by
  obtain ⟨t, ht⟩ := h
  obtain ⟨a, b, rfl, -, hb⟩ := List.map_eq_append_iff.1 ht.symm
  exact like_percent.2 ⟨a, b, rfl, like_of_map_toLower hb.symm⟩

/-- Without wildcards in `p` nothing else is. -/
theorem suffix_of_like {p s : List Char} (hp : ∀ c ∈ p, c ∉ ['%', '_'])
    (h : like ('%' :: p) s = true) : p.map Char.toLower <:+ s.map Char.toLower := by
  obtain ⟨a, b, rfl, hb⟩ := like_percent.1 h
  rw [like_of_plain hp hb, List.map_append]
  exact List.suffix_append _ _

/-- `%` matches every string. -/
theorem like_any (s : List Char) : like ['%'] s = true :=
  like_percent.2 ⟨s, [], (List.append_nil s).symm, rfl⟩

/-- A string that starts with `p` is like `p` followed by `%`. -/
theorem like_prefix (p s : List Char) : like (p ++ ['%']) (p ++ s) = true :=
  like_append (like_self p) (like_any s)

end Sql
