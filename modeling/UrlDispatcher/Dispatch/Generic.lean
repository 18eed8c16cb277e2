import UrlDispatcher.Dispatch.Url

/-!
# The generic expression as a parser

`genericre` has nested optional groups, two `.*` and overlapping classes, so what its groups capture
is decided by the order in which a backtracking search tries its choices.  `parseGeneric` reads the
same off a URL directly: the scheme up to the first colon, and, behind `//`, the longest run of host
characters behind the last `@`.

* `genericre_sound` : whatever matches begins with a scheme and a colon, and group 1 is the scheme.
* `search_genericre` : on a string without newlines the expression and the parser agree.
-/

namespace UrlDispatcher

open Regex

theorem IsScheme.colon_not_mem {s : Text} (h : IsScheme s) : ':' ∉ s := by
  obtain ⟨c, cs, rfl, hc, hcs⟩ := h
  intro hmem
  rcases List.mem_cons.1 hmem with rfl | hmem
  · revert hc
    decide
  · have := hcs _ hmem
    revert this
    decide

/-- The part of a string in front of its first `d`. -/
theorem takeWhile_separator {d : Char} {v : Text} (hv : d ∉ v) (z : Text) :
    (v ++ d :: z).takeWhile (fun c => c ≠ d) = v := by
  have hall : ∀ c ∈ v, decide (c ≠ d) = true := by
    intro c hc
    rw [decide_eq_true_eq]
    rintro rfl
    exact hv hc
  rw [List.takeWhile_append_of_pos hall]
  simp

/-- Two strings with a common prefix that holds a `d` agree in front of their first `d`. -/
theorem eq_of_prefix_separator {d : Char} {w s x y : Text} (hw : d ∉ w) (hs : d ∉ s)
    (h : w ++ d :: x <+: s ++ d :: y) : w = s := by
  obtain ⟨z, hz⟩ := h
  rw [List.append_assoc, List.cons_append] at hz
  have := congrArg (List.takeWhile fun c => c ≠ d) hz
  rwa [takeWhile_separator hw, takeWhile_separator hs] at this

/-- A string without `:` or without a scheme in front of its first one does not match, and what
matches has its scheme in group 1. -/
theorem genericre_sound {u : Text} {m : State} (h : matchStart genericre u = some m) :
    ∃ scheme rest, IsScheme scheme ∧ u = scheme ++ ':' :: rest ∧ m.group 1 = some scheme := by
  rw [matchStart, genericre, exec_seq, exec_bol_start, exec_seq, exec_capture, exec_seq] at h
  cases u with
  | nil => cases h
  | cons c u =>
    rw [State.start, exec_chars_cons, Option.ite_none_right_eq_some, exec_star] at h
    obtain ⟨hc, h⟩ := h
    obtain ⟨cs, b, rfl, hcs, hm⟩ := execStar_sound h
    cases b with
    | nil => cases hm
    | cons d rest =>
      rw [exec_seq, exec_lit_cons, Option.ite_none_right_eq_some] at hm
      obtain ⟨rfl, hm⟩ := hm
      -- the groups behind the colon have other numbers
      have hm : exec remainderre _ some = some m := hm
      obtain ⟨st, -, -, hgroup, hst⟩ := exec_sound hm
      obtain rfl := Option.some.inj hst
      refine ⟨c :: cs, rest, ⟨c, cs, rfl, hc, hcs⟩, rfl, ?_⟩
      rw [hgroup 1 (by decide), State.group, List.lookup_cons_self]
      simp [Nat.add_comm]

/-- A URL of another scheme does not match an expression that begins with a scheme. -/
theorem matchStart_literal_eq_none {w x s y : Text} {r : Regex} (hw : ':' ∉ w) (hs : IsScheme s)
    (hne : s ≠ w) : matchStart (.seq .bol (literal (w ++ ':' :: x) r)) (s ++ ':' :: y) = none := by
  rw [matchStart, exec_seq, exec_bol_start]
  refine exec_literal_eq_none fun h => hne ?_
  exact (eq_of_prefix_separator hw hs.colon_not_mem h).symm

/-- **The generic branch**: a URL of another protocol than the two special ones is looked up by its
protocol and its domain. -/
theorem dispatcherUrlToAppid_generic {url : Text} {m : State}
    (hm : matchStart genericre url = some m) (happid : gMatchInfoFetch m 1 ≠ "appid".toList)
    (happlication : gMatchInfoFetch m 1 ≠ "application".toList)
    (triplet : Text → Text → Text → Option Text) (find : Text → Option Text → Option Text) :
    dispatcherUrlToAppid triplet find url =
      (find (gMatchInfoFetch m 1)
        (if gMatchInfoFetch m 1 = "intent".toList then intentDomain url
          else some (gMatchInfoFetch m 2))).map fun appid => ⟨appid, some url⟩ := by
  obtain ⟨scheme, rest, hscheme, rfl, hgroup⟩ := genericre_sound hm
  have hfetch : gMatchInfoFetch m 1 = scheme := by rw [gMatchInfoFetch, hgroup, Option.getD_some]
  have hnone₁ : matchStart appidre (scheme ++ ':' :: rest) = none :=
    matchStart_literal_eq_none (w := "appid".toList) (x := "//".toList) (by decide) hscheme
      (hfetch ▸ happid)
  have hnone₂ : matchStart applicationre (scheme ++ ':' :: rest) = none :=
    matchStart_literal_eq_none (w := "application".toList) (x := "///".toList) (by decide) hscheme
      (hfetch ▸ happlication)
  simp only [dispatcherUrlToAppid, hnone₁, hnone₂, hm]

/-- `[a-z][a-z0-9]*` -/
def isScheme : Text → Bool
  | [] => false
  | c :: cs => c.isLower && cs.all schemeChar

theorem isScheme_iff {s : Text} : isScheme s = true ↔ IsScheme s := by
  cases s with
  | nil => simp [isScheme, IsScheme]
  | cons c cs =>
    rw [isScheme, Bool.and_eq_true, List.all_eq_true]
    constructor
    · rintro ⟨hc, hcs⟩
      exact ⟨c, cs, rfl, hc, hcs⟩
    · rintro ⟨c', cs', he, hc, hcs⟩
      obtain ⟨rfl, rfl⟩ := List.cons.inj he
      exact ⟨hc, hcs⟩

instance : DecidablePred IsScheme := fun _ => decidable_of_iff _ isScheme_iff

/-- The domain in what follows the first colon: none unless an authority follows. -/
def genericDomain : Text → Text
  | '/' :: '/' :: s => authorityDomain s
  | _ => []

/-- The scheme and the domain of a URL, read directly. -/
def parseGeneric (u : Text) : Option (Text × Text) :=
  match u.dropWhile (fun c => c ≠ ':') with
  | ':' :: rest =>
    if IsScheme (u.takeWhile fun c => c ≠ ':') then
      some (u.takeWhile fun c => c ≠ ':', genericDomain rest)
    else none
  | _ => none

theorem parseGeneric_of_isScheme {scheme : Text} (h : IsScheme scheme) (rest : Text) :
    parseGeneric (scheme ++ ':' :: rest) = some (scheme, genericDomain rest) := by
  have htake := takeWhile_separator h.colon_not_mem rest
  have hdrop : (scheme ++ ':' :: rest).dropWhile (fun c => c ≠ ':') = ':' :: rest := by
    have := List.takeWhile_append_dropWhile (p := fun c => decide (c ≠ ':'))
      (l := scheme ++ ':' :: rest)
    rw [htake] at this
    exact List.append_cancel_left this
  rw [parseGeneric, hdrop, htake]
  exact if_pos h

/-- What the parser accepts is a scheme, a colon and a rest. -/
theorem exists_of_parseGeneric {u : Text} (h : (parseGeneric u).isSome = true) :
    ∃ scheme rest, IsScheme scheme ∧ u = scheme ++ ':' :: rest := by
  unfold parseGeneric at h
  split at h
  · next rest hrest =>
    split_ifs at h with hs
    · refine ⟨_, rest, hs, ?_⟩
      rw [← hrest, List.takeWhile_append_dropWhile]
    · cases h
  · cases h

/-- The groups of a match as they are fetched. -/
def genericGroups (m : State) : Text × Text := (gMatchInfoFetch m 1, gMatchInfoFetch m 2)

/-- Behind the scheme the expression always matches, and captures the domain. -/
theorem genericre_groups {scheme rest : Text} (hscheme : IsScheme scheme)
    (hrest : ∀ c ∈ rest, dot c = true) :
    (matchStart genericre (scheme ++ ':' :: rest)).map genericGroups =
      some (scheme, genericDomain rest) := by
  by_cases hslash : "//".toList <+: rest
  · obtain ⟨s, rfl⟩ := hslash
    obtain ⟨m, hm, h1, h2⟩ := genericre_authority hscheme (s := s) fun c hc =>
      hrest c (List.mem_append_right _ hc)
    have hm : matchStart genericre (scheme ++ ':' :: ("//".toList ++ s)) = some m := hm
    rw [hm, Option.map_some, genericGroups, gMatchInfoFetch, gMatchInfoFetch, h1, h2]
    rfl
  · -- no group 2, which is fetched as the empty string
    rw [genericre_of_scheme hscheme (remainderre_plain hrest hslash _)]
    have hdomain : genericDomain rest = [] := by
      unfold genericDomain
      split
      · next s => exact absurd ⟨s, rfl⟩ hslash
      · rfl
    rw [hdomain]
    rfl

/-- **The generic expression equals the direct parser**: on a string without newlines its leftmost
match exists exactly when the string begins with a scheme and a colon, and the groups fetched from
it are the scheme and the domain. -/
theorem search_genericre (u : Text) (hu : ∀ c ∈ u, dot c = true) :
    (search genericre u).map genericGroups = parseGeneric u := by
  have hstart : search genericre u = matchStart genericre u := search_bol _ u
  rw [hstart]
  by_cases hscheme : ∃ scheme rest, IsScheme scheme ∧ u = scheme ++ ':' :: rest
  · obtain ⟨scheme, rest, hs, rfl⟩ := hscheme
    rw [parseGeneric_of_isScheme hs]
    exact genericre_groups hs fun c hc => hu c (List.mem_append_right _ (List.mem_cons_of_mem _ hc))
  · cases hm : matchStart genericre u with
    | some m =>
      obtain ⟨scheme, rest, hs, he, -⟩ := genericre_sound hm
      exact absurd ⟨scheme, rest, hs, he⟩ hscheme
    | none =>
      cases hp : parseGeneric u with
      | none => rfl
      | some r => exact absurd (exists_of_parseGeneric (hp ▸ rfl)) hscheme

/-- An `@` in the path moves the domain, a port and a slash do not shorten it. -/
theorem search_genericre_path :
    (search genericre "http://me@foo.com:80/a/b@bar.org:1/c".toList).map genericGroups =
      some ("http".toList, "bar.org".toList) :=
  (search_genericre _ (List.all_eq_true.1 rfl)).trans (by decide)

end UrlDispatcher
