import UrlDispatcher.Db.Basic
import UrlDispatcher.Regex.Basic
import Mathlib.Data.List.DropRight

/-!
# From a URL to an AppID

The four regular expressions of `dispatcher_init` and `dispatcher_url_to_appid`.  All of them begin
with `^`, so only a match at the start of the URL counts.  The function takes as arguments what it
calls: `triplet` is `ubuntu_app_launch_triplet_to_app_id`, and `find` is `url_db_find_url` on the
database.

`genericre_authority` says what the expression for all other URLs captures from a URL with an
authority: the domain begins after the *last* `@` of the whole URL.
-/

namespace UrlDispatcher

open Regex

/-! ### The expressions -/

/-- `[a-z0-9]` -/
def schemeChar (c : Char) : Bool := c.isLower || c.isDigit

/-- `[a-zA-Z0-9\\.-]` -/
def hostChar (c : Char) : Bool := c.isAlphanum || c = '.' || c = '-'

/-- `[a-zA-Z0-9_\\.-]` -/
def applicationChar (c : Char) : Bool := c.isAlphanum || c = '_' || c = '.' || c = '-'

/-- `[a-z0-9\\.-]` -/
def packageChar (c : Char) : Bool := c.isLower || c.isDigit || c = '.' || c = '-'

/-- `[a-zA-Z0-9-]` -/
def appChar (c : Char) : Bool := c.isAlphanum || c = '-'

/-- `[a-zA-Z0-9\\.]` -/
def intentPackageChar (c : Char) : Bool := c.isAlphanum || c = '.'

/-- `^application:///([a-zA-Z0-9_\\.-]*)\\.desktop$` -/
def applicationre : Regex :=
  .seq .bol (literal "application:///".toList (.seq (.capture 1 (.star applicationChar))
    (literal ".desktop".toList .eol)))

/-- `^appid://([a-z0-9\\.-]*)/([a-zA-Z0-9-]*)/([a-zA-Z0-9\\.-]*)$` -/
def appidre : Regex :=
  .seq .bol (literal "appid://".toList (.seq (.capture 1 (.star packageChar))
    (.seq (lit '/') (.seq (.capture 2 (.star appChar))
      (.seq (lit '/') (.seq (.capture 3 (.star hostChar)) .eol))))))

/-- `(?:.*@)?` -/
def userinfore : Regex := .opt (.seq (.star dot) (lit '@'))

/-- `([a-zA-Z0-9\\.-]*)(?::[0-9]*)?/?` -/
def hostre : Regex :=
  .seq (.capture 2 (.star hostChar))
    (.seq (.opt (.seq (lit ':') (.star Char.isDigit))) (.opt (lit '/')))

/-- `(.*)?$` -/
def tailre : Regex := .seq (.opt (.capture 3 (.star dot))) .eol

/-- `^([a-z][a-z0-9]*):(?://(?:.*@)?([a-zA-Z0-9\\.-]*)(?::[0-9]*)?/?)?(.*)?$` -/
def genericre : Regex :=
  .seq .bol (.seq (.capture 1 (.seq (.chars Char.isLower) (.star schemeChar)))
    (.seq (lit ':') (.seq (.opt (literal "//".toList (.seq userinfore hostre))) tailre)))

/-- `^intent://.*package=([a-zA-Z0-9\\.]*);.*$` -/
def intentre : Regex :=
  .seq .bol (literal "intent://".toList (.seq (.star dot) (literal "package=".toList
    (.seq (.capture 1 (.star intentPackageChar)) (.seq (lit ';') (.seq (.star dot) .eol))))))

/-! ### The function -/

/-- `g_match_info_fetch`: a group that is not part of the match is fetched as the empty string. -/
def gMatchInfoFetch (m : State) (n : ℕ) : Text := (m.group n).getD []

/-- `intent_domain`: the package named in an intent, `NULL` if there is none. -/
def intentDomain (url : Text) : Option Text :=
  (matchStart intentre url).map fun m => gMatchInfoFetch m 1

/-- An AppID and the URL to send to it, `NULL` if the application is only to be started. -/
structure Resolved where
  appid : Text
  outurl : Option Text
deriving DecidableEq

/-- `dispatcher_url_to_appid`, `none` for the answer `FALSE`. -/
def dispatcherUrlToAppid (triplet : Text → Text → Text → Option Text)
    (find : Text → Option Text → Option Text) (url : Text) : Option Resolved :=
  match matchStart appidre url with
  | some m =>
    (triplet (gMatchInfoFetch m 1) (gMatchInfoFetch m 2) (gMatchInfoFetch m 3)).map fun appid =>
      ⟨appid, none⟩
  | none =>
    match matchStart applicationre url with
    | some m => some ⟨gMatchInfoFetch m 1, none⟩
    | none =>
      match matchStart genericre url with
      | some m =>
        let protocol := gMatchInfoFetch m 1
        let domain :=
          if protocol = "intent".toList then intentDomain url else some (gMatchInfoFetch m 2)
        (find protocol domain).map fun appid => ⟨appid, some url⟩
      | none => none

/-! ### What `genericre` captures -/

/-- What follows the last `@`, everything if there is none. -/
def afterLastAt (s : List Char) : List Char := s.rtakeWhile fun c => c ≠ '@'

/-- The domain `genericre` captures from what follows `://`. -/
def authorityDomain (s : List Char) : List Char := (afterLastAt s).takeWhile hostChar

/-- `[a-z][a-z0-9]*` -/
def IsScheme (s : Text) : Prop :=
  ∃ c cs, s = c :: cs ∧ c.isLower = true ∧ ∀ d ∈ cs, schemeChar d = true

theorem afterLastAt_of_not_mem {s : List Char} (h : '@' ∉ s) : afterLastAt s = s := by
  rw [afterLastAt, List.rtakeWhile_eq_self_iff]
  intro c hc
  rw [decide_eq_true_eq]
  rintro rfl
  exact h hc

theorem afterLastAt_append (a : List Char) {b : List Char} (h : '@' ∉ b) :
    afterLastAt (a ++ '@' :: b) = b := by
  have hb : ∀ c ∈ b.reverse, decide (c ≠ '@') = true := by
    intro c hc
    rw [decide_eq_true_eq]
    rintro rfl
    exact h (List.mem_reverse.1 hc)
  rw [afterLastAt, List.rtakeWhile, List.reverse_append, List.reverse_cons, List.append_assoc,
    List.takeWhile_append_of_pos hb]
  simp

/-- A string with an `@` has a last one. -/
theorem exists_last_at {s : List Char} (h : '@' ∈ s) : ∃ a b, s = a ++ '@' :: b ∧ '@' ∉ b := by
  obtain ⟨b, a, hs, hb⟩ := List.eq_append_cons_of_mem (List.mem_reverse.2 h)
  refine ⟨a.reverse, b.reverse, ?_, by simpa using hb⟩
  rw [← List.reverse_reverse s, hs]
  simp

theorem afterLastAt_append_of_mem (p : List Char) {s : List Char} (h : '@' ∈ s) :
    afterLastAt (p ++ s) = afterLastAt s := by
  obtain ⟨a, b, rfl, hb⟩ := exists_last_at h
  rw [← List.append_assoc, afterLastAt_append _ hb, afterLastAt_append a hb]

theorem head?_dropWhile_not {p : Char → Bool} (s : List Char) :
    ∀ c ∈ (s.dropWhile p).head?, p c = false := by
  intro c hc
  have h := List.head?_dropWhile_not p s
  rw [Option.mem_def.1 hc] at h
  simpa using h

section

variable {g : List (ℕ × List Char)}

/-- The end of the expression matches whatever is left. -/
theorem tailre_exec {s : List Char} (hs : ∀ c ∈ s, dot c = true) (pos : ℕ) :
    exec tailre ⟨pos, s, g⟩ some = some ⟨pos + s.length, [], (3, s) :: g⟩ := by
  have h : exec (.capture 3 (.star dot)) ⟨pos, s ++ [], g⟩ (fun st => exec .eol st some) =
      some ⟨pos + s.length, [], (3, s) :: g⟩ := exec_capture_star hs (by simp) rfl
  rw [List.append_nil] at h
  rw [tailre, exec_seq, exec_opt, h]
  rfl

/-- From the host on, the group 2 is the longest run of host characters. -/
theorem hostre_exec {s : List Char} (hs : ∀ c ∈ s, dot c = true) (pos : ℕ) :
    ∃ y, exec hostre ⟨pos, s, g⟩ (fun st => exec tailre st some) = some y ∧
      ∃ x, y.groups = (3, x) :: (2, s.takeWhile hostChar) :: g := by
  set h := s.takeWhile hostChar with hh
  set b := s.dropWhile hostChar with hb
  have hsplit : s = h ++ b := (List.takeWhile_append_dropWhile).symm
  have hrest : ∃ y, exec (.seq (.opt (.seq (lit ':') (.star Char.isDigit))) (.opt (lit '/')))
      ⟨pos + h.length, b, (2, h) :: g⟩ (fun st => exec tailre st some) = some y ∧
      ∃ x, y.groups = (3, x) :: (2, h) :: g := by
    rw [exec_seq]
    refine exec_opt_of_forall rfl fun pos₁ s₁ hs₁ => exec_opt_of_forall rfl fun pos₂ s₂ hs₂ => ?_
    refine ⟨_, tailre_exec (fun c hc => hs c ?_) pos₂, s₂, rfl⟩
    rw [hsplit]
    exact List.mem_append_right _ (hs₁.subset (hs₂.subset hc))
  obtain ⟨y, hy, hx⟩ := hrest
  refine ⟨y, ?_, hx⟩
  rw [hostre, exec_seq, hsplit]
  exact exec_capture_star (fun c hc => List.mem_takeWhile_imp hc) (head?_dropWhile_not s) hy

/-- `(?://(?:.*@)?([a-zA-Z0-9\\.-]*)(?::[0-9]*)?/?)?(.*)?$`, what `genericre` has behind the
colon. -/
def remainderre : Regex := .seq (.opt (literal "//".toList (.seq userinfore hostre))) tailre

/-- Behind `//`, the group 2 begins behind the last `@` of everything that follows. -/
theorem remainderre_authority {s : List Char} (hs : ∀ c ∈ s, dot c = true) (pos : ℕ) :
    ∃ m, exec remainderre ⟨pos, '/' :: '/' :: s, g⟩ some = some m ∧
      ∃ x, m.groups = (3, x) :: (2, authorityDomain s) :: g := by
  -- behind the optional user information
  have hhost : ∀ pos, ∃ m, exec (.seq userinfore hostre) ⟨pos, s, g⟩
      (fun st => exec tailre st some) = some m ∧
      ∃ x, m.groups = (3, x) :: (2, authorityDomain s) :: g := by
    intro pos
    rw [exec_seq, userinfore, exec_opt, exec_seq, exec_star]
    by_cases hat : '@' ∈ s
    · obtain ⟨a, b, rfl, hb⟩ := exists_last_at hat
      obtain ⟨m, hm, hx⟩ := hostre_exec (g := g) (fun d hd => hs d (List.mem_append_right _
        (List.mem_cons_of_mem _ hd))) (pos + a.length + 1)
      refine ⟨m, ?_, by rwa [authorityDomain, afterLastAt_append a hb]⟩
      rw [exec_star_lit_last (fun d hd => hs d (List.mem_append_left _ hd)) hb hm]
      rfl
    · obtain ⟨m, hm, hx⟩ := hostre_exec (g := g) hs pos
      refine ⟨m, ?_, by rwa [authorityDomain, afterLastAt_of_not_mem hat]⟩
      rw [exec_star_lit_none hat]
      exact hm
  obtain ⟨m, hm, hx⟩ := hhost (pos + 2)
  refine ⟨m, ?_, hx⟩
  have hslashes : exec (literal "//".toList (.seq userinfore hostre))
      ⟨pos, '/' :: '/' :: s, g⟩ (fun st => exec tailre st some) = some m := hm
  rw [remainderre, exec_seq, exec_opt, hslashes]
  rfl

/-- Without `//` there is no group 2. -/
theorem remainderre_plain {s : List Char} (hs : ∀ c ∈ s, dot c = true) (hno : ¬ "//".toList <+: s)
    (pos : ℕ) :
    exec remainderre ⟨pos, s, g⟩ some = some ⟨pos + s.length, [], (3, s) :: g⟩ := by
  rw [remainderre, exec_seq, exec_opt, exec_literal_eq_none hno, Option.none_or]
  exact tailre_exec hs pos

/-- The group 1 is the scheme, if the rest matches behind the colon. -/
theorem genericre_of_scheme {scheme s : Text} {m : State} (hscheme : IsScheme scheme)
    (hm : exec remainderre ⟨scheme.length + 1, s, [(1, scheme)]⟩ some = some m) :
    matchStart genericre (scheme ++ ':' :: s) = some m := by
  obtain ⟨c, cs, rfl, hc, hcs⟩ := hscheme
  rw [matchStart, genericre, exec_seq, exec_bol_start, exec_seq, exec_capture, exec_seq,
    State.start, List.cons_append, exec_chars_cons, if_pos hc, exec_star]
  refine exec_star_longest hcs (by simp; decide) ?_
  have htake : (c :: (cs ++ ':' :: s)).take (0 + 1 + cs.length - 0) = c :: cs := by
    rw [← List.cons_append, List.take_append_of_le_length (by simp; omega)]
    simp [Nat.add_comm]
  dsimp only
  rw [htake, exec_seq, exec_lit_cons, if_pos rfl, Nat.add_comm (0 + 1), Nat.zero_add]
  exact hm

/-- **The authority.**  The group 2 begins behind the last `@` of everything that follows `://`. -/
theorem genericre_authority {scheme s : Text} (hscheme : IsScheme scheme)
    (hs : ∀ c ∈ s, dot c = true) :
    ∃ m, matchStart genericre (scheme ++ ':' :: '/' :: '/' :: s) = some m ∧
      m.group 1 = some scheme ∧ m.group 2 = some (authorityDomain s) := by
  obtain ⟨m, hm, x, hx⟩ := remainderre_authority (g := [(1, scheme)]) hs (scheme.length + 1)
  exact ⟨m, genericre_of_scheme hscheme hm, by rw [State.group, hx]; rfl,
    by rw [State.group, hx]; rfl⟩

end

end UrlDispatcher
