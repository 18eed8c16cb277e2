import UrlDispatcher.Dispatch.Application
import UrlDispatcher.Dispatch.Service

/-!
# Where an AppID comes from

`dispatcher_url_to_appid` has three ways to an AppID: ubuntu-app-launch makes it of the parts of an
`appid://` URL, it stands in an `application:///` URL, or it is that of the file the database
answers with.  `Origin` lists them, once for all that depends on which it was
(`dispatcherUrlToAppid_eq_some`).

`captures_nothing_iff` : the URL from which the empty AppID is captured.
-/

namespace UrlDispatcher

open Regex

/-- `url_db_find_url` is called for the URL with that protocol and that domain. -/
structure IsLookedUp (url protocol : Text) (domain : Option Text) : Prop where
  appid : matchStart appidre url = none
  application : matchStart applicationre url = none
  generic : ∃ m, matchStart genericre url = some m ∧ protocol = gMatchInfoFetch m 1 ∧
    domain = if protocol = "intent".toList then intentDomain url else some (gMatchInfoFetch m 2)

/-- What `dispatcher_url_to_appid` answers, by the origin of the AppID. -/
inductive Origin (triplet : Text → Text → Text → Option Text)
    (find : Text → Option Text → Option Text) (url : Text) : Resolved → Prop
  /-- The AppID of the parts of an `appid://` URL. -/
  | parts (m : State) (appid : Text) (hm : matchStart appidre url = some m)
      (h : triplet (gMatchInfoFetch m 1) (gMatchInfoFetch m 2) (gMatchInfoFetch m 3) = some appid) :
      Origin triplet find url ⟨appid, none⟩
  /-- The AppID in an `application:///` URL. -/
  | application (m : State) (hm : matchStart applicationre url = some m) :
      Origin triplet find url ⟨gMatchInfoFetch m 1, none⟩
  /-- The AppID of the file found for any other URL. -/
  | file (protocol : Text) (domain : Option Text) (appid : Text)
      (hl : IsLookedUp url protocol domain) (h : find protocol domain = some appid) :
      Origin triplet find url ⟨appid, some url⟩

variable {triplet : Text → Text → Text → Option Text} {find : Text → Option Text → Option Text}
  {url : Text} {r : Resolved}

/-- `Origin` says everything the function can answer. -/
theorem dispatcherUrlToAppid_eq_some :
    dispatcherUrlToAppid triplet find url = some r ↔ Origin triplet find url r := by
  constructor
  · intro h
    unfold dispatcherUrlToAppid at h
    cases happid : matchStart appidre url with
    | some m =>
      rw [happid] at h
      obtain ⟨appid, ht, rfl⟩ := Option.map_eq_some_iff.1 h
      exact .parts m appid happid ht
    | none =>
      rw [happid] at h
      cases happlication : matchStart applicationre url with
      | some m =>
        rw [happlication] at h
        cases h
        exact .application m happlication
      | none =>
        rw [happlication] at h
        cases hgeneric : matchStart genericre url with
        | none =>
          rw [hgeneric] at h
          cases h
        | some m =>
          rw [hgeneric] at h
          obtain ⟨appid, hf, rfl⟩ := Option.map_eq_some_iff.1 h
          exact .file _ _ appid ⟨happid, happlication, m, hgeneric, rfl, rfl⟩ hf
  · rintro (⟨m, appid, hm, h⟩ | ⟨m, hm⟩ | ⟨p, d, appid, ⟨happid, happlication, m, hm, rfl, rfl⟩, h⟩)
    · simp only [dispatcherUrlToAppid, hm, h, Option.map_some]
    · exact dispatcherUrlToAppid_of_applicationre hm triplet find
    · simp only [dispatcherUrlToAppid, happid, happlication, hm, h, Option.map_some]

/-- The AppID that an `appid://` or an `application:///` URL stands for by itself. -/
def NamesApp (triplet : Text → Text → Text → Option Text) (url appid : Text) : Prop :=
  (∃ m, matchStart appidre url = some m ∧
    triplet (gMatchInfoFetch m 1) (gMatchInfoFetch m 2) (gMatchInfoFetch m 3) = some appid) ∨
  ∃ m, matchStart applicationre url = some m ∧ gMatchInfoFetch m 1 = appid

/-- Without a URL to send there is such an AppID, and no other URL is ever sent than the one that
came. -/
theorem Origin.outurl_cases (h : Origin triplet find url r) :
    (r.outurl = none ∧ NamesApp triplet url r.appid) ∨
      (r.outurl = some url ∧ ∀ appid, ¬ NamesApp triplet url appid) := by
  cases h with
  | parts m appid hm h => exact .inl ⟨rfl, .inl ⟨m, hm, h⟩⟩
  | application m hm => exact .inl ⟨rfl, .inr ⟨m, hm, rfl⟩⟩
  | file p d appid hl h =>
    refine .inr ⟨rfl, ?_⟩
    rintro appid' (⟨m, hm, -⟩ | ⟨m, hm, -⟩)
    · rw [hl.appid] at hm
      cases hm
    · rw [hl.application] at hm
      cases hm

theorem NamesApp.origin {appid : Text} (h : NamesApp triplet url appid)
    (find : Text → Option Text → Option Text) : Origin triplet find url ⟨appid, none⟩ := by
  rcases h with ⟨m, hm, h⟩ | ⟨m, hm, rfl⟩
  · exact .parts m appid hm h
  · exact .application m hm

/-- `application:///.desktop`, with at most a newline behind it. -/
def EmptyApplication (url : Text) : Prop :=
  ∃ newline, atEnd newline = true ∧ url = "application:///.desktop".toList ++ newline

/-- From this URL, and no other, the empty AppID is captured. -/
theorem captures_nothing_iff :
    (∃ m, matchStart applicationre url = some m ∧ gMatchInfoFetch m 1 = []) ↔
      EmptyApplication url := by
  have hiff := wrapped_nil_iff (w := "application:///".toList) (n := 1) (p := applicationChar)
    (s := url) (show ".desktop".toList = ".deskto".toList ++ ['p'] from rfl) (by decide)
  rw [← applicationre_eq] at hiff
  refine Iff.trans (exists_congr fun m => and_congr_right fun hm => ?_) hiff
  obtain ⟨appid, -, -, -, -, hgroup⟩ := wrapped_match (applicationre_eq ▸ hm)
  rw [gMatchInfoFetch, hgroup, Option.getD_some, Option.some.injEq]

end UrlDispatcher
