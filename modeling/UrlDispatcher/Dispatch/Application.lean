import UrlDispatcher.Dispatch.Generic

/-!
# The URLs of applications

`application:///X.desktop` stands for the AppID `X`.  The class of the group that captures `X`
contains every character of `.desktop`, so the repetition first runs to the end of the URL and then
gives back one `.desktop`, also where `X` itself holds another one.

`application_roundtrip` : the function resolves that URL to `X`, whatever the database holds, and no
other URL without newlines is resolved to `X` by this branch.
-/

namespace UrlDispatcher

open Regex

/-- The URL of the application with that AppID. -/
def applicationUrl (appid : Text) : Text :=
  "application:///".toList ++ (appid ++ ".desktop".toList)

theorem applicationre_eq :
    applicationre = wrapped "application:///".toList 1 applicationChar ".desktop".toList := rfl

/-- The URL of an application matches, and its AppID is captured. -/
theorem applicationre_applicationUrl {appid : Text} (h : ∀ c ∈ appid, applicationChar c = true) :
    ∃ m, matchStart applicationre (applicationUrl appid) = some m ∧
      gMatchInfoFetch m 1 = appid := by
  rw [applicationre_eq]
  obtain ⟨m, hm, hgroup⟩ := wrapped_append (w := "application:///".toList) (n := 1)
    (v := ".desktop".toList) h
  exact ⟨m, hm, by rw [gMatchInfoFetch, hgroup, Option.getD_some]⟩

/-- What matches and has no newline in it is the URL of the AppID captured. -/
theorem eq_applicationUrl {u : Text} (hu : ∀ c ∈ u, dot c = true) {m : State}
    (h : matchStart applicationre u = some m) : u = applicationUrl (gMatchInfoFetch m 1) := by
  rw [applicationre_eq] at h
  obtain ⟨appid, he, hgroup⟩ := wrapped_sound hu h
  have hfetch : gMatchInfoFetch m 1 = appid := by rw [gMatchInfoFetch, hgroup, Option.getD_some]
  rw [hfetch]
  exact he

/-- No URL matches both special expressions. -/
theorem not_appidre_and_applicationre (u : Text) :
    ¬ ((matchStart appidre u).isSome = true ∧ (matchStart applicationre u).isSome = true) := by
  rintro ⟨h, h'⟩
  obtain ⟨m, hm⟩ := Option.isSome_iff_exists.1 h
  obtain ⟨m', hm'⟩ := Option.isSome_iff_exists.1 h'
  have hp : "appid://".toList <+: "application:///".toList :=
    List.prefix_of_prefix_length_le (prefix_of_matchStart hm) (prefix_of_matchStart hm') (by decide)
  revert hp
  decide

/-- A URL that matches is resolved to what is captured; nothing is looked up. -/
theorem dispatcherUrlToAppid_of_applicationre {u : Text} {m : State}
    (h : matchStart applicationre u = some m) (triplet : Text → Text → Text → Option Text)
    (find : Text → Option Text → Option Text) :
    dispatcherUrlToAppid triplet find u = some ⟨gMatchInfoFetch m 1, none⟩ := by
  have hnone : matchStart appidre u = none := by
    rw [← Option.not_isSome_iff_eq_none]
    exact fun happid => not_appidre_and_applicationre u ⟨happid, h ▸ rfl⟩
  simp only [dispatcherUrlToAppid, hnone, h]

/-- **Application URLs decode exactly.**  The URL of an AppID is resolved to it, without a URL to
send and whatever the database answers; a URL without newlines that is resolved by this branch is
the URL of its AppID; and no URL belongs to this branch and to that of `appid://`. -/
theorem application_roundtrip :
    (∀ appid : Text, (∀ c ∈ appid, applicationChar c = true) → ∀ triplet find,
      dispatcherUrlToAppid triplet find (applicationUrl appid) = some ⟨appid, none⟩) ∧
    (∀ (u : Text) (m : State), (∀ c ∈ u, dot c = true) → matchStart applicationre u = some m →
      ∀ triplet find, ∃ appid, dispatcherUrlToAppid triplet find u = some ⟨appid, none⟩ ∧
        u = applicationUrl appid) ∧
    ∀ u : Text, ¬ ((matchStart appidre u).isSome = true ∧
      (matchStart applicationre u).isSome = true) := by
  refine ⟨fun appid h triplet find => ?_, fun u m hu hm triplet find => ?_,
    not_appidre_and_applicationre⟩
  · obtain ⟨m, hm, hfetch⟩ := applicationre_applicationUrl h
    rw [dispatcherUrlToAppid_of_applicationre hm, hfetch]
  · exact ⟨_, dispatcherUrlToAppid_of_applicationre hm triplet find, eq_applicationUrl hu hm⟩

/-- An AppID that ends in `.desktop` itself. -/
theorem application_roundtrip_desktop :
    dispatcherUrlToAppid (fun _ _ _ => none) (fun _ _ => none)
      "application:///org.foo.desktop.desktop".toList = some ⟨"org.foo.desktop".toList, none⟩ :=
  application_roundtrip.1 "org.foo.desktop".toList (List.all_eq_true.1 rfl) _ _

end UrlDispatcher
