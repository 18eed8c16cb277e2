import UrlDispatcher.Dispatch.Origin
import UrlDispatcher.Dispatch.Reply

/-!
# `TestURL` as a preview of `DispatchURL`

`TestURL` shares the resolver with `DispatchURL` and nothing of what follows it: the check for
`unconfined`, and that an overlay and the dash need a URL to show, which `application:///` and
`appid://` URLs do not leave.

* `Predicts w urls` : what `TestURL` replies for the URLs is what becomes of each of them.
* `predicts_iff` : that holds exactly of the lists without such a URL, and of those `TestURL`
  refuses for another one.
-/

namespace UrlDispatcher

open Regex

/-- The caller's PID, the tracker, the session bus and the start of applications all work. -/
structure Outcomes.Works (o : Outcomes) : Prop where
  sessionBus : o.sessionBus = true
  callerPid : o.callerPid.getD 0 ≠ 0
  tracker : o.tracker ≠ none
  promptSession : o.promptSession ≠ none
  sessionHelper : o.sessionHelper ≠ none

/-- The URL is dispatched without an error. -/
def Dispatched (w : System) (o : Outcomes) (url : Text) : Prop :=
  (dispatchUrl w o url []).replies = [.returnValue none]

/-- What is done for the URL is done for the AppID. -/
def SentTo (w : System) (o : Outcomes) (url appid : Text) : Prop :=
  ∃ a, (dispatchUrl w o url []).actions = [a] ∧ a.appid = appid

/-- `TestURL` returns a list exactly if every URL is dispatched, a list of the AppIDs to which they
are sent, and answers with the error for a bad URL otherwise. -/
def Predicts (w : System) (urls : List Text) : Prop :=
  ∀ o : Outcomes, o.Works →
    ((∃ appids, (testUrl w o urls).replies = [.returnValue (some appids)]) ↔
      ∀ url ∈ urls, Dispatched w o url) ∧
    (∀ appids, (testUrl w o urls).replies = [.returnValue (some appids)] →
      List.Forall₂ (SentTo w o) urls appids) ∧
    ((∃ url ∈ urls, ¬ Dispatched w o url) → ∃ url, (testUrl w o urls).replies = [badUrlReply url])

/-- An `appid://` or an `application:///` URL. -/
def IsAppUrl (url : Text) : Prop :=
  (matchStart appidre url).isSome = true ∨ (matchStart applicationre url).isSome = true

/-- These and no others are resolved without a URL to send. -/
theorem System.outurl_eq_none_iff {w : System} {url : Text} {r : Resolved}
    (h : w.urlToAppid url = some r) : r.outurl = none ↔ IsAppUrl url := by
  cases dispatcherUrlToAppid_eq_some.1 h with
  | parts m appid hm _ => exact iff_of_true rfl (.inl (by rw [hm]; rfl))
  | application m hm => exact iff_of_true rfl (.inr (by rw [hm]; rfl))
  | file p d appid hl _ =>
    refine iff_of_false (Option.some_ne_none url) ?_
    rw [IsAppUrl, hl.appid, hl.application]
    rintro (hm | hm) <;> cases hm

/-- The AppID is refused by `DispatchURL` only, or cannot be sent without the URL that an `appid://`
or `application:///` URL does not leave. -/
def Refused (w : System) (url : Text) (r : Resolved) : Prop :=
  r.appid = "unconfined".toList ∨
    ((dispatcherIsOverlay w r.appid = true ∨ r.appid = unity8Dash) ∧ IsAppUrl url)

section

variable {w : System} {o : Outcomes} {url : Text} {r : Resolved}

/-- With everything working only an overlay without a URL fails, and only the dash without one kills
the service. -/
theorem sendFails_or_sendCrashes_iff (ho : o.Works) (h : w.urlToAppid url = some r) :
    SendFails w o r ∨ SendCrashes w o r ↔
      (dispatcherIsOverlay w r.appid = true ∨ r.appid = unity8Dash) ∧ IsAppUrl url := by
  rw [← System.outurl_eq_none_iff h, SendFails, SendCrashes]
  cases dispatcherIsOverlay w r.appid with
  | true => simp [ho.callerPid, ho.tracker, ho.promptSession, ho.sessionHelper]
  | false => simp [ho.sessionBus]

/-- **What is dispatched** with everything working, and where it goes. -/
theorem dispatch_works (ho : o.Works) :
    (Dispatched w o url ↔ ∃ r, w.urlToAppid url = some r ∧ ¬ Refused w url r) ∧
    (Dispatched w o url → ∀ r, w.urlToAppid url = some r → SentTo w o url r.appid) := by
  unfold Dispatched SentTo
  -- a send that does not succeed is one of an AppID that is refused
  have hrefused : ∀ r, w.urlToAppid url = some r → SendFails w o r ∨ SendCrashes w o r →
      ¬ ∃ r', w.urlToAppid url = some r' ∧ ¬ Refused w url r' := by
    rintro r hr hf ⟨r', hr', href⟩
    cases hr.symm.trans hr'
    exact href (.inr ((sendFails_or_sendCrashes_iff ho hr).1 hf))
  obtain ⟨hno, h⟩ | ⟨r, -, hrestrict, -⟩ | ⟨r, hr, -, hf, hc, c, a, hsent, h⟩ |
    ⟨r, hr, -, hf, -, c, -, h⟩ | ⟨r, hr, -, -, hc, h⟩ := dispatchUrl_cases w o url []
  · rw [h]
    exact ⟨iff_of_false (fun he => by cases he) fun ⟨r, hr, href⟩ => hno r ⟨hr, fun hun =>
      href (.inl hun)⟩, fun he => by cases he⟩
  · -- nobody is restricted to the empty package
    cases hrestrict
  · rw [h]
    have hsends : ¬ (SendFails w o r ∨ SendCrashes w o r) := not_or.2 ⟨hf, hc⟩
    rw [sendFails_or_sendCrashes_iff ho hr.1] at hsends
    refine ⟨iff_of_true rfl ⟨r, hr.1, fun href => href.elim hr.2 hsends⟩, fun _ r' hr' => ?_⟩
    cases hr.1.symm.trans hr'
    exact ⟨a, hsent.actions, hsent.appid⟩
  · rw [h]
    exact ⟨iff_of_false (fun he => by cases he) (hrefused r hr.1 (.inl hf)), fun he => by cases he⟩
  · rw [h]
    exact ⟨iff_of_false (fun he => by cases he) (hrefused r hr.1 (.inr hc)), fun he => by cases he⟩

end

/-- **`TestURL` predicts `DispatchURL`** exactly if one of the URLs does not resolve, or none of
them is refused by `DispatchURL` after it has been resolved. -/
theorem predicts_iff {w : System} {urls : List Text} (hne : urls ≠ []) : Predicts w urls ↔
    (∃ url ∈ urls, w.urlToAppid url = none) ∨
      ∀ url ∈ urls, ∀ r, w.urlToAppid url = some r → ¬ Refused w url r := by
  constructor
  · intro h
    by_cases hnone : ∃ url ∈ urls, w.urlToAppid url = none
    · exact .inl hnone
    refine .inr fun url hurl r hr href => ?_
    -- all URLs resolve, so `TestURL` returns a list, but this one is not dispatched
    have ho : Outcomes.Works ⟨true, some 1, some .init, some 0, some []⟩ :=
      ⟨rfl, Nat.one_ne_zero, Option.some_ne_none _, Option.some_ne_none _, Option.some_ne_none _⟩
    obtain ⟨rs, -, -, htest⟩ | ⟨hbad, -⟩ := testUrl_cases w _ urls
    · have hd := (h _ ho).1.1 ⟨_, by rw [htest]⟩ url hurl
      obtain ⟨r', hr', href'⟩ := (dispatch_works ho).1.1 hd
      cases hr.symm.trans hr'
      exact href' href
    · exact hbad.elim hne hnone
  · intro h o ho
    obtain ⟨rs, -, hrs, htest⟩ | ⟨hbad, url, htest⟩ := testUrl_cases w o urls
    · -- all URLs resolve, and none of them is refused
      have hall : ∀ url ∈ urls, ∃ r, w.urlToAppid url = some r :=
        ((List.forall₂_and_left _ _).1 (hrs.imp fun url r hr => ⟨⟨r, hr⟩, hr⟩)).1
      have hd : ∀ url ∈ urls, Dispatched w o url := by
        intro url hurl
        obtain ⟨r, hr⟩ := hall url hurl
        rcases h with ⟨url', hurl', hnone⟩ | h
        · obtain ⟨r', hr'⟩ := hall url' hurl'
          cases hnone.symm.trans hr'
        · exact (dispatch_works ho).1.2 ⟨r, hr, h url hurl r hr⟩
      refine ⟨iff_of_true ⟨_, by rw [htest]⟩ hd, fun appids he => ?_,
        fun ⟨url, hurl, hn⟩ => absurd (hd url hurl) hn⟩
      rw [htest] at he
      cases he
      rw [List.forall₂_map_right_iff]
      exact ((List.forall₂_and_left _ _).2 ⟨hd, hrs⟩).imp fun url r hr =>
        (dispatch_works ho).2 hr.1 r hr.2
    · -- a URL that does not resolve is refused by both
      obtain ⟨url', hurl', hnone⟩ := hbad.resolve_left hne
      have hn : ¬ Dispatched w o url' := by
        intro hd
        obtain ⟨r, hr, -⟩ := (dispatch_works ho).1.1 hd
        cases hnone.symm.trans hr
      refine ⟨iff_of_false ?_ fun hd => hn (hd url' hurl'), fun appids he => ?_,
        fun _ => ⟨url, by rw [htest]⟩⟩
      · rintro ⟨appids, he⟩
        rw [htest] at he
        cases he
      · rw [htest] at he
        cases he

/-- `predicts_iff` for `http://foo.com`, which has a handler. -/
theorem predicts_fooUrl : Predicts fooSystem ["http://foo.com".toList] := by
  refine (predicts_iff (List.cons_ne_nil _ _)).2 (.inr fun url hurl r hr => ?_)
  rw [List.mem_singleton.1 hurl] at hr ⊢
  cases fooSystem_resolves.1.symm.trans hr
  rintro (h | ⟨h | h, -⟩)
  all_goals
    revert h
    decide

/-- `TestURL` returns `unconfined` for `application:///unconfined.desktop`, which `DispatchURL`
refuses. -/
theorem not_predicts_unconfined :
    ¬ ∀ w urls, urls ≠ [] → Predicts w urls := by
  intro h
  have hp := h (plainSystem .empty []) ["application:///unconfined.desktop".toList] (by decide)
    ⟨true, some 1, some .init, some 0, some []⟩
    ⟨rfl, Nat.one_ne_zero, Option.some_ne_none _, Option.some_ne_none _, Option.some_ne_none _⟩
  have hd := hp.1.1 ⟨["unconfined".toList], by decide⟩ _ (List.mem_singleton_self _)
  revert hd
  unfold Dispatched
  decide

end UrlDispatcher
