import UrlDispatcher.Dispatch.Url
import UrlDispatcher.Overlay.Tracker
import UrlDispatcher.Path.Basic

/-!
# The two methods of the service

`dispatch_url_cb` and `test_url_cb`, the handlers of `DispatchURL` and `TestURL`, with everything
they call, and the skeleton generated for the interface around them.

* `System` is what the handlers read: the URL database, the overlay directories and the AppID
  functions of ubuntu-app-launch.
* `Outcomes` is what comes of the requests they make: the session bus, the lookup of the caller's
  PID, the tracker and what its work item runs into.
* `Call` is what a handler does: its replies, what it starts or sends, the tracker, and whether the
  service dies of it.

`dispatchUrl_cases` says what one `DispatchURL` does, in five cases; `testUrl_cases` says what
`TestURL` replies.
-/

namespace UrlDispatcher

open GLib

/-! ### Replies and actions -/

/-- The errors of the service. -/
inductive UrlDispatcherError
  | badUrl
  | restrictedUrl
deriving DecidableEq

/-- The names the errors are registered under. -/
def UrlDispatcherError.name : UrlDispatcherError → Text
  | .badUrl => "com.canonical.URLDispatcher.BadURL".toList
  | .restrictedUrl => "com.canonical.URLDispatcher.RestrictedURL".toList

/-- A reply to an invocation. -/
inductive Reply
  /-- A return value: the array of `TestURL`, `NULL` for `DispatchURL`. -/
  | returnValue (appids : Option (List Text))
  /-- An error of the service, by its name. -/
  | returnError (name message : Text)
  /-- The error of the skeleton for an invocation that is not handled. -/
  | unknownMethod
deriving DecidableEq

/-- What a handler does for a URL. -/
inductive Action
  /-- `ubuntu_app_launch_start_application` -/
  | startApplication (appid : Text) (url : Option Text)
  /-- The method `Open` of the dash. -/
  | openDash (url : Text)
  /-- An overlay has been added to the tracker. -/
  | addOverlay (appid : Text) (pid : ℕ) (url : Text)
deriving DecidableEq

/-- The AppID of the dash. -/
def unity8Dash : Text := "unity8-dash".toList

/-- The AppID an action is for. -/
def Action.appid : Action → Text
  | .startApplication appid _ => appid
  | .openDash _ => unity8Dash
  | .addOverlay appid _ _ => appid

/-- What the handlers read. -/
structure System where
  /-- `ubuntu_app_launch_triplet_to_app_id` -/
  tripletToAppId : Text → Text → Text → Option Text
  /-- `ubuntu_app_launch_app_id_parse`: the package, `none` if the AppID does not parse. -/
  appIdParse : Text → Option Text
  /-- How SQLite orders the rows, and whether it can be read. -/
  plan : QueryPlan
  status : Status
  urldb : Database
  /-- The environment variable `URL_DISPATCHER_OVERLAY_DIR`. -/
  overlayDir : Option Text
  overlaySystemDirectory : Text
  userCacheDir : Text
  /-- `g_file_test` for `G_FILE_TEST_EXISTS` -/
  fileExists : Text → Bool

/-- What comes of the requests of a handler.  Whether an application starts only decides whether a
warning is printed. -/
structure Outcomes where
  /-- There is a session bus. -/
  sessionBus : Bool
  /-- What `GetConnectionUnixProcessID` answers for the caller, `none` for an error. -/
  callerPid : Option ℕ
  /-- The tracker in the state in which its work item for this call runs. -/
  tracker : Option OverlayTracker
  /-- The prompt session and the helper the work item asks for. -/
  promptSession : Option ℕ
  sessionHelper : Option Text

/-- What has been done for an invocation so far. -/
structure Call where
  replies : List Reply
  actions : List Action
  /-- The AppIDs of the `UnityFocusRequest` signals. -/
  focusRequests : List Text
  /-- The URLs for which the sender's PID has been asked for, to file a problem. -/
  problems : List (Option Text)
  tracker : Option OverlayTracker
  /-- The service has died, and does nothing more. -/
  crashed : Bool

/-- The overlays of the tracker. -/
def Call.ongoing (c : Call) : List Overlay := (c.tracker.map OverlayTracker.ongoing).getD []

/-- Nothing has been done. -/
def Outcomes.start (o : Outcomes) : Call := ⟨[], [], [], [], o.tracker, false⟩

/-! ### The handlers -/

/-- `%s` of a string that may be `NULL`. -/
def printfString (s : Option Text) : Text := s.getD "(null)".toList

/-- The reply of `restricted_appid`. -/
def restrictedReply (url package : Text) : Reply :=
  .returnError UrlDispatcherError.restrictedUrl.name
    ("URL '".toList ++ url ++ "' does not have a handler in package '".toList ++ package ++
      "'".toList)

/-- `restricted_appid` -/
def restrictedAppid (c : Call) (url package : Text) : Call × Bool :=
  ({ c with replies := c.replies ++ [restrictedReply url package] }, true)

/-- The reply of `bad_url`. -/
def badUrlReply (url : Option Text) : Reply :=
  .returnError UrlDispatcherError.badUrl.name
    ("URL '".toList ++ printfString url ++ "' is not handleable by the URL Dispatcher".toList)

/-- `bad_url` -/
def badUrl (c : Call) (url : Option Text) : Call × Bool :=
  ({ c with problems := c.problems ++ [url], replies := c.replies ++ [badUrlReply url] }, true)

/-- `send_to_dash` -/
def sendToDash (o : Outcomes) (c : Call) (url : Option Text) : Call × Bool :=
  if o.sessionBus = false then (c, false)
  else
    let c := { c with focusRequests := c.focusRequests ++ [unity8Dash] }
    match url with
    | some url => ({ c with actions := c.actions ++ [.openDash url] }, true)
    -- `NULL` makes no string, the array without elements no value, and the tuple reads its flags
    | none => ({ c with crashed := true }, false)

/-- `dispatcher_send_to_app` -/
def dispatcherSendToApp (o : Outcomes) (c : Call) (appid : Text) (url : Option Text) :
    Call × Bool :=
  if appid = unity8Dash then sendToDash o c url
  else ({ c with actions := c.actions ++ [.startApplication appid url] }, true)

/-- `overlay_tracker_add` -/
def overlayTrackerAdd (o : Outcomes) (c : Call) (appid : Text) (pid : ℕ) (url : Option Text) :
    Call × Bool :=
  match c.tracker, url with
  | none, _ => (c, false)
  | some _, none => (c, false)
  | some tracker, some url =>
    if pid = 0 then (c, false)
    else
      let r := tracker.addOverlay appid pid url o.promptSession o.sessionHelper
      let actions := if r.2 then c.actions ++ [.addOverlay appid pid url] else c.actions
      ({ c with tracker := some r.1, actions := actions }, r.2)

/-- `dispatcher_send_to_overlay` -/
def dispatcherSendToOverlay (o : Outcomes) (c : Call) (appid : Text) (url : Option Text) :
    Call × Bool :=
  match o.callerPid with
  | none => (c, false)
  | some pid => overlayTrackerAdd o c appid pid url

section

variable (w : System)

/-- `dispatcher_url_to_appid` -/
def System.urlToAppid (url : Text) : Option Resolved :=
  dispatcherUrlToAppid w.tripletToAppId (urlDbFindUrl w.plan w.status w.urldb) url

/-- `dispatcher_is_overlay` -/
def dispatcherIsOverlay (appid : Text) : Bool :=
  let systemdir := w.overlayDir.getD w.overlaySystemDirectory
  let desktopname := appid ++ ".desktop".toList
  w.fileExists (gBuildFilename systemdir desktopname) ||
    w.fileExists (gBuildFilename (gBuildFilename (gBuildFilename w.userCacheDir
      "url-dispatcher".toList) "url-overlays".toList) desktopname)

/-- `dispatcher_appid_restrict` -/
def dispatcherAppidRestrict (appid package : Text) : Bool :=
  if package = [] then false
  else
    match w.appIdParse appid with
    | some appackage => package ≠ appackage  -- a click application
    | none => package ≠ appid  -- a legacy application

/-- The send of `dispatch_url_cb`. -/
def dispatcherSend (o : Outcomes) (c : Call) (r : Resolved) : Call × Bool :=
  if !dispatcherIsOverlay w r.appid then dispatcherSendToApp o c r.appid r.outurl
  else dispatcherSendToOverlay o c r.appid r.outurl

/-- The end of `dispatch_url_cb`, when the send comes back. -/
def answerSend (url : Text) (sent : Call × Bool) : Call × Bool :=
  if sent.1.crashed then sent
  else if sent.2 then ({ sent.1 with replies := sent.1.replies ++ [.returnValue none] }, true)
  -- the answer of `bad_url` is dropped, and the invocation counts as not handled
  else ((badUrl sent.1 (some url)).1, false)

/-- `dispatch_url_cb`.  A string from the bus is never `NULL`. -/
def dispatchUrlCb (o : Outcomes) (c : Call) (url package : Text) : Call × Bool :=
  if url = [] then badUrl c (some url)
  else
    match w.urlToAppid url with
    | none => badUrl c (some url)
    | some r =>
      if r.appid = "unconfined".toList then badUrl c (some url)
      else if dispatcherAppidRestrict w r.appid package then restrictedAppid c url package
      else answerSend url (dispatcherSend w o c r)

/-- The loop of `test_url_cb`: the AppIDs, or the URL at which it ends. -/
def testUrlLoop (builder : List Text) : List Text → Except Text (List Text)
  | [] => .ok builder
  | url :: urls =>
    if url = [] then .error url
    else
      match w.urlToAppid url with
      | some r => testUrlLoop (builder ++ [r.appid]) urls
      | none => .error url

/-- `test_url_cb` -/
def testUrlCb (c : Call) (urls : List Text) : Call × Bool :=
  match urls with
  | [] => badUrl c none
  | [] :: _ => badUrl c none
  | (_ :: _) :: _ =>
    match testUrlLoop w [] urls with
    | .ok appids => ({ c with replies := c.replies ++ [.returnValue (some appids)] }, true)
    | .error url => badUrl c (some url)

/-- The generated skeleton: an invocation the handler leaves is answered with an error, if the
handler comes back. -/
def skeleton (r : Call × Bool) : Call :=
  if r.2 || r.1.crashed then r.1 else { r.1 with replies := r.1.replies ++ [.unknownMethod] }

/-- The method `DispatchURL`. -/
def dispatchUrl (o : Outcomes) (url package : Text) : Call :=
  skeleton (dispatchUrlCb w o o.start url package)

/-- The method `TestURL`. -/
def testUrl (o : Outcomes) (urls : List Text) : Call := skeleton (testUrlCb w o.start urls)

end

/-- The two errors differ, by their names. -/
theorem restrictedReply_ne_badUrlReply (url package : Text) (url' : Option Text) :
    restrictedReply url package ≠ badUrlReply url' := by
  intro h
  have hname := (Reply.returnError.inj h).1
  revert hname
  decide

/-! ### The send -/

/-- The send of an AppID fails: for an overlay without the caller's PID, a tracker, a URL, a session
and a helper; for the dash without a session bus. -/
def SendFails (w : System) (o : Outcomes) (r : Resolved) : Prop :=
  if dispatcherIsOverlay w r.appid then
    o.callerPid.getD 0 = 0 ∨ o.tracker = none ∨ r.outurl = none ∨ o.promptSession = none ∨
      o.sessionHelper = none
  else r.appid = unity8Dash ∧ o.sessionBus = false

/-- The send of an AppID kills the service: that of the dash without a URL. -/
def SendCrashes (w : System) (o : Outcomes) (r : Resolved) : Prop :=
  dispatcherIsOverlay w r.appid = false ∧ r.appid = unity8Dash ∧ o.sessionBus = true ∧
    r.outurl = none

/-- A send that succeeds is one action, for the AppID, and replies nothing. -/
structure Sent (o : Outcomes) (r : Resolved) (c : Call) (a : Action) : Prop where
  appid : a.appid = r.appid
  replies : c.replies = []
  actions : c.actions = [a]
  problems : c.problems = []
  alive : c.crashed = false
  /-- Only an overlay touches the tracker. -/
  tracker : (∀ appid pid url, a ≠ .addOverlay appid pid url) → c.tracker = o.tracker

/-- A send that fails does nothing, except that a prompt session may have come and gone. -/
structure Unsent (o : Outcomes) (c : Call) : Prop where
  replies : c.replies = []
  actions : c.actions = []
  focusRequests : c.focusRequests = []
  problems : c.problems = []
  alive : c.crashed = false
  ongoing : c.ongoing = o.start.ongoing

/-- The service has died of the send, and the focus of the dash is all it has asked for. -/
def Outcomes.crash (o : Outcomes) : Call :=
  { o.start with focusRequests := [unity8Dash], crashed := true }

theorem Unsent.start (o : Outcomes) : Unsent o o.start := ⟨rfl, rfl, rfl, rfl, rfl, rfl⟩

theorem dispatcherSendToApp_cases (w : System) (o : Outcomes) {r : Resolved}
    (hov : dispatcherIsOverlay w r.appid = false) :
    (¬ SendFails w o r ∧ ¬ SendCrashes w o r ∧ ∃ c a,
      dispatcherSendToApp o o.start r.appid r.outurl = (c, true) ∧ Sent o r c a) ∨
    (SendFails w o r ∧ ¬ SendCrashes w o r ∧
      dispatcherSendToApp o o.start r.appid r.outurl = (o.start, false)) ∨
    (¬ SendFails w o r ∧ SendCrashes w o r ∧
      dispatcherSendToApp o o.start r.appid r.outurl = (o.crash, false)) := by
  have hfails : SendFails w o r ↔ r.appid = unity8Dash ∧ o.sessionBus = false := by
    rw [SendFails, hov]
    rfl
  have hcrashes : SendCrashes w o r ↔
      r.appid = unity8Dash ∧ o.sessionBus = true ∧ r.outurl = none := by
    rw [SendCrashes, hov]
    exact and_iff_right rfl
  rw [hfails, hcrashes, dispatcherSendToApp]
  by_cases hdash : r.appid = unity8Dash
  · rw [if_pos hdash, sendToDash]
    cases hbus : o.sessionBus with
    | false =>
      exact .inr (.inl ⟨⟨hdash, rfl⟩, fun h => Bool.false_ne_true h.2.1, if_pos rfl⟩)
    | true =>
      have hworks : ¬ (r.appid = unity8Dash ∧ true = false) := fun h => Bool.false_ne_true h.2.symm
      rw [if_neg Bool.false_ne_true.symm]
      cases hurl : r.outurl with
      | none => exact .inr (.inr ⟨hworks, ⟨hdash, rfl, rfl⟩, rfl⟩)
      | some url =>
        exact .inl ⟨hworks, fun h => Option.some_ne_none url h.2.2, _, .openDash url, rfl,
          ⟨hdash.symm, rfl, rfl, rfl, rfl, fun _ => rfl⟩⟩
  · exact .inl ⟨fun h => hdash h.1, fun h => hdash h.1, _, .startApplication r.appid r.outurl,
      if_neg hdash, ⟨rfl, rfl, rfl, rfl, rfl, fun _ => rfl⟩⟩

/-- Something that an overlay needs is missing. -/
def OverlayFails (o : Outcomes) (pid : ℕ) (url : Option Text) : Prop :=
  pid = 0 ∨ o.tracker = none ∨ url = none ∨ o.promptSession = none ∨ o.sessionHelper = none

theorem overlayTrackerAdd_cases (o : Outcomes) (r : Resolved) (pid : ℕ) :
    (¬ OverlayFails o pid r.outurl ∧ ∃ c a,
      overlayTrackerAdd o o.start r.appid pid r.outurl = (c, true) ∧ Sent o r c a) ∨
    (OverlayFails o pid r.outurl ∧ ∃ c,
      overlayTrackerAdd o o.start r.appid pid r.outurl = (c, false) ∧ Unsent o c) := by
  obtain ⟨appid, outurl⟩ := r
  obtain ⟨bus, callerPid, tracker, session, helper⟩ := o
  unfold OverlayFails
  -- whatever is missing before the work item is posted leaves everything as it was
  cases tracker with
  | none => exact .inr ⟨.inr (.inl rfl), _, rfl, .start _⟩
  | some tracker =>
    cases outurl with
    | none => exact .inr ⟨.inr (.inr (.inl rfl)), _, rfl, .start _⟩
    | some url =>
      by_cases hpid : pid = 0
      · exact .inr ⟨.inl hpid, _, if_pos hpid, .start _⟩
      have hadd := tracker.addOverlay_snd appid pid url session helper
      have hval : overlayTrackerAdd ⟨bus, callerPid, some tracker, session, helper⟩
          (Outcomes.start ⟨bus, callerPid, some tracker, session, helper⟩) appid pid (some url) =
          _ := if_neg hpid
      cases hsent : (tracker.addOverlay appid pid url session helper).2 with
      | true =>
        rw [hsent, eq_comm, Bool.and_eq_true, Option.isSome_iff_ne_none,
          Option.isSome_iff_ne_none] at hadd
        rw [hsent] at hval
        exact .inl ⟨by simp [hpid, hadd], _, .addOverlay appid pid url, hval,
          ⟨rfl, rfl, rfl, rfl, rfl, fun h => absurd rfl (h appid pid url)⟩⟩
      | false =>
        rw [hsent, eq_comm, Bool.and_eq_false_iff, Option.isSome_eq_false_iff,
          Option.isSome_eq_false_iff, Option.isNone_iff_eq_none, Option.isNone_iff_eq_none] at hadd
        rw [hsent] at hval
        exact .inr ⟨.inr (.inr (.inr hadd)), _, hval,
          ⟨rfl, rfl, rfl, rfl, rfl, OverlayTracker.ongoing_of_addOverlay_eq_false hsent⟩⟩

theorem dispatcherSendToOverlay_cases (w : System) (o : Outcomes) {r : Resolved}
    (hov : dispatcherIsOverlay w r.appid = true) :
    (¬ SendFails w o r ∧ ∃ c a, dispatcherSendToOverlay o o.start r.appid r.outurl = (c, true) ∧
      Sent o r c a) ∨
    (SendFails w o r ∧ ∃ c, dispatcherSendToOverlay o o.start r.appid r.outurl = (c, false) ∧
      Unsent o c) := by
  have hiff : SendFails w o r ↔ OverlayFails o (o.callerPid.getD 0) r.outurl := by
    rw [SendFails, hov]
    rfl
  rw [hiff, dispatcherSendToOverlay]
  cases o.callerPid with
  | none => exact .inr ⟨.inl rfl, _, rfl, .start o⟩
  | some pid => exact overlayTrackerAdd_cases o r pid

/-- **The send**: one action, or none, or the end of the service. -/
theorem dispatcherSend_cases (w : System) (o : Outcomes) (r : Resolved) :
    (¬ SendFails w o r ∧ ¬ SendCrashes w o r ∧ ∃ c a,
      dispatcherSend w o o.start r = (c, true) ∧ Sent o r c a) ∨
    (SendFails w o r ∧ ¬ SendCrashes w o r ∧ ∃ c,
      dispatcherSend w o o.start r = (c, false) ∧ Unsent o c) ∨
    (¬ SendFails w o r ∧ SendCrashes w o r ∧
      dispatcherSend w o o.start r = (o.crash, false)) := by
  rw [dispatcherSend]
  cases hov : dispatcherIsOverlay w r.appid with
  | false =>
    rcases dispatcherSendToApp_cases w o hov with h | ⟨hf, hc, h⟩ | h
    · exact .inl h
    · exact .inr (.inl ⟨hf, hc, _, h, .start o⟩)
    · exact .inr (.inr h)
  | true =>
    have hcrash : ¬ SendCrashes w o r := fun h => Bool.false_ne_true (h.1.symm.trans hov)
    rcases dispatcherSendToOverlay_cases w o hov with ⟨hf, h⟩ | ⟨hf, h⟩
    · exact .inl ⟨hf, hcrash, h⟩
    · exact .inr (.inl ⟨hf, hcrash, h⟩)

/-! ### The methods -/

/-- The AppID a URL resolves to, where the service does not refuse it. -/
def Resolves (w : System) (url : Text) (r : Resolved) : Prop :=
  w.urlToAppid url = some r ∧ r.appid ≠ "unconfined".toList

/-- Nothing matches the empty URL. -/
@[simp] theorem System.urlToAppid_nil (w : System) : w.urlToAppid [] = none := rfl

/-- **What `DispatchURL` does**: it refuses a URL that does not resolve, it refuses the AppID of
another package, it sends, it fails to send and answers twice, or it dies and does not answer. -/
theorem dispatchUrl_cases (w : System) (o : Outcomes) (url package : Text) :
    ((∀ r, ¬ Resolves w url r) ∧ dispatchUrl w o url package =
      { o.start with replies := [badUrlReply (some url)], problems := [some url] }) ∨
    (∃ r, Resolves w url r ∧ dispatcherAppidRestrict w r.appid package = true ∧
      dispatchUrl w o url package = { o.start with replies := [restrictedReply url package] }) ∨
    (∃ r, Resolves w url r ∧ dispatcherAppidRestrict w r.appid package = false ∧
      ¬ SendFails w o r ∧ ¬ SendCrashes w o r ∧ ∃ c a, Sent o r c a ∧
      dispatchUrl w o url package = { c with replies := [.returnValue none] }) ∨
    (∃ r, Resolves w url r ∧ dispatcherAppidRestrict w r.appid package = false ∧
      SendFails w o r ∧ ¬ SendCrashes w o r ∧ ∃ c, Unsent o c ∧ dispatchUrl w o url package =
        { c with
          replies := [badUrlReply (some url), .unknownMethod]
          problems := [some url] }) ∨
    (∃ r, Resolves w url r ∧ dispatcherAppidRestrict w r.appid package = false ∧
      ¬ SendFails w o r ∧ SendCrashes w o r ∧ dispatchUrl w o url package = o.crash) := by
  rw [dispatchUrl, dispatchUrlCb]
  by_cases hurl : url = []
  · subst hurl
    exact .inl ⟨fun r hr => (by cases hr.1), rfl⟩
  -- the exits of `dispatch_url_cb` in the order of the source
  rw [if_neg hurl]
  cases hres : w.urlToAppid url with
  | none =>
    refine .inl ⟨fun r hr => ?_, rfl⟩
    rw [Resolves, hres] at hr
    cases hr.1
  | some r =>
    dsimp only
    by_cases hun : r.appid = "unconfined".toList
    · rw [if_pos hun]
      refine .inl ⟨fun r' hr' => hr'.2 ?_, rfl⟩
      rw [← Option.some.inj (hres.symm.trans hr'.1), hun]
    have hr : Resolves w url r := ⟨hres, hun⟩
    rw [if_neg hun]
    cases hrestrict : dispatcherAppidRestrict w r.appid package with
    | true => exact .inr (.inl ⟨r, hr, hrestrict, rfl⟩)
    | false =>
      obtain ⟨hf, hc, c, a, hsend, hsent⟩ | ⟨hf, hc, c, hsend, hunsent⟩ | ⟨hf, hc, hsend⟩ :=
        dispatcherSend_cases w o r
      · refine .inr (.inr (.inl ⟨r, hr, hrestrict, hf, hc, c, a, hsent, ?_⟩))
        simp [hsend, answerSend, skeleton, hsent.replies, hsent.alive]
      · -- `bad_url` has replied, and the skeleton replies again
        refine .inr (.inr (.inr (.inl ⟨r, hr, hrestrict, hf, hc, c, hunsent, ?_⟩)))
        simp [hsend, answerSend, skeleton, badUrl, hunsent.replies, hunsent.problems,
          hunsent.alive]
      · refine .inr (.inr (.inr (.inr ⟨r, hr, hrestrict, hf, hc, ?_⟩)))
        simp [hsend, answerSend, skeleton, Outcomes.crash]

/-- **A problem is filed** for the URL with the error for a bad URL, and with no other reply. -/
theorem dispatchUrl_problems (w : System) (o : Outcomes) (url package : Text) :
    (dispatchUrl w o url package).problems =
      if badUrlReply (some url) ∈ (dispatchUrl w o url package).replies then [some url]
      else [] := by
  obtain ⟨-, h⟩ | ⟨r, -, -, h⟩ | ⟨r, -, -, -, -, c, a, hsent, h⟩ | ⟨r, -, -, -, -, c, -, h⟩ |
    ⟨r, -, -, -, -, h⟩ := dispatchUrl_cases w o url package
  all_goals rw [h]
  · exact (if_pos List.mem_cons_self).symm
  · refine (if_neg fun hmem => ?_).symm
    exact restrictedReply_ne_badUrlReply url package _ (List.mem_singleton.1 hmem).symm
  · refine hsent.problems.trans (if_neg fun hmem => ?_).symm
    cases List.mem_singleton.1 hmem
  · exact (if_pos List.mem_cons_self).symm
  · exact (if_neg List.not_mem_nil).symm

/-- The loop ends at a URL that does not resolve, or it has the AppIDs of all of them. -/
theorem testUrlLoop_cases (w : System) (builder urls : List Text) :
    (∃ rs : List Resolved, List.Forall₂ (fun url r => w.urlToAppid url = some r) urls rs ∧
      testUrlLoop w builder urls = .ok (builder ++ rs.map Resolved.appid)) ∨
    ∃ url ∈ urls, w.urlToAppid url = none ∧ testUrlLoop w builder urls = .error url := by
  induction urls generalizing builder with
  | nil => exact .inl ⟨[], .nil, by rw [List.map_nil, List.append_nil]; rfl⟩
  | cons url urls ih =>
    rw [testUrlLoop]
    by_cases hurl : url = []
    · exact .inr ⟨url, List.mem_cons_self, hurl ▸ w.urlToAppid_nil, if_pos hurl⟩
    rw [if_neg hurl]
    cases hres : w.urlToAppid url with
    | none => exact .inr ⟨url, List.mem_cons_self, hres, rfl⟩
    | some r =>
      obtain ⟨rs, hrs, hloop⟩ | ⟨url', hmem, hnone, hloop⟩ := ih (builder ++ [r.appid])
      · refine .inl ⟨r :: rs, .cons hres hrs, hloop.trans ?_⟩
        rw [List.append_assoc]
        rfl
      · exact .inr ⟨url', List.mem_cons_of_mem _ hmem, hnone, hloop⟩

/-- **What `TestURL` does**: it replies with the AppIDs of all URLs, or it refuses. -/
theorem testUrl_cases (w : System) (o : Outcomes) (urls : List Text) :
    (∃ rs : List Resolved, urls ≠ [] ∧
      List.Forall₂ (fun url r => w.urlToAppid url = some r) urls rs ∧ testUrl w o urls =
        { o.start with replies := [.returnValue (some (rs.map Resolved.appid))] }) ∨
    ((urls = [] ∨ ∃ url ∈ urls, w.urlToAppid url = none) ∧ ∃ url, testUrl w o urls =
      { o.start with replies := [badUrlReply url], problems := [url] }) := by
  rw [testUrl]
  match urls with
  | [] => exact .inr ⟨.inl rfl, none, rfl⟩
  | [] :: urls => exact .inr ⟨.inr ⟨[], List.mem_cons_self, w.urlToAppid_nil⟩, none, rfl⟩
  | (c :: cs) :: urls =>
    dsimp only [testUrlCb]
    obtain ⟨rs, hrs, hloop⟩ | ⟨url, hmem, hnone, hloop⟩ :=
      testUrlLoop_cases w [] ((c :: cs) :: urls)
    · rw [hloop]
      exact .inl ⟨rs, List.cons_ne_nil _ _, hrs, rfl⟩
    · rw [hloop]
      exact .inr ⟨.inr ⟨url, hmem, hnone⟩, some url, rfl⟩

/-! ### A small system -/

/-- A system without click applications, on which the files `files` exist. -/
def plainSystem (urldb : Database) (files : List Text) : System where
  tripletToAppId _ _ _ := none
  appIdParse _ := none
  plan := .stable
  status := .done
  urldb := urldb
  overlayDir := none
  overlaySystemDirectory := "/usr/share/url-dispatcher/url-overlays".toList
  userCacheDir := "/home/user/.cache".toList
  fileExists := files.contains

end UrlDispatcher
