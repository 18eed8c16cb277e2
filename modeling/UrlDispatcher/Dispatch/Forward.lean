import UrlDispatcher.Dispatch.Origin

/-!
# The URL that is forwarded

`dispatch_url_cb` hands the URL that `dispatcher_url_to_appid` has left in `outurl` to whichever
sender the AppID and the overlay directories call for.  `send_to_dash` makes a string of it for the
bus, and `overlay_tracker_add` requires one, but `outurl` is `NULL` for the URLs that name an
application.

* `dispatchTarget` : the sender that one `DispatchURL` reaches, with its arguments.
* `dispatcherSend_eq`, `dispatchUrlCb_of_target` : the method does what that sender does.
* `forwardsUrl_iff` : the URL is forwarded to that sender as it came exactly if it does not name the
  dash or an overlay by itself.
-/

namespace UrlDispatcher

open Regex

/-- A sender that is reached, with its arguments. -/
inductive Target
  /-- `ubuntu_app_launch_start_application` -/
  | startApplication (appid : Text) (url : Option Text)
  /-- `send_to_dash` -/
  | dash (url : Option Text)
  /-- `overlay_tracker_add` -/
  | overlay (appid : Text) (pid : ℕ) (url : Option Text)
  /-- The PID of the caller of an overlay is not known, and no sender is reached. -/
  | nobody

/-- The sender `dispatcher_send_to_app` reaches. -/
def appTarget (appid : Text) (url : Option Text) : Target :=
  if appid = unity8Dash then .dash url else .startApplication appid url

/-- The sender `dispatcher_send_to_overlay` reaches. -/
def overlayTarget (o : Outcomes) (appid : Text) (url : Option Text) : Target :=
  match o.callerPid with
  | none => .nobody
  | some pid => .overlay appid pid url

/-- The sender reached for an AppID. -/
def sendTarget (w : System) (o : Outcomes) (r : Resolved) : Target :=
  if !dispatcherIsOverlay w r.appid then appTarget r.appid r.outurl
  else overlayTarget o r.appid r.outurl

/-- The sender `dispatch_url_cb` reaches, `none` if it refuses the URL before. -/
def dispatchTarget (w : System) (o : Outcomes) (url package : Text) : Option Target :=
  if url = [] then none
  else
    match w.urlToAppid url with
    | none => none
    | some r =>
      if r.appid = "unconfined".toList then none
      else if dispatcherAppidRestrict w r.appid package then none
      else some (sendTarget w o r)

/-- What the sender does. -/
def Target.send (o : Outcomes) (c : Call) : Target → Call × Bool
  | .startApplication appid url =>
    ({ c with actions := c.actions ++ [.startApplication appid url] }, true)
  | .dash url => sendToDash o c url
  | .overlay appid pid url => overlayTrackerAdd o c appid pid url
  | .nobody => (c, false)

/-- The URL argument of a sender that requires one. -/
def Target.forwarded : Target → Option (Option Text)
  | .dash url => some url
  | .overlay _ _ url => some url
  | _ => none

variable {w : System} {o : Outcomes} {c : Call} {url package : Text} {r : Resolved} {t : Target}

/-- The send is what the sender reached does. -/
theorem dispatcherSend_eq : dispatcherSend w o c r = (sendTarget w o r).send o c := by
  unfold dispatcherSend sendTarget
  split_ifs
  · rw [dispatcherSendToApp, appTarget]
    split_ifs <;> rfl
  · rw [dispatcherSendToOverlay, overlayTarget]
    cases o.callerPid <;> rfl

theorem dispatchTarget_eq_some : dispatchTarget w o url package = some t ↔
    ∃ r, Resolves w url r ∧ dispatcherAppidRestrict w r.appid package = false ∧
      sendTarget w o r = t := by
  unfold dispatchTarget Resolves
  by_cases hurl : url = []
  · rw [if_pos hurl]
    refine iff_of_false (Option.some_ne_none t).symm ?_
    rintro ⟨r, ⟨hr, -⟩, -⟩
    rw [hurl, System.urlToAppid_nil] at hr
    cases hr
  rw [if_neg hurl]
  cases w.urlToAppid url with
  | none => exact iff_of_false (Option.some_ne_none t).symm (by rintro ⟨r, ⟨⟨⟩, -⟩, -⟩)
  | some r =>
    dsimp only
    rw [Option.ite_none_left_eq_some, Option.ite_none_left_eq_some, Option.some.injEq,
      Bool.not_eq_true]
    constructor
    · rintro ⟨hun, hrestrict, ht⟩
      exact ⟨r, ⟨rfl, hun⟩, hrestrict, ht⟩
    · rintro ⟨r', ⟨hr, hun⟩, hrestrict, ht⟩
      cases hr
      exact ⟨hun, hrestrict, ht⟩

/-- **The method does what the sender does** that it reaches, and replies by how that ends. -/
theorem dispatchUrlCb_of_target (h : dispatchTarget w o url package = some t) :
    dispatchUrlCb w o c url package = answerSend url (t.send o c) := by
  obtain ⟨r, ⟨hr, hun⟩, hrestrict, rfl⟩ := dispatchTarget_eq_some.1 h
  have hurl : url ≠ [] := by
    rintro rfl
    cases hr
  rw [dispatchUrlCb, if_neg hurl, hr]
  dsimp only
  rw [if_neg hun, if_neg (by simp [hrestrict]), dispatcherSend_eq]

/-- A URL for which it reaches none is refused. -/
theorem dispatchUrlCb_of_no_target (h : dispatchTarget w o url package = none) :
    dispatchUrlCb w o c url package = badUrl c (some url) ∨
      dispatchUrlCb w o c url package = restrictedAppid c url package := by
  unfold dispatchTarget at h
  unfold dispatchUrlCb
  split_ifs at h ⊢ with hurl
  · exact .inl rfl
  · cases hr : w.urlToAppid url with
    | none => exact .inl rfl
    | some r =>
      rw [hr] at h
      dsimp only at h ⊢
      split_ifs at h ⊢
      · exact .inl rfl
      · exact .inr rfl

/-- Every sender that requires a URL gets the one that came. -/
def ForwardsUrl (w : System) (o : Outcomes) (url package : Text) : Prop :=
  ∀ t, dispatchTarget w o url package = some t → ∀ arg, t.forwarded = some arg → arg = some url

/-- The AppID is sent to a sender that requires a URL: an overlay whose caller is known, or the
dash. -/
def RequiresUrl (w : System) (o : Outcomes) (appid : Text) : Prop :=
  if dispatcherIsOverlay w appid then o.callerPid ≠ none else appid = unity8Dash

theorem forwarded_sendTarget {arg : Option Text} :
    (sendTarget w o r).forwarded = some arg ↔ RequiresUrl w o r.appid ∧ arg = r.outurl := by
  unfold sendTarget RequiresUrl
  cases dispatcherIsOverlay w r.appid with
  | false =>
    simp only [Bool.not_false, ↓reduceIte, Bool.false_eq_true, appTarget]
    split_ifs with h <;> simp [Target.forwarded, h, eq_comm]
  | true =>
    simp only [Bool.not_true, Bool.false_eq_true, ↓reduceIte, overlayTarget]
    cases o.callerPid <;> simp [Target.forwarded, eq_comm]

/-- **The URL is forwarded as it came**, and never as `NULL`, to the sender that the method reaches,
exactly if it is none that names an application by itself which is the dash or an overlay. -/
theorem forwardsUrl_iff (w : System) (o : Outcomes) (url package : Text) :
    (∀ t, dispatchTarget w o url package = some t →
      ∀ c, dispatchUrlCb w o c url package = answerSend url (t.send o c)) ∧
    (dispatchTarget w o url package = none →
      ∀ c, dispatchUrlCb w o c url package = badUrl c (some url) ∨
        dispatchUrlCb w o c url package = restrictedAppid c url package) ∧
    (ForwardsUrl w o url package ↔ ∀ appid, NamesApp w.tripletToAppId url appid →
      appid ≠ "unconfined".toList → dispatcherAppidRestrict w appid package = false →
        ¬ RequiresUrl w o appid) := by
  refine ⟨fun t ht c => dispatchUrlCb_of_target ht, fun h c => dispatchUrlCb_of_no_target h, ?_⟩
  constructor
  · intro hfwd appid hnames hun hrestrict hreq
    have hr : w.urlToAppid url = some ⟨appid, none⟩ :=
      dispatcherUrlToAppid_eq_some.2 (hnames.origin _)
    have harg := hfwd _ (dispatchTarget_eq_some.2 ⟨_, ⟨hr, hun⟩, hrestrict, rfl⟩) none
      (forwarded_sendTarget.2 ⟨hreq, rfl⟩)
    cases harg
  · intro hno t ht arg harg
    obtain ⟨r, ⟨hr, hun⟩, hrestrict, rfl⟩ := dispatchTarget_eq_some.1 ht
    obtain ⟨hreq, rfl⟩ := forwarded_sendTarget.1 harg
    rcases (dispatcherUrlToAppid_eq_some.1 hr).outurl_cases with ⟨-, hnames⟩ | ⟨hout, -⟩
    · exact absurd hreq (hno _ hnames hun hrestrict)
    · exact hout

/-- `application:///unity8-dash.desktop` is sent to the dash without a URL. -/
theorem not_forwardsUrl_dash : ¬ ∀ w o url package, url ≠ [] → ForwardsUrl w o url package := by
  intro hall
  have h := hall (plainSystem Database.empty []) ⟨true, none, none, none, none⟩
    "application:///unity8-dash.desktop".toList [] (by decide) (.dash none) (by rfl) none rfl
  cases h

end UrlDispatcher
