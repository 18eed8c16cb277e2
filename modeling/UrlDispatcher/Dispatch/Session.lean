import UrlDispatcher.Dispatch.Client

/-!
# What a session leads to

* `dispatchUrl_of_tested` : what a send does that has been tested with `url_dispatch_url_appid`.
* `overlays_of_run` : the helpers that have been started are those that accepted messages have asked
  for, in that order, and every overlay that is shown belongs to one of them.
* `status_of_run` : what the exit status of the tool `url-dispatcher` says.
-/

namespace UrlDispatcher

open Machine

/-! ### What a message asks of the tracker -/

/-- The message asks for the overlay: its URL resolves to an overlay that its package may have, and
the PID of the caller is known. -/
structure AsksOverlay (w : System) (o : Outcomes) (url package appid : Text) (pid : ℕ)
    (outurl : Text) : Prop where
  resolves : Resolves w url ⟨appid, some outurl⟩
  overlay : dispatcherIsOverlay w appid = true
  allowed : dispatcherAppidRestrict w appid package = false
  callerPid : o.callerPid = some pid
  pid : pid ≠ 0

/-- `send_to_dash` and `ubuntu_app_launch_start_application` leave the tracker alone. -/
theorem dispatcherSendToApp_tracker (o : Outcomes) (appid : Text) (url : Option Text) :
    (dispatcherSendToApp o o.start appid url).1.tracker = o.tracker ∧ ∀ appid' pid outurl,
      .addOverlay appid' pid outurl ∉ (dispatcherSendToApp o o.start appid url).1.actions := by
  unfold dispatcherSendToApp sendToDash
  split_ifs
  · exact ⟨rfl, by simp [Outcomes.start]⟩
  · cases url <;> exact ⟨rfl, by simp [Outcomes.start]⟩
  · exact ⟨rfl, by simp [Outcomes.start]⟩

/-- `overlay_tracker_add` -/
theorem overlayTrackerAdd_tracker (o : Outcomes) (appid : Text) (pid : ℕ) (url : Option Text) :
    overlayTrackerAdd o o.start appid pid url = (o.start, false) ∨
      ∃ t outurl, o.tracker = some t ∧ url = some outurl ∧ pid ≠ 0 ∧
        overlayTrackerAdd o o.start appid pid url = ({ o.start with
          tracker := some (t.addOverlay appid pid outurl o.promptSession o.sessionHelper).1
          actions := if (t.addOverlay appid pid outurl o.promptSession o.sessionHelper).2 then
            [.addOverlay appid pid outurl] else [] },
          (t.addOverlay appid pid outurl o.promptSession o.sessionHelper).2) := by
  obtain ⟨bus, callerPid, tracker, session, helper⟩ := o
  cases tracker with
  | none => exact .inl rfl
  | some t =>
    cases url with
    | none => exact .inl rfl
    | some outurl =>
      by_cases hpid : pid = 0
      · exact .inl (if_pos hpid)
      · exact .inr ⟨t, outurl, rfl, rfl, hpid, if_neg hpid⟩

/-- The send asks for an overlay, or leaves the tracker alone. -/
theorem dispatcherSend_tracker (w : System) (o : Outcomes) (r : Resolved) :
    ((dispatcherSend w o o.start r).1.tracker = o.tracker ∧ ∀ appid pid outurl,
      .addOverlay appid pid outurl ∉ (dispatcherSend w o o.start r).1.actions) ∨
    ∃ t pid outurl, o.tracker = some t ∧ dispatcherIsOverlay w r.appid = true ∧
      o.callerPid = some pid ∧ pid ≠ 0 ∧ r.outurl = some outurl ∧
      (dispatcherSend w o o.start r).1.tracker =
        some (t.addOverlay r.appid pid outurl o.promptSession o.sessionHelper).1 ∧
      (dispatcherSend w o o.start r).1.actions =
        if (t.addOverlay r.appid pid outurl o.promptSession o.sessionHelper).2 then
          [.addOverlay r.appid pid outurl] else [] := by
  rw [dispatcherSend]
  cases hov : dispatcherIsOverlay w r.appid with
  | false => exact .inl (dispatcherSendToApp_tracker o r.appid r.outurl)
  | true =>
    simp only [Bool.not_true, Bool.false_eq_true, if_false, dispatcherSendToOverlay]
    cases hpid : o.callerPid with
    | none => exact .inl ⟨rfl, by simp [Outcomes.start]⟩
    | some pid =>
      dsimp only
      obtain hadd | ⟨t, outurl, ht, hout, hne, hadd⟩ :=
        overlayTrackerAdd_tracker o r.appid pid r.outurl
      · rw [hadd]
        exact .inl ⟨rfl, by simp [Outcomes.start]⟩
      · rw [hadd]
        exact .inr ⟨t, pid, outurl, ht, trivial, rfl, hne, hout, rfl, rfl⟩

/-- Answering leaves the tracker and what has been done alone. -/
theorem answerSend_frame (url : Text) (sent : Call × Bool) :
    (answerSend url sent).1.tracker = sent.1.tracker ∧
      (answerSend url sent).1.actions = sent.1.actions := by
  unfold answerSend
  split_ifs <;> exact ⟨rfl, rfl⟩

/-- **What a message asks of the tracker**: nothing, or one overlay, which is what is done for the
message if it is added. -/
theorem dispatchUrl_tracker (w : System) (o : Outcomes) (url package : Text) :
    ((dispatchUrl w o url package).tracker = o.tracker ∧ ∀ appid pid outurl,
      .addOverlay appid pid outurl ∉ (dispatchUrl w o url package).actions) ∨
    ∃ t appid pid outurl, o.tracker = some t ∧ AsksOverlay w o url package appid pid outurl ∧
      (dispatchUrl w o url package).tracker =
        some (t.addOverlay appid pid outurl o.promptSession o.sessionHelper).1 ∧
      (dispatchUrl w o url package).actions =
        if (t.addOverlay appid pid outurl o.promptSession o.sessionHelper).2 then
          [.addOverlay appid pid outurl] else [] := by
  have hskeleton : ∀ r : Call × Bool, (skeleton r).tracker = r.1.tracker ∧
      (skeleton r).actions = r.1.actions := by
    intro r
    unfold skeleton
    split_ifs <;> exact ⟨rfl, rfl⟩
  rw [dispatchUrl, (hskeleton _).1, (hskeleton _).2, dispatchUrlCb]
  by_cases hurl : url = []
  · rw [if_pos hurl]
    exact .inl ⟨rfl, by simp [badUrl, Outcomes.start]⟩
  rw [if_neg hurl]
  cases hres : w.urlToAppid url with
  | none => exact .inl ⟨rfl, by simp [badUrl, Outcomes.start]⟩
  | some r =>
    dsimp only
    by_cases hun : r.appid = "unconfined".toList
    · rw [if_pos hun]
      exact .inl ⟨rfl, by simp [badUrl, Outcomes.start]⟩
    rw [if_neg hun]
    cases hrestrict : dispatcherAppidRestrict w r.appid package with
    | true => exact .inl ⟨rfl, by simp [restrictedAppid, Outcomes.start]⟩
    | false =>
      rw [if_neg Bool.false_ne_true]
      have hsend := dispatcherSend_tracker w o r
      generalize dispatcherSend w o o.start r = sent at hsend ⊢
      rw [(answerSend_frame url sent).1, (answerSend_frame url sent).2]
      obtain hno | ⟨t, pid, outurl, ht, hov, hpid, hne, hout, htracker, hactions⟩ := hsend
      · exact .inl hno
      · have hresolves : Resolves w url ⟨r.appid, some outurl⟩ := by
          rw [← hout]
          exact ⟨hres, hun⟩
        have hasks : AsksOverlay w o url package r.appid pid outurl :=
          ⟨hresolves, hov, hrestrict, hpid, hne⟩
        exact .inr ⟨t, r.appid, pid, outurl, ht, hasks, htracker, hactions⟩

/-! ### Asking first -/

/-- A client is told the AppIDs of a list exactly if each URL of the list has one. -/
theorem urlDispatchUrlAppid_eq_some_iff {w : System} {o : Outcomes} {urls appids : List Text} :
    urlDispatchUrlAppid true (testUrl w o urls).replies.head? = some appids ↔
      urls ≠ [] ∧ List.Forall₂ (fun url appid => ∃ r, w.urlToAppid url = some r ∧ r.appid = appid)
        urls appids := by
  obtain ⟨rs, hne, hrs, h⟩ | ⟨hno, url, h⟩ := testUrl_cases w o urls
  · have hmap : List.Forall₂ (fun url appid => ∃ r, w.urlToAppid url = some r ∧ r.appid = appid)
        urls (rs.map Resolved.appid) := by
      rw [List.forall₂_map_right_iff]
      exact hrs.imp fun _ r hr => ⟨r, hr, rfl⟩
    rw [h]
    constructor
    · intro happids
      cases happids
      exact ⟨hne, hmap⟩
    · rintro ⟨-, happids⟩
      -- a URL has one AppID
      have huniq : rs.map Resolved.appid = appids := by
        refine List.right_unique_forall₂' ?_ hmap happids
        rintro url appid appid' ⟨r, hr, rfl⟩ ⟨r', hr', rfl⟩
        rw [Option.some.inj (hr.symm.trans hr')]
      rw [← huniq]
      rfl
  · rw [h]
    refine iff_of_false (by rintro ⟨⟩) ?_
    rintro ⟨hne, happids⟩
    obtain rfl | ⟨url', hmem, hnone⟩ := hno
    · exact hne rfl
    · obtain ⟨n, hn, rfl⟩ := List.getElem_of_mem hmem
      obtain ⟨hlength, hget⟩ := List.forall₂_iff_get.1 happids
      obtain ⟨r, hr, -⟩ := hget n hn (hlength ▸ hn)
      rw [List.get_eq_getElem, hnone] at hr
      cases hr

/-- **A send that has been tested.**  A client asks for the AppIDs of some URLs, and sends one of
them to the package its AppID belongs to.  Whatever has changed meanwhile, nothing is done outside
the package; and if the URL resolves as before, it is not refused for its package, and what is done
for it is for the AppID the client has been told. -/
theorem dispatchUrl_of_tested {w w' : System} {o o' : Outcomes} {urls appids : List Text}
    (htest : urlDispatchUrlAppid true (testUrl w o urls).replies.head? = some appids)
    {url appid package : Text} (hmem : (url, appid) ∈ urls.zip appids) (hp : package ≠ [])
    (hbelongs : BelongsTo w appid package) :
    (∀ a ∈ (dispatchUrl w' o' url package).actions, BelongsTo w' a.appid package) ∧
    (w'.urlToAppid url = w.urlToAppid url → w'.appIdParse = w.appIdParse →
      restrictedReply url package ∉ (dispatchUrl w' o' url package).replies ∧
      ∀ a ∈ (dispatchUrl w' o' url package).actions, a.appid = appid) := by
  refine ⟨fun a ha => belongsTo_of_mem_actions ha hp, fun hres hparse => ?_⟩
  obtain ⟨r, hr, rfl⟩ :=
    List.forall₂_zip (urlDispatchUrlAppid_eq_some_iff.1 htest).2 hmem
  have hallowed : ∀ r', Resolves w' url r' → r' = r := fun r' hr' =>
    Option.some.inj (hr'.1.symm.trans (hres.trans hr))
  obtain ⟨-, h⟩ | ⟨r', hr', hrestrict, -⟩ | ⟨r', hr', -, -, -, c, a, hsent, h⟩ |
    ⟨r', -, -, -, -, c, hun, h⟩ | ⟨r', -, -, -, -, h⟩ := dispatchUrl_cases w' o' url package
  · rw [h]
    exact ⟨fun hmem => restrictedReply_ne_badUrlReply url package _ (List.mem_singleton.1 hmem),
      fun a ha => (by cases ha)⟩
  · -- the AppID belongs to the package, as it did for the test
    have hbelongs' : BelongsTo w' r'.appid package := by
      rw [hallowed r' hr', BelongsTo, hparse]
      exact hbelongs
    have hfalse := (dispatcherAppidRestrict_eq_false_iff w' r'.appid package).2 (.inr hbelongs')
    rw [hrestrict] at hfalse
    cases hfalse
  · rw [h]
    refine ⟨fun hmem => (by cases List.mem_singleton.1 hmem), fun b hb => ?_⟩
    rw [hsent.actions] at hb
    rw [List.mem_singleton.1 hb, hsent.appid, hallowed r' hr']
  · rw [h]
    refine ⟨fun hmem => ?_, fun a ha => ?_⟩
    · rcases List.mem_cons.1 hmem with hmem | hmem
      · exact restrictedReply_ne_badUrlReply url package _ hmem
      · cases List.mem_singleton.1 hmem
    · rw [hun.actions] at ha
      cases ha
  · rw [h]
    exact ⟨fun hmem => (by cases hmem), fun a ha => (by cases ha)⟩

/-- The URL `http://foo.com` is tested, and sent to `foo` after the overlays have moved. -/
theorem dispatchUrl_of_tested_fooSystem :
    (restrictedReply "http://foo.com".toList "foo".toList ∉
      (dispatchUrl { fooSystem with overlayDir := some "/overlays".toList } Exchange.twoOutcomes
        "http://foo.com".toList "foo".toList).replies) ∧
    (dispatchUrl { fooSystem with overlayDir := some "/overlays".toList } Exchange.twoOutcomes
        "http://foo.com".toList "foo".toList).replies.length = 1 := by
  have htest : urlDispatchUrlAppid true (testUrl fooSystem Exchange.twoOutcomes
    ["http://foo.com".toList]).replies.head? = some ["foo".toList] := by decide
  have hmem : ("http://foo.com".toList, "foo".toList) ∈
    ["http://foo.com".toList].zip ["foo".toList] := List.mem_singleton_self _
  exact ⟨((dispatchUrl_of_tested htest hmem (by decide) rfl).2 rfl rfl).1, by decide⟩

/-! ### Overlays -/

/-- The overlay a helper has been started for. -/
def HelperStart.request (h : HelperStart) : Text × ℕ × Text := (h.appid, h.session.pid, h.url)

namespace OverlayTracker

/-- A helper that is started is one more. -/
theorem started_addOverlay (t : OverlayTracker) (appid : Text) (pid : ℕ) (url : Text)
    (create : Option ℕ) (start : Option Text) :
    (t.addOverlay appid pid url create start).1.started.map HelperStart.request =
      t.started.map HelperStart.request ++
        if (t.addOverlay appid pid url create start).2 then [(appid, pid, url)] else [] := by
  rw [addOverlay_snd]
  cases create with
  | none => simp [addOverlay]
  | some handle =>
    cases start with
    | none => simp [addOverlay]
    | some instanceid =>
      simp only [addOverlay, Option.isSome_some, Bool.and_self, if_true]
      split_ifs <;> simp [HelperStart.request]

theorem started_removeSession (t : OverlayTracker) (session : ℕ) :
    (t.removeSession session).started = t.started := by
  obtain ⟨-, he⟩ | ⟨o, -, -, he⟩ := t.removeSession_cases session
  · rw [he]
  · rw [he]
    rfl

theorem started_untrustedHelperStopped (t : OverlayTracker) (appid instanceid helpertype : Text) :
    (t.untrustedHelperStopped appid instanceid helpertype).started = t.started := by
  obtain ⟨-, he⟩ | ⟨-, o, -, -, he⟩ := t.untrustedHelperStopped_cases appid instanceid helpertype
  · rw [he]
  · rw [he]
    rfl

end OverlayTracker

namespace Exchange

variable {κ : Type*} {calls : κ → SendCall} {s s' : Exchange κ} {e : ExchangeEvent κ}

/-- The overlay that has been added for a message. -/
def overlayOf (calls : κ → SendCall) (h : κ × System × Outcomes) : Option (Text × ℕ × Text) :=
  match (dispatched calls h).actions with
  | [.addOverlay appid pid outurl] => some (appid, pid, outurl)
  | _ => none

/-- An overlay that has been added for a message has been asked for. -/
theorem asksOverlay_of_overlayOf {h : κ × System × Outcomes} {appid outurl : Text} {pid : ℕ}
    (ho : overlayOf calls h = some (appid, pid, outurl)) :
    AsksOverlay h.2.1 h.2.2 (calls h.1).url (calls h.1).packageArg appid pid outurl := by
  have hactions : (dispatched calls h).actions = [.addOverlay appid pid outurl] := by
    unfold overlayOf at ho
    split at ho
    · next heq =>
      cases ho
      exact heq
    · cases ho
  obtain ⟨-, hno⟩ | ⟨t, appid', pid', outurl', -, hasks, -, heq⟩ :=
    dispatchUrl_tracker h.2.1 h.2.2 (calls h.1).url (calls h.1).packageArg
  · refine absurd ?_ (hno appid pid outurl)
    rw [← dispatched, hactions]
    exact List.mem_singleton_self _
  · rw [← dispatched, hactions] at heq
    split_ifs at heq
    cases heq
    exact hasks

/-- Mir never returns the handle of a session that has not been released. -/
def FreshAnswer (s : Exchange κ) : ExchangeEvent κ → Prop
  | .handle _ _ o => ∀ handle, o.promptSession = some handle → ∀ t, s.tracker = some t →
    ∀ session, t.Live session → session.handle ≠ handle
  | _ => True

/-- The invariant: the helpers that have been started are those the messages have asked for. -/
structure Shows (calls : κ → SendCall) (s : Exchange κ) (t : OverlayTracker) : Prop where
  tracker : s.tracker = some t
  balanced : t.Balanced
  started : t.started.map HelperStart.request = s.handled.filterMap (overlayOf calls)

/-- The service handles a message. -/
theorem Shows.handle {t : OverlayTracker} (h : Shows calls s t) (k : κ) (w : System) {o : Outcomes}
    (ho : o.tracker = s.tracker) (hfresh : ∀ handle, o.promptSession = some handle →
      ∀ session, t.Live session → session.handle ≠ handle) :
    ∃ t', (dispatched calls (k, w, o)).tracker = some t' ∧ t'.Balanced ∧
      t'.started.map HelperStart.request =
        (s.handled ++ [(k, w, o)]).filterMap (overlayOf calls) := by
  rw [List.filterMap_append, ← h.started]
  obtain ⟨htracker, hno⟩ | ⟨t', appid, pid, outurl, ht', -, htracker, hactions⟩ :=
    dispatchUrl_tracker w o (calls k).url (calls k).packageArg
  · refine ⟨t, htracker.trans (ho.trans h.tracker), h.balanced, ?_⟩
    have hnone : overlayOf calls (k, w, o) = none := by
      unfold overlayOf
      split
      · next appid pid outurl heq =>
        have heq : (dispatchUrl w o (calls k).url (calls k).packageArg).actions =
          [.addOverlay appid pid outurl] := heq
        refine absurd ?_ (hno appid pid outurl)
        rw [heq]
        exact List.mem_singleton_self _
      · rfl
    rw [List.filterMap_cons_none hnone, List.filterMap_nil, List.append_nil]
  · rw [ho, h.tracker] at ht'
    cases ht'
    refine ⟨_, htracker, h.balanced.addOverlay appid pid outurl o.promptSession o.sessionHelper
      hfresh, ?_⟩
    have heq : (dispatched calls (k, w, o)).actions = _ := hactions
    rw [OverlayTracker.started_addOverlay]
    congr 1
    cases hadd : (t.addOverlay appid pid outurl o.promptSession o.sessionHelper).2 <;>
      rw [hadd] at heq <;> simp [overlayOf, heq]

/-- Every helper that has been started is one that a message has asked for. -/
theorem Shows.asksOverlay {t : OverlayTracker} (h : Shows calls s t) {start : HelperStart}
    (hstart : start ∈ t.started) : ∃ m ∈ s.handled,
      overlayOf calls m = some (start.appid, start.session.pid, start.url) ∧
      AsksOverlay m.2.1 m.2.2 (calls m.1).url (calls m.1).packageArg start.appid
        start.session.pid start.url := by
  have hrequest : start.request ∈ t.started.map HelperStart.request :=
    List.mem_map_of_mem hstart
  rw [h.started] at hrequest
  obtain ⟨m, hmem, hoverlay⟩ := List.mem_filterMap.1 hrequest
  exact ⟨m, hmem, hoverlay, asksOverlay_of_overlayOf hoverlay⟩

variable [DecidableEq κ]

theorem Shows.step {t : OverlayTracker} (h : Shows calls s t) {gaveUp : κ → Prop}
    (hfaithful : Faithful calls gaveUp s) (hG : FreshAnswer s e) (hs : s.step calls e = some s') :
    ∃ t', Shows calls s' t' := by
  cases step_sound hs with
  | handle k w o message hgone hk =>
    obtain ⟨-, rfl, -⟩ := hfaithful.requests k message hk
    obtain ⟨t', htracker, hbalanced, hstarted⟩ := h.handle k w (o := s.outcomes o) rfl
      fun handle hc => hG handle hc t h.tracker
    exact ⟨t', htracker, hbalanced, hstarted⟩
  | removeSession session hgone =>
    refine ⟨t.removeSession session, ?_, h.balanced.removeSession session, ?_⟩
    · dsimp only
      rw [h.tracker]
      rfl
    · rw [t.started_removeSession]
      exact h.started
  | untrustedHelperStopped appid instanceid helpertype hgone =>
    refine ⟨t.untrustedHelperStopped appid instanceid helpertype, ?_,
      h.balanced.untrustedHelperStopped appid instanceid helpertype, ?_⟩
    · dsimp only
      rw [h.tracker]
      rfl
    · rw [t.started_untrustedHelperStopped]
      exact h.started
  | sendNowhere | send | drop | answer | fail => exact ⟨t, h.tracker, h.balanced, h.started⟩

theorem shows_of_run {es : List (ExchangeEvent κ)} {s : Exchange κ}
    (h : Run (step calls) FreshAnswer (init (some .init)) es s) : ∃ t, Shows calls s t := by
  have hinv : Faithful calls (fun _ => True) s ∧ ∃ t, Shows calls s t := by
    refine h.invariant (I := fun s => Faithful calls (fun _ => True) s ∧ ∃ t, Shows calls s t)
      ⟨faithful_init calls _ _, .init, rfl, .init, rfl⟩ ?_
    rintro s e s' ⟨hfaithful, t, ht⟩ hG hs
    exact ⟨hfaithful.step (fun _ _ => trivial) hs, ht.step hfaithful hG hs⟩
  exact hinv.2

/-- **Overlays come from messages.**  In every session, whatever Mir and ubuntu-app-launch report to
the tracker, the helpers that have been started are those of the messages for which an overlay has
been added, one each and in that order; and what is shown is shown for a message whose URL resolves
to that AppID, whose package may have it, and whose sender's PID it is shown for. -/
theorem overlays_of_run {es : List (ExchangeEvent κ)} {s : Exchange κ}
    (h : Run (step calls) FreshAnswer (init (some .init)) es s) :
    ∃ t, s.tracker = some t ∧ t.Balanced ∧
      t.started.map HelperStart.request = s.handled.filterMap (overlayOf calls) ∧
      ∀ o ∈ t.ongoing, ∃ h ∈ s.handled, ∃ outurl,
        overlayOf calls h = some (o.appid, o.session.pid, outurl) ∧
        AsksOverlay h.2.1 h.2.2 (calls h.1).url (calls h.1).packageArg o.appid o.session.pid
          outurl := by
  obtain ⟨t, ht⟩ := shows_of_run h
  refine ⟨t, ht.tracker, ht.balanced, ht.started, fun o ho => ?_⟩
  obtain ⟨outurl, hhelper⟩ := ht.balanced.helpers o (List.mem_append_right _ ho)
  obtain ⟨m, hmem, hoverlay, hasks⟩ := ht.asksOverlay hhelper
  exact ⟨m, hmem, outurl, hoverlay, hasks⟩

/-- `foo` is an overlay. -/
def overlaySystem : System := plainSystem fooSystem.urldb
  ["/usr/share/url-dispatcher/url-overlays/foo.desktop".toList]

/-- The first of the two calls is made, and its overlay is shown. -/
def overlayShown : List (ExchangeEvent Bool) :=
  [.send true true, .handle true overlaySystem ⟨true, some 8, none, some 4, some "1".toList⟩]

theorem exists_run_overlayShown : ∃ s : Exchange Bool,
    Run (step twoCalls) FreshAnswer (init (some .init)) overlayShown s := by
  obtain ⟨s, hs⟩ := Option.isSome_iff_exists.1
    (show (run (fun (s : Exchange Bool) e => if (match e with
      | .handle _ _ _ => decide (s.tracker.map OverlayTracker.created = some [])
      | _ => true) then s.step twoCalls e else none) (init (some .init)) overlayShown).isSome by
        decide)
  refine ⟨s, .of_run (g := fun s e => match e with
    | .handle _ _ _ => decide (s.tracker.map OverlayTracker.created = some [])
    | _ => true) (fun s e hg => ?_) hs⟩
  cases e with
  | handle k w o =>
    rintro handle - t ht session ⟨hmem, -⟩
    have hnil := of_decide_eq_true hg
    rw [ht, Option.map_some] at hnil
    rw [Option.some.inj hnil] at hmem
    cases hmem
  | _ => trivial

theorem overlays_of_run_overlayShown : ∃ s : Exchange Bool,
    run (step twoCalls) (init (some .init)) overlayShown = some s ∧ ∃ t, s.tracker = some t ∧
      t.ongoing.length = 1 ∧
      ∀ o ∈ t.ongoing, ∃ h ∈ s.handled, ∃ outurl, AsksOverlay h.2.1 h.2.2 (twoCalls h.1).url
        (twoCalls h.1).packageArg o.appid o.session.pid outurl := by
  obtain ⟨s, hrun⟩ := exists_run_overlayShown
  obtain ⟨t, ht, -, -, hongoing⟩ := overlays_of_run hrun
  refine ⟨s, hrun.run_eq, t, ht, ?_, fun o ho => ?_⟩
  · have hlength : (run (step twoCalls) (init (some .init)) overlayShown).map
        (fun s => s.tracker.map fun t => t.ongoing.length) = some (some 1) := by decide
    rw [hrun.run_eq, Option.map_some, ht] at hlength
    exact Option.some.inj (Option.some.inj hlength)
  · obtain ⟨h, hmem, outurl, -, hasks⟩ := hongoing o ho
    exact ⟨h, hmem, outurl, hasks⟩

/-! ### The tool -/

/-- What the tool `url-dispatcher` asks for. -/
def toolCall (url : Text) : Unit → SendCall := fun _ => ⟨url, none, true⟩

/-- `main` of the tool: the exit status, as soon as there is one.  The loop ends with the callback,
which sets `global_success`. -/
def toolStatus (args : List Text) (s : Exchange Unit) : Option ℕ :=
  match args with
  | [_] => s.callbacks.head?.map fun c => if c.2.2 then 0 else 1
  | _ => some 1

end Exchange

open Exchange

/-- The exit status is that of the callback. -/
theorem toolStatus_eq_some_iff {url : Text} {s : Exchange Unit} {status : ℕ} :
    toolStatus [url] s = some status ↔ ∃ url' success callbacks,
      s.callbacks = ((), url', success) :: callbacks ∧ status = if success then 0 else 1 := by
  unfold toolStatus
  cases hs : s.callbacks with
  | nil =>
    constructor
    · rintro ⟨⟩
    · rintro ⟨_, _, _, ⟨⟩, _⟩
  | cons c callbacks =>
    obtain ⟨⟨⟩, url', success⟩ := c
    constructor
    · intro h
      cases h
      exact ⟨url', success, callbacks, rfl, rfl⟩
    · rintro ⟨_, _, _, h, rfl⟩
      cases h
      rfl

/-- **What the exit status says.**  The tool ends with 0 only if the service has done something for
the URL, and with 1 only if it has done nothing or GDBus has given up.  With a session bus the
service and the bus alone can bring it to its end, even if the service dies; without one it never
ends. -/
theorem status_of_run {url : Text} {tracker : Option OverlayTracker}
    {es : List (ExchangeEvent Unit)} {s : Exchange Unit}
    (h : Run (step (toolCall url)) (fun _ _ => True) (init tracker) es s) :
    (toolStatus [url] s = some 0 → ∃ w o, ((), w, o) ∈ s.handled ∧
      ∃ a, (dispatchUrl w o url []).actions = [a]) ∧
    (toolStatus [url] s = some 1 → .fail () ∈ es ∨ ∃ w o, ((), w, o) ∈ s.handled ∧
      (dispatchUrl w o url []).actions = []) ∧
    (.send () true ∈ es → ∀ w o, ∃ fs s',
      Run (step (toolCall url)) (Served () w o) s fs s' ∧
        toolStatus [url] s' ≠ none) ∧
    (.send () false ∈ es → toolStatus [url] s = none) := by
  have hended : ∀ s' : Exchange Unit, () ∈ s'.callbacks.map Prod.fst →
      toolStatus [url] s' ≠ none := by
    intro s' hmem
    rw [toolStatus, ne_eq, Option.map_eq_none_iff, List.head?_eq_none_iff]
    rintro hnil
    rw [hnil] at hmem
    cases hmem
  refine ⟨fun hstatus => ?_, fun hstatus => ?_, fun hk w o => ?_, fun hk => ?_⟩
  · obtain ⟨url', success, callbacks, hs, hsuccess⟩ := toolStatus_eq_some_iff.1 hstatus
    have htrue : success = true := by
      by_contra hne
      rw [if_neg hne] at hsuccess
      cases hsuccess
    obtain ⟨-, -, hreport⟩ := (faithful_of_run h).report (hs ▸ List.mem_cons_self)
    obtain ⟨hfalse, -⟩ | ⟨w, o, hmem, ⟨-, hactions⟩ | ⟨hfalse, -⟩⟩ := hreport
    · rw [htrue] at hfalse
      cases hfalse
    · exact ⟨w, o, hmem, hactions⟩
    · rw [htrue] at hfalse
      cases hfalse
  · obtain ⟨url', success, callbacks, hs, hsuccess⟩ := toolStatus_eq_some_iff.1 hstatus
    have hfalse : success ≠ true := by
      intro htrue
      rw [if_pos htrue] at hsuccess
      cases hsuccess
    obtain ⟨-, -, hreport⟩ := (faithful_of_run h).report (hs ▸ List.mem_cons_self)
    obtain ⟨-, hfail⟩ | ⟨w, o, hmem, ⟨htrue, -⟩ | ⟨-, hactions⟩⟩ := hreport
    · exact .inl hfail
    · exact absurd htrue hfalse
    · exact .inr ⟨w, o, hmem, hactions⟩
  · rcases waiting_or_mem_callbacks h hk rfl with hwaiting | hmem
    · obtain ⟨fs, s', hrun, success, hmem⟩ := callback_of_waiting h hwaiting w o
      exact ⟨fs, s', hrun, hended s' (List.mem_map_of_mem hmem)⟩
    · exact ⟨[], s, .nil s, hended s hmem⟩
  · by_contra hne
    obtain ⟨status, hstatus⟩ := Option.ne_none_iff_exists'.1 hne
    obtain ⟨url', success, callbacks, hs, -⟩ := toolStatus_eq_some_iff.1 hstatus
    refine not_mem_callbacks_of_send h hk ?_
    rw [hs]
    exact List.mem_cons_self

/-- The tool sends `http://foo.com`. -/
def toolRun : List (ExchangeEvent Unit) :=
  [.send () true, .handle () fooSystem twoOutcomes, .receive]

theorem status_of_run_toolRun : ∃ s : Exchange Unit,
    run (step (toolCall "http://foo.com".toList)) (init none) toolRun = some s ∧
    toolStatus ["http://foo.com".toList] s = some 0 ∧ ∃ w o, ((), w, o) ∈ s.handled ∧
      ∃ a, (dispatchUrl w o "http://foo.com".toList []).actions = [a] := by
  obtain ⟨s, hs⟩ := Option.isSome_iff_exists.1
    (show (run (step (toolCall "http://foo.com".toList)) (init none) toolRun).isSome by decide)
  have hstatus : toolStatus ["http://foo.com".toList] s = some 0 := by
    have h : (run (step (toolCall "http://foo.com".toList)) (init none) toolRun).map
      (toolStatus ["http://foo.com".toList]) = some (some 0) := by decide
    rw [hs] at h
    exact Option.some.inj h
  exact ⟨s, hs, hstatus,
    (status_of_run (.of_run (g := fun _ _ => true) (fun _ _ _ => trivial) hs)).1 hstatus⟩

end UrlDispatcher
