import UrlDispatcher.Db.Registry
import UrlDispatcher.Dispatch.Service

/-!
# What an invocation leads to

Properties of one call over all systems and all outcomes, each from the five cases of
`dispatchUrl_cases`.

* `replies_length` : an invocation has one reply, except for a `DispatchURL` whose send fails, which
  has two, or kills the service, which has none.
* `dispatchUrl_safe` : at most one action, for the AppID the URL resolves to; none with an error.
* `replies_eq_iff` : what the reply to a restricted caller gives away about the packages of others.
-/

namespace UrlDispatcher

/-! ### One reply -/

/-- The URL resolves, its AppID is allowed, and the send fails. -/
def LateFailure (w : System) (o : Outcomes) (url package : Text) : Prop :=
  ∃ r, Resolves w url r ∧ dispatcherAppidRestrict w r.appid package = false ∧ SendFails w o r

/-- The URL resolves, its AppID is allowed, and the service dies of the send. -/
def LateCrash (w : System) (o : Outcomes) (url package : Text) : Prop :=
  ∃ r, Resolves w url r ∧ dispatcherAppidRestrict w r.appid package = false ∧ SendCrashes w o r

/-- A URL resolves to one AppID. -/
theorem Resolves.unique {w : System} {url : Text} {r r' : Resolved} (h : Resolves w url r)
    (h' : Resolves w url r') : r = r' := Option.some.inj (h.1.symm.trans h'.1)

/-- What comes of the send comes of it for the one AppID the URL resolves to. -/
theorem exists_resolves_iff {w : System} {url package : Text} {r : Resolved} (hr : Resolves w url r)
    (hrestrict : dispatcherAppidRestrict w r.appid package = false) (P : Resolved → Prop) :
    (∃ r', Resolves w url r' ∧ dispatcherAppidRestrict w r'.appid package = false ∧ P r') ↔
      P r := by
  constructor
  · rintro ⟨r', hr', -, hP⟩
    rwa [hr.unique hr']
  · exact fun hP => ⟨r, hr, hrestrict, hP⟩

/-- **One reply.**  A `TestURL` has one reply, and a `DispatchURL` has one exactly if it does not
get as far as a send that fails or that kills the service. -/
theorem replies_length (w : System) (o : Outcomes) (urls : List Text) (url package : Text) :
    (testUrl w o urls).replies.length = 1 ∧
    ((dispatchUrl w o url package).replies.length = 1 ↔
      ¬ LateFailure w o url package ∧ ¬ LateCrash w o url package) := by
  constructor
  · obtain ⟨rs, -, -, h⟩ | ⟨-, url, h⟩ := testUrl_cases w o urls
    · rw [h]
      rfl
    · rw [h]
      rfl
  obtain ⟨hno, h⟩ | ⟨r, hr, hrestrict, h⟩ | ⟨r, hr, hrestrict, hf, hc, c, a, -, h⟩ |
    ⟨r, hr, hrestrict, hf, -, c, -, h⟩ | ⟨r, hr, hrestrict, -, hc, h⟩ :=
      dispatchUrl_cases w o url package
  all_goals rw [h]
  · exact iff_of_true rfl ⟨fun ⟨r, hr, _⟩ => hno r hr, fun ⟨r, hr, _⟩ => hno r hr⟩
  · have hno : ∀ r', Resolves w url r' → dispatcherAppidRestrict w r'.appid package ≠ false := by
      intro r' hr'
      rw [← hr.unique hr', hrestrict]
      exact Bool.false_ne_true.symm
    exact iff_of_true rfl ⟨fun ⟨r', hr', hrestrict', _⟩ => hno r' hr' hrestrict',
      fun ⟨r', hr', hrestrict', _⟩ => hno r' hr' hrestrict'⟩
  · rw [LateFailure, LateCrash, exists_resolves_iff hr hrestrict, exists_resolves_iff hr hrestrict]
    exact iff_of_true rfl ⟨hf, hc⟩
  · exact iff_of_false (by simp) fun hone => hone.1 ⟨r, hr, hrestrict, hf⟩
  · exact iff_of_false (by simp [Outcomes.crash, Outcomes.start]) fun hone =>
      hone.2 ⟨r, hr, hrestrict, hc⟩

/-- The dash is asked for without a URL, and nobody gets a reply. -/
example : (dispatchUrl (plainSystem .empty []) ⟨true, none, none, none, none⟩
    "application:///unity8-dash.desktop".toList []).replies = [] := by decide

/-- An overlay is asked for `application:///foo.desktop`, and the PID of the caller is not found:
the caller gets the error for a bad URL and then that of the skeleton. -/
theorem not_replies_length : ¬ ∀ w o url package,
    (dispatchUrl w o url package).replies.length = 1 := by
  intro h
  have hlen := h (plainSystem .empty ["/usr/share/url-dispatcher/url-overlays/foo.desktop".toList])
    ⟨true, none, none, none, none⟩ "application:///foo.desktop".toList []
  revert hlen
  decide

/-! ### At most one action -/

/-- `ubuntu_app_launch_app_id_parse` finds the package in the AppID, or the AppID is the package. -/
def BelongsTo (w : System) (appid package : Text) : Prop :=
  match w.appIdParse appid with
  | some appackage => package = appackage
  | none => package = appid

theorem dispatcherAppidRestrict_eq_false_iff (w : System) (appid package : Text) :
    dispatcherAppidRestrict w appid package = false ↔ package = [] ∨ BelongsTo w appid package := by
  unfold dispatcherAppidRestrict BelongsTo
  by_cases hp : package = []
  · simp [hp]
  · cases w.appIdParse appid <;> simp [hp]

/-- The caller gets one of the errors of the service. -/
def Call.HasError (c : Call) : Prop :=
  ∃ (e : UrlDispatcherError) (message : Text), .returnError e.name message ∈ c.replies

/-- **A dispatch is safe.**  There is one action at most; it is for the AppID the URL resolves to in
this call, which is not `unconfined` and belongs to the package, if one is named.  The overlays only
change with an action that adds one.  If the caller gets an error, nothing has been started, nothing
sent to the dash, and the overlays are as before. -/
theorem dispatchUrl_safe (w : System) (o : Outcomes) (url package : Text) :
    (dispatchUrl w o url package).actions.length ≤ 1 ∧
    (∀ a ∈ (dispatchUrl w o url package).actions, ∃ r, w.urlToAppid url = some r ∧
      a.appid = r.appid ∧ r.appid ≠ "unconfined".toList ∧
      (package ≠ [] → BelongsTo w r.appid package)) ∧
    ((∀ appid pid url', .addOverlay appid pid url' ∉ (dispatchUrl w o url package).actions) →
      (dispatchUrl w o url package).ongoing = o.start.ongoing) ∧
    ((dispatchUrl w o url package).HasError → (dispatchUrl w o url package).actions = [] ∧
      (dispatchUrl w o url package).focusRequests = [] ∧
      (dispatchUrl w o url package).ongoing = o.start.ongoing) := by
  obtain ⟨-, h⟩ | ⟨r, -, -, h⟩ | ⟨r, hr, hrestrict, -, -, c, a, hsent, h⟩ |
    ⟨r, -, -, -, -, c, hun, h⟩ | ⟨r, -, -, -, -, h⟩ := dispatchUrl_cases w o url package
  all_goals rw [h]
  · exact ⟨Nat.zero_le _, fun a ha => (by cases ha), fun _ => rfl, fun _ => ⟨rfl, rfl, rfl⟩⟩
  · exact ⟨Nat.zero_le _, fun a ha => (by cases ha), fun _ => rfl, fun _ => ⟨rfl, rfl, rfl⟩⟩
  · refine ⟨hsent.actions ▸ le_rfl, fun b hb => ?_, fun hadd => ?_, fun ⟨e, m, he⟩ => ?_⟩
    · rw [hsent.actions, List.mem_singleton] at hb
      refine ⟨r, hr.1, hb ▸ hsent.appid, hr.2, fun hp => ?_⟩
      exact ((dispatcherAppidRestrict_eq_false_iff w _ _).1 hrestrict).resolve_left hp
    · rw [hsent.actions] at hadd
      have htracker : c.tracker = o.tracker := hsent.tracker fun appid pid url' ha =>
        hadd appid pid url' (ha ▸ List.mem_singleton_self a)
      exact congrArg (fun t => (t.map OverlayTracker.ongoing).getD []) htracker
    · -- what has been sent is not answered with an error
      cases List.mem_singleton.1 he
  · exact ⟨hun.actions ▸ Nat.zero_le _, fun a ha => (by rw [hun.actions] at ha; cases ha),
      fun _ => hun.ongoing, fun _ => ⟨hun.actions, hun.focusRequests, hun.ongoing⟩⟩
  · -- a dead service does not answer
    exact ⟨Nat.zero_le _, fun a ha => (by cases ha), fun _ => rfl, fun ⟨_, _, he⟩ => (by cases he)⟩

/-! ### What a reply gives away -/

/-- The URL resolves to no AppID of the package. -/
def NotOwned (w : System) (url package : Text) : Prop :=
  ∀ r, w.urlToAppid url = some r → ¬ BelongsTo w r.appid package

/-- The URL has a handler that is not `unconfined`. -/
def HasHandler (w : System) (url : Text) : Prop := ∃ r, Resolves w url r

/-- A restricted caller whose package does not own the URL is told whether there is a handler. -/
theorem dispatchUrl_replies_of_notOwned {w : System} {url package : Text} (hp : package ≠ [])
    (h : NotOwned w url package) (o : Outcomes) :
    (HasHandler w url ∧ (dispatchUrl w o url package).replies = [restrictedReply url package]) ∨
    (¬ HasHandler w url ∧ (dispatchUrl w o url package).replies = [badUrlReply (some url)]) := by
  -- whatever the URL resolves to is restricted, so nothing is sent
  have howned : ∀ r, Resolves w url r → dispatcherAppidRestrict w r.appid package ≠ false :=
    fun r hr hf => h r hr.1 (((dispatcherAppidRestrict_eq_false_iff w _ _).1 hf).resolve_left hp)
  obtain ⟨hno, he⟩ | ⟨r, hr, -, he⟩ | ⟨r, hr, hrestrict, -⟩ | ⟨r, hr, hrestrict, -⟩ |
    ⟨r, hr, hrestrict, -⟩ := dispatchUrl_cases w o url package
  · exact .inr ⟨fun ⟨r, hr⟩ => hno r hr, by rw [he]⟩
  · exact .inl ⟨⟨r, hr⟩, by rw [he]⟩
  · exact absurd hrestrict (howned r hr)
  · exact absurd hrestrict (howned r hr)
  · exact absurd hrestrict (howned r hr)

/-- **What a restricted caller learns.**  Where the URL resolves to no AppID of the caller's
package, the replies are equal if and only if there is a handler in both databases or in neither. -/
theorem replies_eq_iff {w w' : System} {url package : Text} (hp : package ≠ [])
    (h : NotOwned w url package) (h' : NotOwned w' url package) (o o' : Outcomes) :
    (dispatchUrl w o url package).replies = (dispatchUrl w' o' url package).replies ↔
      (HasHandler w url ↔ HasHandler w' url) := by
  have hne : [restrictedReply url package] ≠ [badUrlReply (some url)] := fun he =>
    restrictedReply_ne_badUrlReply url package _ (List.singleton_injective he)
  obtain ⟨hh, hr⟩ | ⟨hh, hr⟩ := dispatchUrl_replies_of_notOwned hp h o
  · obtain ⟨hh', hr'⟩ | ⟨hh', hr'⟩ := dispatchUrl_replies_of_notOwned hp h' o'
    · exact iff_of_true (hr.trans hr'.symm) (iff_of_true hh hh')
    · exact iff_of_false (fun he => hne (hr.symm.trans (he.trans hr'))) fun hiff => hh' (hiff.1 hh)
  · obtain ⟨hh', hr'⟩ | ⟨hh', hr'⟩ := dispatchUrl_replies_of_notOwned hp h' o'
    · exact iff_of_false (fun he => hne (hr'.symm.trans (he.symm.trans hr)))
        fun hiff => hh (hiff.2 hh')
    · exact iff_of_true (hr.trans hr'.symm) (iff_of_false hh hh')

theorem NotOwned.of_eq {w : System} {url package : Text} {r : Resolved}
    (h : w.urlToAppid url = some r) (hb : ¬ BelongsTo w r.appid package) :
    NotOwned w url package := by
  intro r' hr'
  cases h.symm.trans hr'
  exact hb

/-- A system on which `foo` handles `http://foo.com`. -/
def fooSystem : System :=
  plainSystem (entryDatabase "/d/foo.url-dispatcher".toList "http".toList "foo.com".toList) []

/-- A system on which `baz` does. -/
def bazSystem : System :=
  plainSystem (entryDatabase "/d/baz.url-dispatcher".toList "http".toList "foo.com".toList) []

theorem fooSystem_resolves : Resolves fooSystem "http://foo.com".toList
    ⟨"foo".toList, some "http://foo.com".toList⟩ := ⟨by decide, by decide⟩

theorem bazSystem_resolves : Resolves bazSystem "http://foo.com".toList
    ⟨"baz".toList, some "http://foo.com".toList⟩ := ⟨by decide, by decide⟩

theorem fooSystem_notOwned : NotOwned fooSystem "http://foo.com".toList "bar".toList :=
  .of_eq fooSystem_resolves.1 (show "bar".toList ≠ "foo".toList by decide)

/-- `replies_eq_iff` for two handlers: the package `bar` gets one reply whichever is installed. -/
theorem replies_eq_fooSystem :
    (dispatchUrl fooSystem ⟨true, none, none, none, none⟩ "http://foo.com".toList
      "bar".toList).replies =
    (dispatchUrl bazSystem ⟨true, none, none, none, none⟩ "http://foo.com".toList
      "bar".toList).replies :=
  (replies_eq_iff (by decide) fooSystem_notOwned
    (.of_eq bazSystem_resolves.1 (show "bar".toList ≠ "baz".toList by decide)) _ _).2
    (iff_of_true ⟨_, fooSystem_resolves⟩ ⟨_, bazSystem_resolves⟩)

/-- Whether `foo` is installed shows in the reply to the package `bar`. -/
theorem not_replies_eq : ¬ ∀ (w : System) (urldb urldb' : Database) (url package : Text),
    package ≠ [] → NotOwned { w with urldb := urldb } url package →
    NotOwned { w with urldb := urldb' } url package → ∀ o o',
      (dispatchUrl { w with urldb := urldb } o url package).replies =
        (dispatchUrl { w with urldb := urldb' } o' url package).replies := by
  intro h
  have hnone :
      NotOwned { fooSystem with urldb := .empty } "http://foo.com".toList "bar".toList := by
    have hres : ({ fooSystem with urldb := .empty } : System).urlToAppid "http://foo.com".toList =
        none := by decide
    intro r hr
    cases hres.symm.trans hr
  have he := h fooSystem .empty fooSystem.urldb _ _ (by decide) hnone fooSystem_notOwned
    ⟨true, none, none, none, none⟩ ⟨true, none, none, none, none⟩
  revert he
  decide

end UrlDispatcher
