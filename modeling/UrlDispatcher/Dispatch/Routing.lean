import UrlDispatcher.Dispatch.Parser
import UrlDispatcher.Dispatch.Service
import UrlDispatcher.Update.Installed

/-!
# From the files to the applications

What the service does with a URL is settled by the files that packages have installed.  `Routed`
says so without any regular expression and without any table: the target of the URL is read off
directly, and a lookup goes to the AppID of a file with a longest suffix.  `dispatched_of_history`
is the whole way, through the update runs, the database and the resolver to the action of a
`DispatchURL`.
-/

namespace UrlDispatcher

open Sql Machine

/-- Where a URL may go, by what is registered. -/
inductive Routed (triplet : Text → Text → Text → Option Text) (R : Registry) (url : Text) :
    Resolved → Prop
  /-- To the application of the parts in it. -/
  | parts {package app version appid : Text}
      (h : urlTarget url = some (.parts package app version))
      (ht : triplet package app version = some appid) : Routed triplet R url ⟨appid, none⟩
  /-- To the application in it. -/
  | application {appid : Text} (h : urlTarget url = some (.application appid)) :
      Routed triplet R url ⟨appid, none⟩
  /-- To a file with a longest suffix, together with the URL. -/
  | registered {protocol appid : Text} {domain : Option Text}
      (h : urlTarget url = some (.lookup protocol domain))
      (hr : appid ∈ R.routes protocol (domain.getD [])) : Routed triplet R url ⟨appid, some url⟩

section

variable {triplet : Text → Text → Text → Option Text} {db : Database} {url : Text} {r : Resolved}

/-- Every AppID the function finds is one the URL is routed to. -/
theorem routed_of_urlToAppid {plan : QueryPlan} {st : Status}
    (h : dispatcherUrlToAppid triplet (urlDbFindUrl plan st db) url = some r) :
    Routed triplet db.registry url r := by
  rw [dispatcherUrlToAppid_eq_bind, matchedTarget_eq, Option.bind_eq_some_iff] at h
  obtain ⟨t, ht, h⟩ := h
  cases t with
  | parts package app version =>
    obtain ⟨appid, hp, rfl⟩ := Option.map_eq_some_iff.1 h
    exact .parts ht hp
  | application appid =>
    cases h
    exact .application ht
  | lookup protocol domain =>
    obtain ⟨appid, hf, rfl⟩ := Option.map_eq_some_iff.1 h
    cases st with
    | error => cases hf
    | done => exact .registered ht (mem_routes_of_urlDbFindUrl hf)

/-- The function finds every AppID that the URL is routed to, under some plan. -/
theorem Routed.exists_urlToAppid (h : Routed triplet db.registry url r) :
    ∃ plan, dispatcherUrlToAppid triplet (urlDbFindUrl plan .done db) url = some r := by
  have hresolve : ∀ {t : UrlTarget} {plan : QueryPlan}, urlTarget url = some t →
      dispatcherUrlToAppid triplet (urlDbFindUrl plan .done db) url =
        t.resolve triplet (urlDbFindUrl plan .done db) url := fun ht =>
    resolvedAs_iff_urlTarget.2 ht _ _
  cases h with
  | parts ht hp => exact ⟨.stable, by rw [hresolve ht, UrlTarget.resolve, hp]; rfl⟩
  | application ht => exact ⟨.stable, by rw [hresolve ht]; rfl⟩
  | registered ht hr =>
    obtain ⟨plan, hf⟩ := exists_urlDbFindUrl hr
    exact ⟨plan, by rw [hresolve ht, UrlTarget.resolve, hf]; rfl⟩

/-- Whether anything is found does not depend on the plan. -/
theorem urlToAppid_eq_none_iff {plan : QueryPlan} :
    dispatcherUrlToAppid triplet (urlDbFindUrl plan .done db) url = none ↔
      ∀ r, ¬ Routed triplet db.registry url r := by
  constructor
  · intro h r hr
    rw [dispatcherUrlToAppid_eq_bind, matchedTarget_eq, Option.bind_eq_none_iff] at h
    cases hr with
    | parts ht hp =>
      have hnone := h _ ht
      rw [UrlTarget.resolve, hp] at hnone
      cases hnone
    | application ht => cases h _ ht
    | registered ht hr =>
      have hnone := h _ ht
      rw [UrlTarget.resolve, Option.map_eq_none_iff, urlDbFindUrl_eq_none_iff_routes] at hnone
      rw [hnone] at hr
      exact hr.elim
  · intro h
    rw [Option.eq_none_iff_forall_ne_some]
    exact fun r hr => h r (routed_of_urlToAppid hr)

/-- What is done is done for the AppID the URL resolves to. -/
theorem exists_urlToAppid_of_mem_actions {S : System} {o : Outcomes} {package : Text} {a : Action}
    (ha : a ∈ (dispatchUrl S o url package).actions) :
    ∃ r, S.urlToAppid url = some r ∧ a.appid = r.appid := by
  obtain ⟨-, h⟩ | ⟨r, -, -, h⟩ | ⟨r, hr, -, -, -, c, b, hsent, h⟩ |
    ⟨r, -, -, -, -, c, hun, h⟩ | ⟨r, -, -, -, -, h⟩ := dispatchUrl_cases S o url package
  all_goals rw [h] at ha
  · cases ha
  · cases ha
  · rw [hsent.actions, List.mem_singleton] at ha
    exact ⟨r, hr.1, ha ▸ hsent.appid⟩
  · rw [hun.actions] at ha
    cases ha
  · cases ha

end

/-- **From the files to the applications.**  After any complete runs, with files installed and
removed in between, a URL resolves to the AppIDs it is routed to by the files then known, and to no
others; it resolves to none exactly if there is none; and whatever a request for it makes the
service do is done for one of them. -/
theorem dispatched_of_history (versions : Text → File) (fs : FileSys) (es : List SoloEvent)
    (w : Solo) (hfit : ∀ n, -2 ^ 31 ≤ (versions n).mtime ∧ (versions n).mtime < 2 ^ 31)
    (hfs : Installs versions fs) (h : Run Solo.step (Installing versions) (.init fs) es w)
    (hfin : w.proc = .finished) (S : System) (hdb : S.urldb = w.db) (url : Text) :
    (∀ r, (∃ plan, System.urlToAppid { S with plan := plan, status := .done } url = some r) ↔
      Routed S.tripletToAppId (Registry.ofFiles versions (knownAfter fs ∅ es)) url r) ∧
    (∀ plan, System.urlToAppid { S with plan := plan, status := .done } url = none ↔
      ∀ r, ¬ Routed S.tripletToAppId (Registry.ofFiles versions (knownAfter fs ∅ es)) url r) ∧
    ∀ o package, ∀ a ∈ (dispatchUrl S o url package).actions,
      ∃ r, Routed S.tripletToAppId (Registry.ofFiles versions (knownAfter fs ∅ es)) url r ∧
        a.appid = r.appid := by
  have hregistry : S.urldb.registry = Registry.ofFiles versions (knownAfter fs ∅ es) :=
    hdb ▸ (holds_of_history hfit hfs h hfin).registry
  rw [← hregistry]
  refine ⟨fun r => ⟨fun ⟨_, hr⟩ => routed_of_urlToAppid hr, fun hr => hr.exists_urlToAppid⟩,
    fun plan => urlToAppid_eq_none_iff, fun o package a ha => ?_⟩
  obtain ⟨r, hr, he⟩ := exists_urlToAppid_of_mem_actions ha
  exact ⟨r, routed_of_urlToAppid hr, he⟩

/-- The package that is installed last is routed to. -/
theorem dispatched_of_history_replaced : ∃ w : Solo,
    run Solo.step (.init (pairDir (some (comFile 1)) none)) replaced = some w ∧
    Routed (fun _ _ _ => none) (Registry.ofFiles (fun _ => comFile 1)
      (knownAfter (pairDir (some (comFile 1)) none) ∅ replaced)) "http://a.com".toList
      ⟨"b".toList, some "http://a.com".toList⟩ := by
  obtain ⟨w, hw⟩ := Option.isSome_iff_exists.1
    (show (run Solo.step (.init (pairDir (some (comFile 1)) none)) replaced).isSome by decide)
  have hfound : (plainSystem w.db []).urlToAppid "http://a.com".toList =
      some ⟨"b".toList, some "http://a.com".toList⟩ := by
    have h : (run Solo.step (.init (pairDir (some (comFile 1)) none)) replaced).map (fun w =>
        (plainSystem w.db []).urlToAppid "http://a.com".toList) =
          some (some ⟨"b".toList, some "http://a.com".toList⟩) := by decide
    rw [hw] at h
    exact Option.some.inj h
  refine ⟨w, hw, ((dispatched_of_history (fun _ => comFile 1) _ _ w (fun _ => by decide)
    (installs_comFile (by simp) (by simp)) (run_replaced hw) (by cases hw; rfl)
    (plainSystem w.db []) rfl _).1 _).1 ⟨.stable, hfound⟩⟩

end UrlDispatcher
