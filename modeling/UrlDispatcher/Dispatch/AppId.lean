import UrlDispatcher.Db.Suffix
import UrlDispatcher.Dispatch.Origin
import UrlDispatcher.Update.Fleet

/-!
# AppIDs as names of files

`dispatcher_is_overlay` makes file names of the AppIDs it is asked about, so these should be names:
not empty, and without a separator.  No AppID ever has a separator in it.  The empty one comes from
the URL `application:///.desktop`, and from a file whose whole name is `.url-dispatcher`.

* `directChild_gBuildFilename` : the path of a name lies directly in the directory.
* `isComponent_fileAppid_iff` : the AppID of a handler file is a name unless the file has none
  before its suffix.
* `resolvesUsable_iff` : every AppID a URL may resolve to is a name exactly if neither of the two is
  the case.
-/

namespace UrlDispatcher

open Sql Regex GLib Machine

/-! ### The paths of overlays -/

/-- The directories in which overlays are looked for, that of the system and that of the user. -/
def System.overlayDirs (w : System) : List Text :=
  [w.overlayDir.getD w.overlaySystemDirectory,
    gBuildFilename (gBuildFilename w.userCacheDir "url-dispatcher".toList) "url-overlays".toList]

/-- `%s.desktop` of an AppID. -/
def desktopname (appid : Text) : Text := appid ++ ".desktop".toList

/-- The test for an overlay looks at one path in each of the directories. -/
theorem dispatcherIsOverlay_eq (w : System) (appid : Text) :
    dispatcherIsOverlay w appid =
      w.overlayDirs.any fun dir => w.fileExists (gBuildFilename dir (desktopname appid)) := by
  rw [System.overlayDirs, List.any_cons, List.any_cons, List.any_nil, Bool.or_false]
  rfl

/-- `path` is that of an entry `name` of the directory `dir`. -/
structure DirectChild (dir name path : Text) : Prop where
  component : IsComponent name
  path_eq : ∃ p, dropTrailingSeparators p = dropTrailingSeparators dir ∧
    (p = [] ∨ ∃ q, p = q ++ ['/']) ∧ path = p ++ name

/-- The path `g_build_filename` makes of a name lies directly in the directory. -/
theorem directChild_gBuildFilename (dir : Text) {name : Text} (h : IsComponent name) :
    DirectChild dir name (gBuildFilename dir name) := by
  obtain ⟨p, hp, hdrop, hjoin⟩ := exists_gBuildFilename_eq_append dir
  exact ⟨h, p, hdrop, hp, hjoin name h⟩

/-- The AppID is a name, and the paths tested for it are those of its name in the directories. -/
structure UsableAppid (w : System) (appid : Text) : Prop where
  component : IsComponent appid
  child : ∀ dir ∈ w.overlayDirs,
    DirectChild dir (desktopname appid) (gBuildFilename dir (desktopname appid))

theorem usableAppid_iff {w : System} {appid : Text} : UsableAppid w appid ↔ IsComponent appid := by
  refine ⟨UsableAppid.component, fun h => ⟨h, fun dir _ => directChild_gBuildFilename dir ?_⟩⟩
  refine ⟨List.append_ne_nil_of_left_ne_nil h.1 _, fun hmem => ?_⟩
  rcases List.mem_append.1 hmem with hmem | hmem
  · exact h.2 hmem
  · revert hmem
    decide

/-! ### The AppIDs of handler files -/

theorem HandlerFile.separator_not_mem {n : Text} (h : HandlerFile n) :
    '/' ∉ gPathGetBasename n := by
  obtain ⟨dir, name, hc, -, rfl⟩ := h
  rw [gPathGetBasename_build hc]
  exact hc.2

/-- The AppID of a handler file is a name, unless there is nothing before the suffix of the file. -/
theorem isComponent_fileAppid_iff {n : Text} (h : HandlerFile n) :
    IsComponent (fileAppid n) ↔ gPathGetBasename n ≠ urlDispatcherSuffix := by
  have hbase := h.basename_eq
  have hsep : '/' ∉ fileAppid n := by
    intro hmem
    refine h.separator_not_mem ?_
    rw [hbase]
    exact List.mem_append_left _ hmem
  rw [IsComponent, and_iff_left hsep, hbase, ne_eq, ne_eq, List.append_left_eq_self]

/-! ### The AppIDs of URLs -/

/-- Every AppID the URL may resolve to can be used as a name. -/
def ResolvesUsable (w : System) (url : Text) : Prop :=
  ∀ plan st r, System.urlToAppid { w with plan := plan, status := st } url = some r →
    UsableAppid w r.appid

/-- The URL is not `application:///.desktop`, and if it is looked up in the database, no file that
has registered one of the longest matching suffixes is called `.url-dispatcher`. -/
structure HasName (db : Database) (url : Text) : Prop where
  application : ¬ EmptyApplication url
  file : ∀ protocol domain, IsLookedUp url protocol domain →
    ∀ r, Longest (db.matching protocol (domain.getD [])) r →
      gPathGetBasename r.1.val.name ≠ urlDispatcherSuffix

/-- What is captured from an `application:///` URL has no separator in it. -/
theorem isComponent_application_iff {url : Text} {m : State}
    (h : matchStart applicationre url = some m) :
    IsComponent (gMatchInfoFetch m 1) ↔ gMatchInfoFetch m 1 ≠ [] := by
  obtain ⟨a, -, -, ha, -, hgroup⟩ := wrapped_match (applicationre_eq ▸ h)
  have hfetch : gMatchInfoFetch m 1 = a := by rw [gMatchInfoFetch, hgroup, Option.getD_some]
  have hsep : '/' ∉ a := by
    intro hmem
    have hclass := ha _ hmem
    revert hclass
    decide
  rw [IsComponent, hfetch, and_iff_left hsep]

/-- **AppIDs are names.**  On a database that any runs of the tool have built, every AppID a URL
resolves to is a name, and the overlay paths tested for it lie directly in the two directories,
exactly if the URL is not `application:///.desktop` and no file called `.url-dispatcher` is among
the best matches. -/
theorem resolvesUsable_iff (w : System) (es : List FleetEvent) (fleet : Fleet)
    (hrun : Run Fleet.step (fun _ _ => True) .init es fleet) (hdb : w.urldb = fleet.db)
    (htriplet : ∀ package app version appid,
      w.tripletToAppId package app version = some appid → IsComponent appid) (url : Text) :
    ResolvesUsable w url ↔ HasName w.urldb url := by
  have hnamed : NamesHandlers w.urldb := hdb ▸ handlerFile_of_run hrun
  have hhandler : ∀ {protocol domain} {r : JoinedRow}, r ∈ w.urldb.matching protocol domain →
      HandlerFile r.1.val.name := fun hr =>
    hnamed _ (Database.registry_isSome.2 ⟨_, (mem_matching.1 hr).1, rfl⟩)
  constructor
  · intro h
    refine ⟨fun hempty => ?_, fun protocol domain hl r hr => ?_⟩
    · obtain ⟨m, hm, hnil⟩ := captures_nothing_iff.2 hempty
      have husable := h w.plan w.status _ (dispatcherUrlToAppid_eq_some.2 (.application m hm))
      exact husable.component.1 hnil
    · -- under some plan that row is the one found
      have husable := h (.preferring r) .done _ (dispatcherUrlToAppid_eq_some.2
        (.file protocol domain _ hl (urlDbFindUrl_preferring hr)))
      exact (isComponent_fileAppid_iff (hhandler hr.1)).1 husable.component
  · intro h plan st r hr
    rw [usableAppid_iff]
    cases dispatcherUrlToAppid_eq_some.1 hr with
    | parts m appid _ ht => exact htriplet _ _ _ _ ht
    | application m hm =>
      rw [isComponent_application_iff hm]
      exact fun hnil => h.application (captures_nothing_iff.1 ⟨m, hm, hnil⟩)
    | file protocol domain appid hl hf =>
      cases st with
      | error => cases hf
      | done =>
        obtain ⟨row, hrow, rfl⟩ := Option.map_eq_some_iff.1 hf
        have hlongest := longest_of_head? hrow
        exact (isComponent_fileAppid_iff (hhandler hlongest.1)).2
          (h.file protocol domain hl row hlongest)

/-- After a run that has registered `a.com` for `/d/a.url-dispatcher`. -/
theorem resolvesUsable_listed : ∃ es fleet, Run Fleet.step (fun _ _ => True) .init es fleet ∧
    ResolvesUsable (plainSystem fleet.db []) "http://a.com".toList := by
  have h := run_of_quietRun (w := .init (pairDir (some (comFile 1)) none)) listed
    (Option.some_get (by decide)).symm
  obtain ⟨es, hrun⟩ := Fleet.run_of_solo h
  rw [Solo.toFleet_init] at hrun
  refine ⟨es, _, hrun, (resolvesUsable_iff (plainSystem _ []) es _ hrun rfl
    (by rintro _ _ _ _ ⟨⟩) _).2 ⟨?_, fun _ _ _ r hr => ?_⟩⟩
  · rintro ⟨newline, -, he⟩
    exact absurd (show some 'h' = some 'a' from congrArg List.head? he) (by decide)
  · obtain hc := List.mem_singleton.1 (mem_matching.1 hr.1).1
    rw [hc]
    decide

/-- `application:///.desktop` resolves to the empty AppID. -/
theorem not_resolvesUsable_desktop : ¬ ∀ (w : System) (es : List FleetEvent) (fleet : Fleet),
    Run Fleet.step (fun _ _ => True) .init es fleet → w.urldb = fleet.db →
      (∀ package app version appid,
        w.tripletToAppId package app version = some appid → IsComponent appid) →
      ∀ url, ResolvesUsable w url := by
  intro hall
  have h := hall (plainSystem Database.empty []) [] .init (.nil _) rfl (by rintro _ _ _ _ ⟨⟩)
    "application:///.desktop".toList .stable .done ⟨[], none⟩ (by rfl)
  exact h.component.1 rfl

/-- So does a URL for which a file called `.url-dispatcher` has been registered. -/
example : urlDbFindUrl .stable .done
    (entryDatabase "/d/.url-dispatcher".toList "http".toList "foo.com".toList) "http".toList
    (some "foo.com".toList) = some [] := by decide

end UrlDispatcher
