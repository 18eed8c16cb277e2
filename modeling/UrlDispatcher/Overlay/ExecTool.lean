import UrlDispatcher.Dispatch.AppId
import UrlDispatcher.Dispatch.Session
import UrlDispatcher.Report.Problem

/-!
# The helper of an overlay

The tracker starts a helper with an AppID, and the helper asks `exec-tool` what to execute: the
`Exec` of the desktop file of that AppID.  The tool looks for the file itself.  The service, which
has found one in order to take the AppID for an overlay, looks in the directory of
`URL_DISPATCHER_OVERLAY_DIR` *instead* of that of the system; the tool looks there *before* it.

* `ExecTool.main_spec` : what the tool returns, sends and reports, by the first directory that has
  an answer.
* `ExecTool.readsTested_iff` : when it reads the file that the service has found.
* `ExecTool.sends_of_run` : every helper that a session starts gets an `Exec`, as long as the
  desktop files stay and have one.
-/

namespace UrlDispatcher

open GLib Machine

/-! ### The tool -/

/-- A desktop file, as `GKeyFile` reads it. -/
inductive KeyFile
  /-- It cannot be read, for the reason given. -/
  | unreadable (message : Text)
  /-- It has no key `Exec` in its group `Desktop Entry`. -/
  | withoutExec
  /-- `g_key_file_get_string` of the key, `none` if the value is not valid. -/
  | withExec (exec : Option Text)

/-- What the tool is started with, and what it finds. -/
structure ExecTool where
  /-- The environment variable `APP_ID`. -/
  appId : Option Text
  /-- The environment variable `URL_DISPATCHER_OVERLAY_DIR`. -/
  overlayDir : Option Text
  overlaySystemDirectory : Text
  userCacheDir : Text
  /-- The file at a path, `none` if `g_file_test` says that there is none. -/
  keyFile : Text → Option KeyFile
  /-- `ubuntu_app_launch_app_id_parse`: the package, `none` if the AppID does not parse. -/
  appIdParse : Text → Option Text
  /-- `click_user_get_path` for the current user, `none` if it or an earlier step fails. -/
  clickUserGetPath : Text → Option Text
  reporter : Reporter
  /-- There is a session bus. -/
  sessionBus : Bool
  /-- `ubuntu_app_launch_helper_set_exec`: whether it succeeds. -/
  helperSetExec : Text → Option Text → Bool

/-- How the tool ends. -/
inductive ExecToolEnd
  /-- By `g_error`. -/
  | aborted (message : Text)
  /-- By a return of `main`: its value, the problem reported, and the `Exec` and directory sent. -/
  | returned (value : ℤ) (report : Option Report) (sent : Option (Text × Option Text))

namespace ExecTool

variable (x : ExecTool)

/-- `build_exec`.  The error is the message of `g_error`. -/
def buildExec (appid directory : Text) : Except Text (Option Text) :=
  let desktopfilepath := gBuildFilename directory (desktopname appid)
  match x.keyFile desktopfilepath with
  | none => .ok none
  | some (.unreadable message) =>
    .error ("Unable to read url-overlay desktop file '".toList ++ desktopfilepath ++ "': ".toList ++
      message)
  | some .withoutExec =>
    .error ("Desktop file for '".toList ++ appid ++ "' in '".toList ++ directory ++
      "' does not have 'Exec' key".toList)
  | some (.withExec exec) => .ok exec

/-- `build_dir` -/
def buildDir (appid : Text) : Option Text :=
  match x.appIdParse appid with
  | none => none
  | some package => x.clickUserGetPath package

/-- The user directory. -/
def userdir : Text :=
  gBuildFilename (gBuildFilename x.userCacheDir "url-dispatcher".toList) "url-overlays".toList

/-- `if (exec == NULL) exec = build_exec(appid, directory)` -/
def tryNext (appid : Text) (exec : Option Text) (directory : Text) : Except Text (Option Text) :=
  match exec with
  | none => x.buildExec appid directory
  | some exec => .ok (some exec)

/-- The part of `main` that looks for the `Exec`. -/
def findExec (appid : Text) : Except Text (Option Text) := do
  let exec ← match x.overlayDir with
    | some envdir => x.buildExec appid envdir
    | none => .ok none
  let exec ← x.tryNext appid exec x.overlaySystemDirectory
  x.tryNext appid exec x.userdir

/-- The part of `main` that sends the `Exec`. -/
def sendExec (appid exec : Text) : ExecToolEnd :=
  let dir := x.buildDir appid
  if x.sessionBus = false then .returned (-1) none none
  else .returned (if x.helperSetExec exec dir then 0 else -1) none (some (exec, dir))

/-- `main` -/
def main : ExecToolEnd :=
  match x.appId with
  | none => .returned (-1) (reportRecoverableProblem x.reporter
      (some "url-dispatcher-url-overlay-no-appid".toList) 0 true none) none
  | some appid =>
    match x.findExec appid with
    | .error message => .aborted message
    | .ok none => .returned (-1) (reportRecoverableProblem x.reporter
        (some "url-dispatcher-url-overlay-bad-appid".toList) 0 true
        (some [some "AppID".toList, some appid, none])) none
    | .ok (some exec) => x.sendExec appid exec

/-! ### The search -/

/-- The directories in which the tool looks, in that order. -/
def searchDirs : List Text := x.overlayDir.toList ++ [x.overlaySystemDirectory, x.userdir]

/-- The desktop file of the AppID in the directory. -/
def desktopFile (appid dir : Text) : Option KeyFile :=
  x.keyFile (gBuildFilename dir (desktopname appid))

/-- The directory has no answer: no file, or one whose `Exec` is not valid. -/
def Lacks (appid dir : Text) : Prop :=
  x.desktopFile appid dir = none ∨ x.desktopFile appid dir = some (.withExec none)

/-- The directory has no answer, and the tool does not go on. -/
def Broken (appid dir : Text) : Prop :=
  x.desktopFile appid dir = some .withoutExec ∨
    ∃ message, x.desktopFile appid dir = some (.unreadable message)

variable {x} {appid : Text}

theorem findExec_eq : x.findExec appid = x.searchDirs.foldlM (x.tryNext appid) none := by
  unfold findExec searchDirs
  cases x.overlayDir with
  | none =>
    have hok : ∀ f : Option Text → Except Text (Option Text), Except.ok none >>= f = f none :=
      fun _ => rfl
    simp [tryNext, hok]
  | some envdir => simp [tryNext]

theorem buildExec_eq_none_iff {dir : Text} :
    x.buildExec appid dir = .ok none ↔ x.Lacks appid dir := by
  simp only [buildExec, Lacks, desktopFile]
  rcases x.keyFile (gBuildFilename dir (desktopname appid)) with _ | ⟨message | _ | exec⟩ <;> simp

theorem buildExec_eq_some_iff {dir exec : Text} : x.buildExec appid dir = .ok (some exec) ↔
    x.desktopFile appid dir = some (.withExec (some exec)) := by
  simp only [buildExec, desktopFile]
  rcases x.keyFile (gBuildFilename dir (desktopname appid)) with _ | ⟨message | _ | exec⟩ <;> simp

theorem broken_of_error {dir message : Text} (h : x.buildExec appid dir = .error message) :
    x.Broken appid dir := by
  simp only [buildExec] at h
  simp only [Broken, desktopFile]
  rcases hk : x.keyFile (gBuildFilename dir (desktopname appid)) with _ | ⟨message' | _ | exec⟩ <;>
    simp [hk] at h ⊢

theorem foldlM_tryNext_some (exec : Text) (dirs : List Text) :
    dirs.foldlM (x.tryNext appid) (some exec) = .ok (some exec) := by
  induction dirs with
  | nil => rfl
  | cons dir dirs ih => rw [List.foldlM_cons]; exact ih

/-- What the search comes to: the directories before the one that decides have no answer. -/
inductive Search (x : ExecTool) (appid : Text) (dirs : List Text) :
    Except Text (Option Text) → Prop
  | none (h : ∀ dir ∈ dirs, x.Lacks appid dir) : Search x appid dirs (.ok none)
  | found {before after : List Text} {dir exec : Text} (he : dirs = before ++ dir :: after)
      (hbefore : ∀ d ∈ before, x.Lacks appid d)
      (h : x.desktopFile appid dir = some (.withExec (some exec))) :
      Search x appid dirs (.ok (some exec))
  | broken {before after : List Text} {dir message : Text} (he : dirs = before ++ dir :: after)
      (hbefore : ∀ d ∈ before, x.Lacks appid d) (h : x.Broken appid dir) :
      Search x appid dirs (.error message)

theorem search_foldlM (dirs : List Text) :
    Search x appid dirs (dirs.foldlM (x.tryNext appid) none) := by
  induction dirs with
  | nil => exact .none fun _ h => absurd h List.not_mem_nil
  | cons dir dirs ih =>
    rw [List.foldlM_cons, tryNext]
    cases hb : x.buildExec appid dir with
    | error message =>
      exact .broken (List.nil_append _).symm (fun _ h => absurd h List.not_mem_nil)
        (broken_of_error hb)
    | ok exec =>
      cases exec with
      | some exec =>
        change Search x appid (dir :: dirs) (dirs.foldlM (x.tryNext appid) (some exec))
        rw [foldlM_tryNext_some]
        exact .found (List.nil_append _).symm (fun _ h => absurd h List.not_mem_nil)
          (buildExec_eq_some_iff.1 hb)
      | none =>
        -- the directory has no answer, and the next ones decide
        have hlacks := buildExec_eq_none_iff.1 hb
        have hcons : ∀ {before : List Text}, (∀ d ∈ before, x.Lacks appid d) →
            ∀ d ∈ dir :: before, x.Lacks appid d := fun h =>
          List.forall_mem_cons.2 ⟨hlacks, h⟩
        change Search x appid (dir :: dirs) (dirs.foldlM (x.tryNext appid) none)
        generalize dirs.foldlM (x.tryNext appid) none = r at ih
        cases ih with
        | none h => exact .none (hcons h)
        | found he hbefore h =>
          exact @Search.found x appid _ (dir :: _) _ _ _ (congrArg (dir :: ·) he) (hcons hbefore) h
        | broken he hbefore h =>
          exact @Search.broken x appid _ (dir :: _) _ _ _ (congrArg (dir :: ·) he) (hcons hbefore) h

theorem search_findExec : Search x appid x.searchDirs (x.findExec appid) :=
  findExec_eq ▸ search_foldlM x.searchDirs

/-- The directory is the first one with an answer, and the answer is `exec`. -/
def Finds (x : ExecTool) (appid exec : Text) : Prop :=
  ∃ before dir after, x.searchDirs = before ++ dir :: after ∧ (∀ d ∈ before, x.Lacks appid d) ∧
    x.desktopFile appid dir = some (.withExec (some exec))

theorem findExec_eq_some_iff {exec : Text} :
    x.findExec appid = .ok (some exec) ↔ x.Finds appid exec := by
  constructor
  · intro h
    have hsearch := h ▸ @search_findExec x appid
    cases hsearch with
    | found he hbefore hk => exact ⟨_, _, _, he, hbefore, hk⟩
  · rintro ⟨before, dir, after, he, hbefore, hk⟩
    have hfold : ∀ {ds : List Text}, (∀ d ∈ ds, x.Lacks appid d) →
        (ds ++ dir :: after).foldlM (x.tryNext appid) none = .ok (some exec) := by
      intro ds hds
      induction ds with
      | nil =>
        rw [List.nil_append, List.foldlM_cons, tryNext, buildExec_eq_some_iff.2 hk]
        exact foldlM_tryNext_some exec after
      | cons d ds ih =>
        rw [List.forall_mem_cons] at hds
        rw [List.cons_append, List.foldlM_cons, tryNext, buildExec_eq_none_iff.2 hds.1]
        exact ih hds.2
    rw [findExec_eq, he, hfold hbefore]

/-- What the reporter reads is what has been written. -/
theorem stdin_of_reportRecoverableProblem {env : Reporter} {signature : Option Text} {pid : ℤ}
    {wait : Bool} {additional : Option (List (Option Text))} {r : Report} {bytes : Text}
    (h : reportRecoverableProblem env signature pid wait additional = some r)
    (hb : r.stdin = some bytes) : bytes = writeReport signature additional := by
  rw [reportRecoverableProblem, Option.ite_none_left_eq_some] at h
  obtain ⟨-, h⟩ := h
  cases h
  rw [Option.ite_none_right_eq_some] at hb
  exact (Option.some.inj hb.2).symm

/-- **How the tool ends.**  It returns 0 exactly if there is an AppID, the first directory with an
answer has an `Exec` for it, and that can be sent.  With a problem reported it returns -1 and sends
nothing; the reporter reads that there is no AppID, or the AppID for which no directory has an
answer. -/
theorem main_spec (x : ExecTool) :
    ((∃ report sent, x.main = .returned 0 report sent) ↔ ∃ appid exec, x.appId = some appid ∧
      x.Finds appid exec ∧ x.sessionBus = true ∧
        x.helperSetExec exec (x.buildDir appid) = true) ∧
    ∀ value r sent bytes, x.main = .returned value (some r) sent → r.stdin = some bytes →
      (∀ appid, x.appId = some appid → IsCString appid) → value = -1 ∧ sent = none ∧
      ((x.appId = none ∧ bytes.splitOn nul =
          ["DuplicateSignature".toList, "url-dispatcher-url-overlay-no-appid".toList]) ∨
        ∃ appid, x.appId = some appid ∧ (∀ dir ∈ x.searchDirs, x.Lacks appid dir) ∧
          bytes.splitOn nul = ["DuplicateSignature".toList,
            "url-dispatcher-url-overlay-bad-appid".toList, "AppID".toList, appid]) := by
  cases happ : x.appId with
  | none =>
    rw [main, happ]
    refine ⟨by simp, fun value r sent bytes h hb _ => ?_⟩
    simp only [ExecToolEnd.returned.injEq] at h
    obtain ⟨rfl, hr, rfl⟩ := h
    refine ⟨rfl, rfl, .inl ⟨rfl, ?_⟩⟩
    rw [stdin_of_reportRecoverableProblem hr hb]
    exact @splitOn_report "url-dispatcher-url-overlay-no-appid".toList [] (by decide)
      fun _ h => absurd h List.not_mem_nil
  | some appid =>
    have hfinds := fun exec => @findExec_eq_some_iff x appid exec
    have hsearch := @search_findExec x appid
    rw [main, happ]
    simp only [Option.some.injEq, exists_and_left, exists_eq_left']
    generalize x.findExec appid = found at hfinds hsearch
    cases hsearch with
    | none hlacks =>
      refine ⟨by simp [← hfinds], fun value r sent bytes h hb hc => ?_⟩
      simp only [ExecToolEnd.returned.injEq] at h
      obtain ⟨rfl, hr, rfl⟩ := h
      refine ⟨rfl, rfl, .inr ⟨hlacks, ?_⟩⟩
      rw [stdin_of_reportRecoverableProblem hr hb]
      refine splitOn_report (by decide) ?_
      simp only [untilNull, List.forall_mem_cons]
      exact ⟨by decide, hc appid rfl, fun _ h => absurd h List.not_mem_nil⟩
    | @found _ _ _ exec _ _ _ =>
      simp only [sendExec, ← hfinds, Except.ok.injEq, Option.some.injEq, exists_eq_left']
      cases x.sessionBus <;> cases x.helperSetExec exec (x.buildDir appid) <;> simp
    | broken _ _ _ => exact ⟨by simp [← hfinds], fun _ _ _ _ h => by cases h⟩

/-- The tool, started for the overlay `foo`. -/
def fooTool : ExecTool where
  appId := some "foo".toList
  overlayDir := none
  overlaySystemDirectory := "/usr/share/url-dispatcher/url-overlays".toList
  userCacheDir := "/home/user/.cache".toList
  keyFile path :=
    if ["/usr/share/url-dispatcher/url-overlays/foo.desktop".toList].contains path then
      some (.withExec (some "foo".toList))
    else none
  appIdParse _ := none
  clickUserGetPath _ := none
  reporter := ⟨false, true⟩
  sessionBus := true
  helperSetExec _ _ := true

/-- The desktop file of `foo` has been removed before the tool looks for it. -/
def goneTool : ExecTool := { fooTool with keyFile := fun _ => none }

/-- The reporter reads that there is no such overlay. -/
theorem main_spec_goneTool : ∃ r bytes, goneTool.main = .returned (-1) (some r) none ∧
    r.stdin = some bytes ∧ bytes.splitOn nul = ["DuplicateSignature".toList,
      "url-dispatcher-url-overlay-bad-appid".toList, "AppID".toList, "foo".toList] := by
  obtain ⟨r, bytes, hmain, hstdin⟩ : ∃ r bytes,
      goneTool.main = .returned (-1) (some r) none ∧ r.stdin = some bytes :=
    ⟨_, _, rfl, rfl⟩
  obtain ⟨-, -, ⟨hnone, -⟩ | ⟨appid, happ, -, hbytes⟩⟩ :=
    (main_spec goneTool).2 _ r _ bytes hmain hstdin fun appid happ => by
      cases happ
      decide
  · cases hnone
  · cases happ
    exact ⟨r, bytes, hmain, hstdin, hbytes⟩

/-! ### The tool and the service -/

/-- The tool runs in the environment of the service, and finds the files it finds. -/
structure Shares (x : ExecTool) (w : System) : Prop where
  overlayDir : x.overlayDir = w.overlayDir
  overlaySystemDirectory : x.overlaySystemDirectory = w.overlaySystemDirectory
  userCacheDir : x.userCacheDir = w.userCacheDir
  fileExists : ∀ path, w.fileExists path = (x.keyFile path).isSome

variable {w : System}

theorem Shares.overlayDirs (h : x.Shares w) :
    w.overlayDirs = [x.overlayDir.getD x.overlaySystemDirectory, x.userdir] := by
  rw [System.overlayDirs, ← h.overlayDir, ← h.overlaySystemDirectory, ← h.userCacheDir]
  rfl

/-- Wherever the service looks, the tool looks as well, and in the system directory besides. -/
theorem Shares.mem_searchDirs_iff (h : x.Shares w) {dir : Text} :
    dir ∈ x.searchDirs ↔ dir ∈ w.overlayDirs ∨ dir = w.overlaySystemDirectory := by
  rw [h.overlayDirs, ← h.overlaySystemDirectory, searchDirs]
  cases x.overlayDir with
  | none => simp; tauto
  | some envdir => simp; tauto

/-- The AppID is one of an overlay exactly if the tool would find a file where the service looks. -/
theorem Shares.dispatcherIsOverlay_iff (h : x.Shares w) : dispatcherIsOverlay w appid = true ↔
    ∃ dir ∈ w.overlayDirs, (x.desktopFile appid dir).isSome = true := by
  rw [dispatcherIsOverlay_eq, List.any_eq_true]
  simp only [h.fileExists, desktopFile]

/-- **The file that has been tested.**  The first directory in which the tool finds a file is the
one in which the service finds it first, except if `URL_DISPATCHER_OVERLAY_DIR` is set, has no such
file, and the directory of the system has one. -/
theorem readsTested_iff (h : x.Shares w) (appid : Text) :
    x.searchDirs.find? (fun dir => (x.desktopFile appid dir).isSome) =
      w.overlayDirs.find? (fun dir => w.fileExists (gBuildFilename dir (desktopname appid))) ↔
    ¬ ∃ envdir, w.overlayDir = some envdir ∧
      w.fileExists (gBuildFilename envdir (desktopname appid)) = false ∧
      w.fileExists (gBuildFilename w.overlaySystemDirectory (desktopname appid)) = true ∧
      w.overlaySystemDirectory ≠ x.userdir := by
  have hfile : ∀ dir, (x.desktopFile appid dir).isSome =
      w.fileExists (gBuildFilename dir (desktopname appid)) := fun dir => (h.fileExists _).symm
  simp only [hfile, h.overlayDirs, ← h.overlayDir, ← h.overlaySystemDirectory, searchDirs]
  cases x.overlayDir with
  | none => simp
  | some envdir =>
    simp only [Option.toList_some, List.singleton_append, Option.getD_some, List.find?_cons,
      List.find?_nil, Option.some.injEq, exists_eq_left']
    cases w.fileExists (gBuildFilename envdir (desktopname appid)) with
    | true => simp
    | false =>
      cases hsys : w.fileExists (gBuildFilename x.overlaySystemDirectory (desktopname appid)) with
      | false => simp
      | true =>
        -- the tool stops at the system directory, and the service goes on to that of the user
        by_cases he : x.overlaySystemDirectory = x.userdir
        · simp [← he, hsys]
        · cases w.fileExists (gBuildFilename x.userdir (desktopname appid)) <;> simp [he]

theorem keyFile_fooTool (path : Text) :
    fooTool.keyFile path = if Exchange.overlaySystem.fileExists path = true then
      some (.withExec (some "foo".toList)) else none := rfl

theorem shares_fooTool : fooTool.Shares Exchange.overlaySystem where
  overlayDir := rfl
  overlaySystemDirectory := rfl
  userCacheDir := rfl
  fileExists path := by
    rw [keyFile_fooTool]
    cases Exchange.overlaySystem.fileExists path <;> rfl

/-- The tool reads the file that the service has tested. -/
theorem readsTested_iff_fooTool :
    fooTool.searchDirs.find? (fun dir => (fooTool.desktopFile "foo".toList dir).isSome) =
      Exchange.overlaySystem.overlayDirs.find? fun dir =>
        Exchange.overlaySystem.fileExists (gBuildFilename dir (desktopname "foo".toList)) :=
  (readsTested_iff shares_fooTool "foo".toList).2 fun ⟨_, h, _⟩ => by cases h

/-- For the AppID of an overlay the tool finds an `Exec`, if no desktop file of the AppID in a
directory in which it looks is without a valid one. -/
theorem Shares.main_eq (h : x.Shares w) (happ : x.appId = some appid)
    (hov : dispatcherIsOverlay w appid = true)
    (hexec : ∀ dir ∈ x.searchDirs, ∀ k, x.desktopFile appid dir = some k →
      ∃ exec, k = .withExec (some exec)) :
    ∃ dir exec, (dir ∈ w.overlayDirs ∨ dir = w.overlaySystemDirectory) ∧
      x.desktopFile appid dir = some (.withExec (some exec)) ∧ x.main = x.sendExec appid exec := by
  have hsearch := @search_findExec x appid
  rw [main, happ]
  simp only
  generalize x.findExec appid = r at hsearch
  cases hsearch with
  | none hlacks =>
    obtain ⟨dir, hdir, hsome⟩ := h.dispatcherIsOverlay_iff.1 hov
    obtain ⟨k, hk⟩ := Option.isSome_iff_exists.1 hsome
    have hmem : dir ∈ x.searchDirs := h.mem_searchDirs_iff.2 (.inl hdir)
    obtain ⟨exec, rfl⟩ := hexec dir hmem k hk
    have hlack := hlacks dir hmem
    simp [Lacks, hk] at hlack
  | @found before after dir exec he _ hk =>
    exact ⟨dir, exec, h.mem_searchDirs_iff.1 (he ▸ by simp), hk, rfl⟩
  | @broken before after dir message he _ hbroken =>
    have hmem : dir ∈ x.searchDirs := he ▸ by simp
    rcases hbroken with hk | ⟨m, hk⟩
    all_goals
      obtain ⟨exec, he⟩ := hexec dir hmem _ hk
      cases he

/-- **From the message to the `Exec`.**  In every session, whatever Mir and ubuntu-app-launch report
to the tracker, each helper that has been started is that of a message; and `exec-tool`, started for
its AppID where and when the message was handled, sends the `Exec` of a desktop file of that AppID,
from a directory for overlays, if no such file where it looks is without a valid one. -/
theorem sends_of_run {κ : Type*} [DecidableEq κ] {calls : κ → SendCall}
    {es : List (ExchangeEvent κ)} {s : Exchange κ}
    (h : Run (Exchange.step calls) Exchange.FreshAnswer (Exchange.init (some .init)) es s) :
    ∃ t, s.tracker = some t ∧ ∀ start ∈ t.started, ∃ m ∈ s.handled,
      AsksOverlay m.2.1 m.2.2 (calls m.1).url (calls m.1).packageArg start.appid
        start.session.pid start.url ∧
      ∀ x : ExecTool, x.appId = some start.appid → x.Shares m.2.1 →
        (∀ dir ∈ x.searchDirs, ∀ k, x.desktopFile start.appid dir = some k →
          ∃ exec, k = .withExec (some exec)) →
        ∃ dir exec, (dir ∈ m.2.1.overlayDirs ∨ dir = m.2.1.overlaySystemDirectory) ∧
          x.desktopFile start.appid dir = some (.withExec (some exec)) ∧
          x.main = x.sendExec start.appid exec := by
  obtain ⟨t, ht⟩ := Exchange.shows_of_run h
  refine ⟨t, ht.tracker, fun start hstart => ?_⟩
  obtain ⟨m, hmem, -, hasks⟩ := ht.asksOverlay hstart
  exact ⟨m, hmem, hasks, fun x happ hshares hexec => hshares.main_eq happ hasks.overlay hexec⟩

/-- The overlay `foo` is shown, and what it executes is sent. -/
theorem sends_of_run_overlayShown : ∃ s : Exchange Bool,
    run (Exchange.step Exchange.twoCalls) (Exchange.init (some .init)) Exchange.overlayShown =
      some s ∧
    ∃ t, s.tracker = some t ∧ t.started.map HelperStart.appid = ["foo".toList] ∧
      ∀ start ∈ t.started, ∃ exec, fooTool.main = fooTool.sendExec start.appid exec := by
  obtain ⟨s, hrun⟩ := Exchange.exists_run_overlayShown
  obtain ⟨t, ht, hstarted⟩ := sends_of_run hrun
  have happids : t.started.map HelperStart.appid = ["foo".toList] := by
    have h : (run (Exchange.step Exchange.twoCalls) (Exchange.init (some .init))
        Exchange.overlayShown).map (fun s => s.tracker.map fun t =>
          t.started.map HelperStart.appid) = some (some ["foo".toList]) := by decide
    rw [hrun.run_eq, Option.map_some, ht] at h
    exact Option.some.inj (Option.some.inj h)
  have hworlds : s.handled.map (fun m => m.2.1) = [Exchange.overlaySystem] := by
    have h : (run (Exchange.step Exchange.twoCalls) (Exchange.init (some .init))
        Exchange.overlayShown).map (fun s => s.handled.map fun m => m.2.1) =
          some [Exchange.overlaySystem] := rfl
    rw [hrun.run_eq, Option.map_some] at h
    exact Option.some.inj h
  refine ⟨s, hrun.run_eq, t, ht, happids, fun start hstart => ?_⟩
  obtain ⟨m, hm, -, hsends⟩ := hstarted start hstart
  have happ : start.appid = "foo".toList :=
    List.mem_singleton.1 (happids ▸ List.mem_map_of_mem hstart)
  have hworld : m.2.1 = Exchange.overlaySystem :=
    List.mem_singleton.1 (hworlds ▸ List.mem_map_of_mem hm)
  obtain ⟨dir, exec, -, -, hmain⟩ := hsends fooTool (happ ▸ rfl) (hworld ▸ shares_fooTool)
    fun dir _ k hk => by
      rw [desktopFile, keyFile_fooTool, Option.ite_none_right_eq_some] at hk
      exact ⟨_, (Option.some.inj hk.2).symm⟩
  exact ⟨exec, hmain⟩

end ExecTool

end UrlDispatcher
