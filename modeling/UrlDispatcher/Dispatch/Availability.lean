import UrlDispatcher.Dispatch.Routing
import UrlDispatcher.Update.Fleet

/-!
# Updates do not interrupt

The service looks URLs up while runs of `update-directory` are on their way, several at once, some
of them killed, some with statements that fail.  A file that is up to date and stays as it is keeps
its registration at every moment (`Spared.step`): no run stamps it, and none removes it, because
each run that has listed it comes across it in its directory.

* `Spares` : what a step has to meet for that.  The run must not list the file for another
  directory, its directory must be there with the file in it, and the stored time must be readable.
* `answered_of_run` : at every moment a URL that the file handles is answered, with the AppID of the
  file unless another file offers a suffix that is as long.
-/

namespace UrlDispatcher

open Sql GLib Machine

variable {n : Text} {t : ℤ}

/-! ### A file that stays -/

/-- The file is one of the directory, and is there. -/
def FoundIn (fs : FileSys) (dirname n : Text) : Prop :=
  ∀ name, IsComponent name → n = gBuildFilename dirname name → name ∈ fs.entries dirname

/-- What a step of a run has to meet so that the file, modified at `t`, keeps its registration. -/
def Pc.Spares (n : Text) (t : ℤ) (fs : FileSys) (c : Choice) : Pc → Prop
  | .listing dirname => like (dirname ++ ['%']) n = true → HandlerFileIn dirname n
  | .opening dirname _ => HandlerFileIn dirname n → fs.isDir dirname = true ∧ FoundIn fs dirname n
  | .scanning s => FoundIn fs s.dirname n
  | .checking _ m => m = n → fs.filetime n ≤ t ∧ c.succeeds = true
  | _ => True

/-- Every step of a run meets it. -/
def Spares (n : Text) (t : ℤ) (w : Fleet) : FleetEvent → Prop
  | .exec i fs c => (w.procs i).Spares n t fs c
  | _ => True

/-- If the file has been listed, it has not been returned yet. -/
def Scan.Awaits (s : Scan) (n : Text) : Prop :=
  n ∈ s.startingdb → ∃ name ∈ s.unread, IsComponent name ∧
    gStrHasSuffix name urlDispatcherSuffix = true ∧ n = gBuildFilename s.dirname name

/-- The run will neither register the file again nor remove it. -/
def Pc.Harmless (n : Text) : Pc → Prop
  | .opening dirname startingdb => n ∈ startingdb → HandlerFileIn dirname n
  | .scanning s => s.Awaits n
  | .checking s m => (s.found m).Awaits n
  | .stamping s m _ => m ≠ n ∧ (s.found m).Awaits n
  | .reading s m => m ≠ n ∧ (s.found m).Awaits n
  | .inserting s m _ _ => m ≠ n ∧ (s.found m).Awaits n
  | .removing names => n ∉ names
  | _ => True

theorem mem_found_startingdb {s : Scan} {m k : Text} :
    k ∈ (s.found m).startingdb ↔ k ∈ s.startingdb ∧ k ≠ m := by
  simp [Scan.found]

theorem mem_read_unread {s : Scan} {m k : Text} :
    k ∈ (s.read m).unread ↔ k ∈ s.unread ∧ k ≠ m := by
  simp [Scan.read]

/-- An entry that is not the file has been returned. -/
theorem Scan.Awaits.read {s : Scan} {name : Text} (h : s.Awaits n)
    (hne : gStrHasSuffix name urlDispatcherSuffix = true → n ≠ gBuildFilename s.dirname name) :
    (s.read name).Awaits n := by
  intro hn
  obtain ⟨m, hm, hc, hs, rfl⟩ := h hn
  refine ⟨m, mem_read_unread.2 ⟨hm, ?_⟩, hc, hs, rfl⟩
  rintro rfl
  exact hne hs rfl

/-- The entry of a file has been returned. -/
theorem Scan.Awaits.found {s : Scan} {name : Text} (h : s.Awaits n) :
    ((s.read name).found (gBuildFilename s.dirname name)).Awaits n := by
  intro hn
  obtain ⟨hn, hne⟩ := mem_found_startingdb.1 hn
  exact h.read (fun _ => hne) hn

/-- The registration of a file is not touched by what is done for another one. -/
theorem registry_of_ne {db : Database} {m : Text} (hm : m ≠ n) :
    (∀ τ, (db.setTimestamp m τ).registry n = db.registry n) ∧
    (∀ v, (eachUrl .done db m v).registry n = db.registry n) ∧
    (db.remove m).registry n = db.registry n := by
  refine ⟨fun τ => ?_, fun v => ?_, ?_⟩
  · rw [db.registry_setTimestamp, Function.update_of_ne hm.symm]
  · rw [registry_eachUrl, Function.update_of_ne hm.symm]
  · rw [db.registry_remove, Function.update_of_ne hm.symm]

/-- A step of a harmless run leaves the registration as it is, and the run harmless. -/
theorem Pc.Harmless.step {fs : FileSys} {c : Choice} {db db' : Database} {pc pc' : Pc}
    (h : pc.Harmless n) (hcur : upToDate .done db n t = true) (hG : pc.Spares n t fs c)
    (hs : Pc.Step fs db pc c db' pc') : db'.registry n = db.registry n ∧ pc'.Harmless n := by
  cases hs with
  | settle _ => exact ⟨rfl, trivial⟩
  | list dirname st =>
    refine ⟨rfl, fun hn => hG ?_⟩
    cases st with
    | done => exact (mem_urlDbFilesForDir.1 hn).2
    | error => cases hn
  | openDir dirname startingdb _ =>
    refine ⟨rfl, fun hn => ?_⟩
    obtain ⟨name, hc, hsuf, he⟩ := h hn
    exact ⟨name, (hG (h hn)).2 name hc he, hc, hsuf, he⟩
  | noDir dirname startingdb hdir =>
    refine ⟨rfl, fun hn => ?_⟩
    rw [(hG (h hn)).1] at hdir
    cases hdir
  | readFile s name _ _ _ => exact ⟨rfl, Scan.Awaits.found h⟩
  | skipName s name _ _ hsuf =>
    refine ⟨rfl, Scan.Awaits.read h fun hsuf' => ?_⟩
    rw [hsuf] at hsuf'
    cases hsuf'
  | endOfDir s hend =>
    -- the entry of the file would have to be returned before the end
    refine ⟨rfl, fun hn => ?_⟩
    obtain ⟨name, hname, hc, -, he⟩ := h hn
    exact hend name hname (hG name hc he)
  | current s m st _ => exact ⟨rfl, h⟩
  | outdated s m st hout =>
    refine ⟨rfl, ?_, h⟩
    rintro rfl
    obtain ⟨htime, hst⟩ := hG rfl
    rw [of_decide_eq_true hst] at hout
    obtain ⟨g, hg, hle⟩ := upToDate_iff.1 hcur
    rw [upToDate_iff.2 ⟨g, hg, htime.trans hle⟩] at hout
    cases hout
  | stamp s m τ => exact ⟨(registry_of_ne h.1).1 _, h⟩
  | stampFails s m τ => exact ⟨rfl, h.2⟩
  | readContent s m f _ => exact ⟨rfl, h⟩
  | unreadable s m _ => exact ⟨rfl, h.2⟩
  | insert s m f v rest => exact ⟨(registry_of_ne h.1).2.1 v, h⟩
  | insertFails s m f v rest => exact ⟨rfl, h⟩
  | fileDone s m f => exact ⟨rfl, h.2⟩
  | remove names m hm =>
    have hmn : m ≠ n := ne_of_mem_of_not_mem hm h
    exact ⟨(registry_of_ne hmn).2.2, fun hn => h (List.mem_filter.1 hn).1⟩
  | removeFails names m st _ _ => exact ⟨rfl, fun hn => h (List.mem_filter.1 hn).1⟩
  | finish => exact ⟨rfl, trivial⟩

/-- The invariant: the registration is still what it was, and no run is about to change it. -/
structure Spared (n : Text) (t : ℤ) (r : Option Registration) (w : Fleet) : Prop where
  registry : w.db.registry n = r
  upToDate : upToDate .done w.db n t = true
  harmless : ∀ i, (w.procs i).Harmless n

theorem Spared.step {r : Option Registration} {w w' : Fleet} {e : FleetEvent}
    (h : Spared n t r w) (hG : Spares n t w e) (hs : w.step e = some w') : Spared n t r w' := by
  have hupdate : ∀ i pc, pc.Harmless n → ∀ j, (Function.update w.procs i pc j).Harmless n :=
    fun i pc hpc => (Function.forall_update_iff w.procs fun _ pc => pc.Harmless n).2
      ⟨hpc, fun j _ => h.harmless j⟩
  cases Fleet.step_sound hs with
  | launch i arg => exact ⟨h.registry, h.upToDate, hupdate i _ trivial⟩
  | exec i fs c db pc hpc =>
    obtain ⟨hreg, hharm⟩ := (h.harmless i).step h.upToDate hG hpc
    exact ⟨hreg.trans h.registry, (upToDate_congr hreg t).trans h.upToDate, hupdate i pc hharm⟩
  | kill i => exact ⟨h.registry, h.upToDate, hupdate i _ trivial⟩

theorem spared_of_run {w w' : Fleet} {es : List FleetEvent}
    (hrest : ∀ i, (w.procs i).isFinished = true) (hcur : upToDate .done w.db n t = true)
    (h : Run Fleet.step (Spares n t) w es w') : Spared n t (w.db.registry n) w' := by
  refine h.invariant (I := Spared n t (w.db.registry n)) ⟨rfl, hcur, fun i => ?_⟩
    fun _ _ _ hI hG hs => hI.step hG hs
  rw [Pc.isFinished_iff.1 (hrest i)]
  trivial

/-! ### What the service answers meanwhile -/

/-- **Updates do not interrupt.**  Runs of the tool overlap, fail and are killed, and the files they
find change, but for one file that was up to date and stays.  At every moment that file has the
registration it had; a URL it handles resolves to some AppID; and to its own, together with the URL,
if no other file then offers a suffix of that length or a longer one. -/
theorem answered_of_run {w w' : Fleet} {es : List FleetEvent}
    (hrest : ∀ i, (w.procs i).isFinished = true) (hcur : upToDate .done w.db n t = true)
    (h : Run Fleet.step (Spares n t) w es w') :
    w'.db.registry n = w.db.registry n ∧
    ∀ (S : System) (url protocol suffix : Text) (domain : Option Text), S.urldb = w'.db →
      S.status = .done → urlTarget url = some (.lookup protocol domain) →
      (n, suffix) ∈ Registry.offers w.db.registry protocol (domain.getD []) →
      (∃ r, S.urlToAppid url = some r) ∧
      ((∀ o ∈ Registry.offers w'.db.registry protocol (domain.getD []),
          suffix.length ≤ o.2.length → fileAppid o.1 = fileAppid n) →
        S.urlToAppid url = some ⟨fileAppid n, some url⟩ ∧
        ∀ o package, ∀ a ∈ (dispatchUrl S o url package).actions, a.appid = fileAppid n) := by
  have hinv := spared_of_run hrest hcur h
  refine ⟨hinv.registry, fun S url protocol suffix domain hdb hst ht hoffer => ?_⟩
  have hoffer' : (n, suffix) ∈ Registry.offers w'.db.registry protocol (domain.getD []) := by
    obtain ⟨g, hg, hrest⟩ := hoffer
    exact ⟨g, hinv.registry.trans hg, hrest⟩
  have hresolve : S.urlToAppid url =
      (urlDbFindUrl S.plan .done w'.db protocol domain).map fun appid => ⟨appid, some url⟩ := by
    rw [System.urlToAppid, hdb, hst, resolvedAs_iff_urlTarget.2 ht]
    rfl
  obtain ⟨A, hA⟩ : ∃ A, urlDbFindUrl S.plan .done w'.db protocol domain = some A := by
    refine Option.ne_none_iff_exists'.1 fun hnone => ?_
    obtain ⟨g, hg, hs, hl⟩ := hoffer'
    rw [urlDbFindUrl_eq_none_iff.1 hnone n g suffix hg hs] at hl
    cases hl
  rw [hA, Option.map_some] at hresolve
  refine ⟨⟨_, hresolve⟩, fun hsole => ?_⟩
  -- the answer is a longest suffix, and so one that is as long as that of the file
  obtain ⟨o, ho, rfl, hmax⟩ := mem_routes_of_urlDbFindUrl hA
  rw [hsole o ho (hmax _ hoffer')] at hresolve
  refine ⟨hresolve, fun o package a ha => ?_⟩
  obtain ⟨r, hr, he⟩ := exists_urlToAppid_of_mem_actions ha
  rw [hresolve] at hr
  cases hr
  exact he

/-- `b.url-dispatcher` is registered, by one run that is killed and by another one. -/
def overlapping : List FleetEvent :=
  let fs := pairDir (some (comFile 1)) (some (suffixFile "com".toList 5))
  [.launch 0 "/d".toList, .launch 1 "/d".toList, .exec 0 fs .tau, .exec 1 fs .tau,
    .exec 0 fs (.stmt .done), .exec 0 fs .tau, .exec 1 fs (.stmt .done), .exec 1 fs .tau,
    .exec 0 fs (.readName (some "b.url-dispatcher".toList)), .exec 0 fs (.stmt .error),
    .exec 0 fs (.stmt .done), .kill 0,
    .exec 1 fs (.readName (some "a.url-dispatcher".toList)), .exec 1 fs (.stmt .done)]

/-- The check of a step for `/d/a.url-dispatcher`, last modified at 1. -/
def sparesFirst (w : Fleet) : FleetEvent → Bool
  | .exec i fs c =>
    match w.procs i with
    | .listing dirname => decide (dirname = "/d".toList)
    | .opening dirname _ => decide (dirname = "/d".toList) && fs.isDir dirname &&
        (fs.entries dirname).contains "a.url-dispatcher".toList
    | .scanning s => decide (s.dirname = "/d".toList) &&
        (fs.entries s.dirname).contains "a.url-dispatcher".toList
    | .checking _ m => decide (m ≠ "/d/a.url-dispatcher".toList) ||
        decide (fs.filetime "/d/a.url-dispatcher".toList ≤ 1) && c.succeeds
    | _ => true
  | _ => true

theorem foundIn_first {fs : FileSys} {dirname : Text} (hd : dirname = "/d".toList)
    (h : "a.url-dispatcher".toList ∈ fs.entries dirname) :
    FoundIn fs dirname "/d/a.url-dispatcher".toList := by
  subst hd
  intro name hc he
  have hfirst : "/d/a.url-dispatcher".toList =
    gBuildFilename "/d".toList "a.url-dispatcher".toList := by decide
  rwa [gBuildFilename_inj hc (by decide) (he.symm.trans hfirst)]

theorem sparesFirst_sound {w : Fleet} {e : FleetEvent} (h : sparesFirst w e = true) :
    Spares "/d/a.url-dispatcher".toList 1 w e := by
  cases e with
  | exec i fs c =>
    rw [sparesFirst] at h
    rw [Spares]
    cases hpc : w.procs i with
    | listing dirname =>
      rw [hpc] at h
      intro _
      rw [of_decide_eq_true h]
      exact ⟨"a.url-dispatcher".toList, by decide, by decide, by decide⟩
    | opening dirname startingdb =>
      rw [hpc, Bool.and_eq_true, Bool.and_eq_true] at h
      exact fun _ => ⟨h.1.2, foundIn_first (of_decide_eq_true h.1.1) (List.contains_iff_mem.1 h.2)⟩
    | scanning s =>
      rw [hpc, Bool.and_eq_true] at h
      exact foundIn_first (of_decide_eq_true h.1) (List.contains_iff_mem.1 h.2)
    | checking s m =>
      rw [hpc, Bool.or_eq_true, Bool.and_eq_true] at h
      intro hm
      obtain h | ⟨htime, hc⟩ := h
      · exact absurd hm (of_decide_eq_true h)
      · exact ⟨of_decide_eq_true htime, hc⟩
    | _ => trivial
  | _ => trivial

/-- While the runs register `b.url-dispatcher`, the URL `http://a.com` is still answered. -/
theorem answered_of_run_overlapping : ∃ w' : Fleet,
    run Fleet.step ⟨entryDatabase "/d/a.url-dispatcher".toList "http".toList "a.com".toList,
      fun _ => .finished⟩ overlapping = some w' ∧
    ∃ r, (plainSystem w'.db []).urlToAppid "http://a.com".toList = some r := by
  obtain ⟨w', hw⟩ := Option.isSome_iff_exists.1
    (show (run (fun w e => if sparesFirst w e then Fleet.step w e else none)
      ⟨entryDatabase "/d/a.url-dispatcher".toList "http".toList "a.com".toList,
        fun _ => .finished⟩ overlapping).isSome by decide)
  have hrun := Run.of_run (g := sparesFirst) (fun _ _ => sparesFirst_sound) hw
  have hoffer : ("/d/a.url-dispatcher".toList, "a.com".toList) ∈ Registry.offers
      (entryDatabase "/d/a.url-dispatcher".toList "http".toList "a.com".toList).registry
      "http".toList "a.com".toList := by
    refine ⟨⟨1, {("http".toList, "a.com".toList)}⟩, ?_, Set.mem_singleton _, by decide⟩
    rw [registry_entryDatabase, Function.update_self]
  obtain ⟨-, h⟩ := answered_of_run (fun _ => rfl) (by decide) hrun
  exact ⟨w', hrun.run_eq, (h _ "http://a.com".toList "http".toList "a.com".toList
    (some "a.com".toList) rfl rfl (by decide) hoffer).1⟩

end UrlDispatcher
