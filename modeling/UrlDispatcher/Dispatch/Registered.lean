import UrlDispatcher.Dispatch.Intent
import UrlDispatcher.Update.Provenance

/-!
# What is registered and what is dispatched

`each_url` decides which entries get into the database, `genericre` and `intent_domain` which
protocol and which domain are looked up there.  They share no code.

* `dispatches_iff` : an entry that is the only one of its protocol is dispatched to exactly when the
  protocol is one `genericre` reads, without `+`, `-` and `.`.
* `refusesPackageless_of_run` : an intent that names no package finds a handler only if some file
  had an `intent` entry whose suffix the empty domain matches, and `each_url` does not refuse every
  such one.
-/

namespace UrlDispatcher

open Sql Regex GLib Machine

/-! ### The protocols that can be dispatched -/

/-- `[a-z0-9+.-]` -/
def rfcSchemeChar (c : Char) : Bool := schemeChar c || c = '+' || c = '-' || c = '.'

/-- A scheme of RFC 3986 in lower case. -/
def IsRfcScheme (s : Text) : Prop :=
  ∃ c cs, s = c :: cs ∧ c.isLower = true ∧ ∀ d ∈ cs, rfcSchemeChar d = true

/-- The file `n` has registered the suffix `s` for the protocol `p`, and no other file has
registered anything for it. -/
structure SoleHandler (db : Database) (n p s : Text) : Prop where
  named : HandlerFile n
  scheme : IsRfcScheme p
  ordinary : p ≠ "intent".toList ∧ p ≠ "appid".toList ∧ p ≠ "application".toList
  host : ∀ c ∈ s, hostChar c = true
  registered : ∃ g, db.registry n = some g ∧ (p, s) ∈ g.entries
  sole : ∀ m g s', db.registry m = some g → (p, s') ∈ g.entries → m = n

/-- `p://s/` -/
def entryUrl (p s : Text) : Text := p ++ ':' :: '/' :: '/' :: (s ++ ['/'])

/-- The URL of the entry is dispatched to the file's AppID, with itself as the URL to send. -/
def Dispatches (triplet : Text → Text → Text → Option Text) (plan : QueryPlan) (db : Database)
    (n p s : Text) : Prop :=
  ∃ A, gPathGetBasename n = A ++ urlDispatcherSuffix ∧
    dispatcherUrlToAppid triplet (urlDbFindUrl plan .done db) (entryUrl p s) =
      some ⟨A, some (entryUrl p s)⟩

theorem IsRfcScheme.colon_not_mem {p : Text} (h : IsRfcScheme p) : ':' ∉ p := by
  obtain ⟨c, cs, rfl, hc, hcs⟩ := h
  intro hmem
  rcases List.mem_cons.1 hmem with rfl | hmem
  · revert hc
    decide
  · have := hcs _ hmem
    revert this
    decide

/-- What `genericre` reads are the schemes without `+`, `-` and `.`. -/
theorem IsRfcScheme.isScheme_iff {p : Text} (h : IsRfcScheme p) :
    IsScheme p ↔ ∀ c ∈ p, c ∉ ['+', '-', '.'] := by
  obtain ⟨c, cs, rfl, hc, hcs⟩ := h
  have hspecial : ∀ d ∈ ['+', '-', '.'], schemeChar d = false := by simp [schemeChar]
  have hschemeChar : schemeChar c = true := by rw [schemeChar, hc, Bool.true_or]
  constructor
  · rintro ⟨c', cs', he, -, hcs'⟩ d hd hspec
    obtain ⟨rfl, rfl⟩ := List.cons.inj he
    have hd' : schemeChar d = true := by
      rcases List.mem_cons.1 hd with rfl | hd
      · exact hschemeChar
      · exact hcs' d hd
    rw [hspecial d hspec] at hd'
    cases hd'
  · intro hno
    refine ⟨c, cs, rfl, hc, fun d hd => ?_⟩
    have hd' := hcs d hd
    have hno' := hno d (List.mem_cons_of_mem c hd)
    simp only [rfcSchemeChar, Bool.or_eq_true, decide_eq_true_eq] at hd'
    simp only [List.mem_cons, List.not_mem_nil, or_false, not_or] at hno'
    rcases hd' with ((hd' | hd') | hd') | hd'
    · exact hd'
    · exact absurd hd' hno'.1
    · exact absurd hd' hno'.2.1
    · exact absurd hd' hno'.2.2

/-- A URL whose protocol is none `genericre` reads is not resolved. -/
theorem dispatcherUrlToAppid_of_not_isScheme {p : Text} (hcolon : ':' ∉ p) (hp : ¬ IsScheme p)
    (rest : Text) (triplet : Text → Text → Text → Option Text)
    (find : Text → Option Text → Option Text) :
    dispatcherUrlToAppid triplet find (p ++ ':' :: rest) = none := by
  -- each of the expressions would have found a scheme in front of the colon
  have hnone : ∀ (w x : Text) (r : Regex), IsScheme w →
      matchStart (.seq .bol (literal (w ++ ':' :: x) r)) (p ++ ':' :: rest) = none := by
    intro w x r hw
    rw [← Option.not_isSome_iff_eq_none, Option.isSome_iff_exists]
    rintro ⟨m, hm⟩
    exact hp (eq_of_prefix_separator hw.colon_not_mem hcolon (prefix_of_matchStart hm) ▸ hw)
  have happid : matchStart appidre (p ++ ':' :: rest) = none :=
    hnone "appid".toList "//".toList _ (by decide)
  have happlication : matchStart applicationre (p ++ ':' :: rest) = none :=
    hnone "application".toList "///".toList _ (by decide)
  have hgeneric : matchStart genericre (p ++ ':' :: rest) = none := by
    rw [← Option.not_isSome_iff_eq_none, Option.isSome_iff_exists]
    rintro ⟨m, hm⟩
    obtain ⟨scheme, rest', hs, he, -⟩ := genericre_sound hm
    exact hp (eq_of_prefix_separator hcolon hs.colon_not_mem
      ⟨[], by rw [List.append_nil, he]⟩ ▸ hs)
  simp only [dispatcherUrlToAppid, happid, happlication, hgeneric]

theorem dot_of_hostChar {c : Char} (h : hostChar c = true) : dot c = true := by
  cases hn : isNewline c with
  | false => rw [dot, hn]; rfl
  | true =>
    simp only [isNewline, Bool.or_eq_true, decide_eq_true_eq] at hn
    rcases hn with (((((rfl | rfl) | rfl) | rfl) | rfl) | rfl) | rfl
    all_goals revert h; decide

/-- The entry's own URL is looked up by the entry. -/
theorem looksUp_entryUrl {p s : Text} (hp : IsScheme p)
    (hord : p ≠ "intent".toList ∧ p ≠ "appid".toList ∧ p ≠ "application".toList)
    (hs : ∀ c ∈ s, hostChar c = true) : LooksUp (entryUrl p s) p s := by
  intro triplet find
  have hat : '@' ∉ s ++ ['/'] := by
    intro hmem
    rcases List.mem_append.1 hmem with hmem | hmem
    · have := hs _ hmem
      revert this
      decide
    · revert hmem
      decide
  have hdot : ∀ c ∈ s ++ ['/'], dot c = true := by
    intro c hc
    rcases List.mem_append.1 hc with hc | hc
    · exact dot_of_hostChar (hs c hc)
    · rw [List.mem_singleton.1 hc]
      rfl
  have hdomain : authorityDomain (s ++ ['/']) = s := by
    have hstop : (['/'] : Text).takeWhile hostChar = [] := rfl
    rw [authorityDomain, afterLastAt_of_not_mem hat, List.takeWhile_append_of_pos hs, hstop,
      List.append_nil]
  obtain ⟨m, hm, h1, h2⟩ := genericre_authority hp hdot
  have hfetch : gMatchInfoFetch m 1 = p := by rw [gMatchInfoFetch, h1, Option.getD_some]
  rw [hdomain] at h2
  rw [dispatcherUrlToAppid_generic (show matchStart genericre (entryUrl p s) = some m from hm)
    (hfetch ▸ hord.2.1) (hfetch ▸ hord.2.2), hfetch, if_neg hord.1, gMatchInfoFetch, h2,
    Option.getD_some]

/-- The database answers with the file. -/
theorem SoleHandler.find_eq {db : Database} {n p s : Text} (h : SoleHandler db n p s)
    (plan : QueryPlan) : urlDbFindUrl plan .done db p (some s) = some (fileAppid n) := by
  obtain ⟨g, hg, hs⟩ := h.registered
  cases hf : urlDbFindUrl plan .done db p (some s) with
  | none =>
    have hself : like ('%' :: s) s = true := like_percent.2 ⟨[], s, rfl, like_self s⟩
    have hno := urlDbFindUrl_eq_none_iff.1 hf n g s hg hs
    rw [Option.getD_some, hself] at hno
    cases hno
  | some A =>
    obtain ⟨m, g', s', hg', hs', -, rfl⟩ := exists_of_urlDbFindUrl hf
    rw [h.sole m g' s' hg' hs']

/-- **What is registered can be dispatched** exactly if `genericre` reads its protocol, that is, if
there is no `+`, `-` or `.` in it. -/
theorem dispatches_iff {db : Database} {n p s : Text} (h : SoleHandler db n p s)
    (triplet : Text → Text → Text → Option Text) (plan : QueryPlan) :
    Dispatches triplet plan db n p s ↔ ∀ c ∈ p, c ∉ ['+', '-', '.'] := by
  rw [← h.scheme.isScheme_iff]
  constructor
  · rintro ⟨A, -, hA⟩
    by_contra hp
    rw [entryUrl, dispatcherUrlToAppid_of_not_isScheme h.scheme.colon_not_mem hp] at hA
    cases hA
  · intro hp
    refine ⟨fileAppid n, h.named.basename_eq, ?_⟩
    rw [looksUp_entryUrl hp h.ordinary h.host triplet, h.find_eq plan, Option.map_some]

theorem soleHandler_entryDatabase {n p s : Text} (hn : HandlerFile n) (hp : IsRfcScheme p)
    (hord : p ≠ "intent".toList ∧ p ≠ "appid".toList ∧ p ≠ "application".toList)
    (hs : ∀ c ∈ s, hostChar c = true) : SoleHandler (entryDatabase n p s) n p s := by
  refine ⟨hn, hp, hord, hs, ⟨⟨1, {(p, s)}⟩, ?_, rfl⟩, fun m g s' hg _ => ?_⟩
  · rw [registry_entryDatabase, Function.update_self]
  · by_contra hm
    rw [registry_entryDatabase, Function.update_of_ne hm] at hg
    cases hg

/-- `/d/foo.url-dispatcher` -/
def fooFile : Text := "/d/foo.url-dispatcher".toList

theorem handlerFile_fooFile : HandlerFile fooFile :=
  ⟨"/d".toList, "foo.url-dispatcher".toList, by decide, by decide, by decide⟩

theorem soleHandler_http :
    SoleHandler (entryDatabase fooFile "http".toList "foo.com".toList) fooFile "http".toList
      "foo.com".toList :=
  soleHandler_entryDatabase handlerFile_fooFile
    ⟨'h', "ttp".toList, rfl, rfl, List.all_eq_true.1 rfl⟩ (by decide) (List.all_eq_true.1 rfl)

theorem dispatches_http : Dispatches (fun _ _ _ => none) .stable
    (entryDatabase fooFile "http".toList "foo.com".toList) fooFile "http".toList
    "foo.com".toList :=
  (dispatches_iff soleHandler_http _ _).2 (by simp)

theorem soleHandler_gitSsh :
    SoleHandler (entryDatabase fooFile "git+ssh".toList "foo.com".toList) fooFile
      "git+ssh".toList "foo.com".toList :=
  soleHandler_entryDatabase handlerFile_fooFile
    ⟨'g', "it+ssh".toList, rfl, rfl, List.all_eq_true.1 rfl⟩ (by decide) (List.all_eq_true.1 rfl)

/-- `git+ssh` is registered, and not dispatched. -/
theorem not_dispatches_gitSsh :
    SoleHandler (entryDatabase fooFile "git+ssh".toList "foo.com".toList) fooFile
      "git+ssh".toList "foo.com".toList ∧
    ¬ Dispatches (fun _ _ _ => none) .stable
      (entryDatabase fooFile "git+ssh".toList "foo.com".toList) fooFile "git+ssh".toList
      "foo.com".toList := by
  refine ⟨soleHandler_gitSsh, ?_⟩
  rintro ⟨A, -, hA⟩
  rw [entryUrl, dispatcherUrlToAppid_of_not_isScheme (by decide) (by decide)] at hA
  cases hA

/-! ### Intents that name no package -/

/-- An `intent` entry whose suffix the empty domain matches: there is nothing but `%` in it. -/
def IsCatchAll (e : Entry) : Prop := e.1 = "intent".toList ∧ ∀ c ∈ e.2, c = '%'

/-- A URL of the protocol `intent` from which `intent_domain` extracts no package name. -/
def PackagelessIntent (url : Text) : Prop :=
  (∃ m, matchStart genericre url = some m ∧ gMatchInfoFetch m 1 = "intent".toList) ∧
    (intentDomain url).getD [] = []

theorem isCatchAll_iff_like {e : Entry} :
    IsCatchAll e ↔ e.1 = "intent".toList ∧ like ('%' :: e.2) [] = true := by
  rw [IsCatchAll, like_nil_right, List.forall_mem_cons, eq_self_iff_true, true_and]

/-- An intent that names no package is refused if and only if no known file has an entry of that
kind. -/
theorem dispatch_packageless_iff {url : Text} (h : PackagelessIntent url)
    (triplet : Text → Text → Text → Option Text) (plan : QueryPlan) (db : Database) :
    dispatcherUrlToAppid triplet (urlDbFindUrl plan .done db) url = none ↔
      ∀ n g, db.registry n = some g → ∀ e ∈ g.entries, ¬ IsCatchAll e := by
  obtain ⟨⟨m, hm, hintent⟩, hdomain⟩ := h
  rw [dispatcherUrlToAppid_intent hm hintent, Option.map_eq_none_iff, urlDbFindUrl_eq_none_iff,
    hdomain]
  constructor
  · rintro hno n g hg ⟨p, s⟩ he hcatch
    obtain ⟨hp, hl⟩ := isCatchAll_iff_like.1 hcatch
    obtain rfl : p = "intent".toList := hp
    rw [hno n g s hg he] at hl
    cases hl
  · intro hno n g s hg he
    rw [Bool.eq_false_iff]
    exact fun hl => hno n g hg _ he (isCatchAll_iff_like.2 ⟨rfl, hl⟩)

/-- No row is of that kind, also none of an older version or of a removed file, and no element still
to be stored. -/
structure CatchAllFree (db : Database) (pc : Pc) : Prop where
  rows : ∀ u ∈ db.urls, ¬ IsCatchAll (u.val.protocol, u.val.domainsuffix)
  rest : ∀ s n f rest, pc = .inserting s n f rest →
    ∀ v ∈ rest, ∀ e, acceptedEntry v = some e → ¬ IsCatchAll e

namespace CatchAllFree

variable {db db' : Database} {pc pc' : Pc}

/-- Rows are only lost, and nothing is read. -/
theorem of_subset (h : CatchAllFree db pc) (hrows : ∀ u ∈ db'.urls, u ∈ db.urls)
    (hpc : ∀ s n f rest, pc' ≠ .inserting s n f rest) : CatchAllFree db' pc' where
  rows u hu := h.rows u (hrows u hu)
  rest s n f rest he := absurd he (hpc s n f rest)

/-- A row that an insertion makes is the entry inserted. -/
theorem insertUrl (h : CatchAllFree db pc) (n p s : Text) (he : ¬ IsCatchAll (p, s)) :
    ∀ u ∈ (db.insertUrl n p s).urls, ¬ IsCatchAll (u.val.protocol, u.val.domainsuffix) := by
  intro u hu
  by_cases hn : ∃ c ∈ db.configfiles, c.val.name = n
  · obtain ⟨c, hc, rfl⟩ := hn
    rw [Database.insertUrl_of_mem hc] at hu
    rcases Table.mem_insertOrReplace.1 hu with ⟨hu, -⟩ | rfl
    · exact h.rows u hu
    · exact he
  · rw [Database.insertUrl_of_not_mem fun c hc he => hn ⟨c, hc, he⟩] at hu
    exact h.rows u hu

theorem eachUrl {s : Scan} {n : Text} {f : File} {v : JsonNode} {rest : List JsonNode}
    (h : CatchAllFree db (.inserting s n f (v :: rest))) :
    CatchAllFree (eachUrl .done db n v) (.inserting s n f rest) := by
  have hall := h.rest s n f (v :: rest) rfl
  refine ⟨?_, ?_⟩
  · rw [eachUrl_done]
    cases hv : acceptedEntry v with
    | none => exact h.rows
    | some e => exact h.insertUrl n e.1 e.2 (hall v List.mem_cons_self e hv)
  · rintro _ _ _ _ ⟨⟩
    exact fun v' hv' => hall v' (List.mem_cons_of_mem v hv')

/-- A step keeps it, if the file it reads has no entry of that kind. -/
theorem step {fs : FileSys} {c : Choice} (h : CatchAllFree db pc) (hs : Pc.Step fs db pc c db' pc')
    (hread : ∀ s n f, pc = .reading s n → fs.file n = some f → ∀ e ∈ f.entries, ¬ IsCatchAll e) :
    CatchAllFree db' pc' := by
  cases hs with
  | settle _ | list _ _ | openDir _ _ _ | noDir _ _ _ | readFile _ _ _ _ _ | skipName _ _ _ _ _
  | endOfDir _ _ | current _ _ _ _ | outdated _ _ _ _ | stamp _ _ _ | stampFails _ _ _
  | unreadable _ _ _ | fileDone _ _ _ | removeFails _ _ _ _ _ | finish =>
    exact h.of_subset (fun _ hu => hu) (by rintro _ _ _ _ ⟨⟩)
  | readContent s n f hf =>
    refine ⟨h.rows, ?_⟩
    rintro _ _ _ _ ⟨⟩
    exact fun v hv e he => hread s n f rfl hf e ⟨v, hv, he⟩
  | insert s n f v rest => exact h.eachUrl
  | insertFails s n f v rest =>
    refine ⟨h.rows, ?_⟩
    rintro _ _ _ _ ⟨⟩
    exact fun v' hv' => h.rest s n f (v :: rest) rfl v' (List.mem_cons_of_mem v hv')
  | remove names n _ =>
    exact h.of_subset (fun _ hu => (Table.mem_delete.1 hu).1) (by rintro _ _ _ _ ⟨⟩)

end CatchAllFree

/-- The file being read has no entry of that kind. -/
def ReadsNoCatchAll (w : Solo) (_ : SoloEvent) : Prop :=
  ∀ s n f, w.proc = .reading s n → w.fs.file n = some f → ∀ e ∈ f.entries, ¬ IsCatchAll e

theorem CatchAllFree.solo_step {w w' : Solo} {e : SoloEvent} (h : CatchAllFree w.db w.proc)
    (hr : ReadsNoCatchAll w e) (hs : w.step e = some w') : CatchAllFree w'.db w'.proc := by
  cases Solo.step_sound hs with
  | change fs => exact h
  | launch arg _ => exact h.of_subset (fun _ hu => hu) (by rintro _ _ _ _ ⟨⟩)
  | exec c db pc hpc => exact h.step hpc hr
  | kill => exact h.of_subset (fun _ hu => hu) (by rintro _ _ _ _ ⟨⟩)

/-- **No catch-all for intents.**  In every database an intent that names no package is refused
exactly if no known file has an entry of that kind; and in every run of the tool in which no file
read has one, every such intent is refused at every moment. -/
theorem refusesPackageless_of_run (url : Text) (hurl : PackagelessIntent url) :
    (∀ triplet plan db, dispatcherUrlToAppid triplet (urlDbFindUrl plan .done db) url = none ↔
      ∀ n g, db.registry n = some g → ∀ e ∈ g.entries, ¬ IsCatchAll e) ∧
    ∀ fs es w, Run Solo.step ReadsNoCatchAll (.init fs) es w → ∀ triplet plan,
      dispatcherUrlToAppid triplet (urlDbFindUrl plan .done w.db) url = none := by
  refine ⟨fun triplet plan db => dispatch_packageless_iff hurl triplet plan db,
    fun fs es w h triplet plan => ?_⟩
  have hinit : CatchAllFree (Solo.init fs).db (Solo.init fs).proc :=
    ⟨fun u hu => absurd hu (Table.not_mem_empty u), by rintro _ _ _ _ ⟨⟩⟩
  have hfree := h.invariant (I := fun w => CatchAllFree w.db w.proc) hinit
    fun _ _ _ hc hG hs => hc.solo_step hG hs
  rw [dispatch_packageless_iff hurl]
  rintro n g hg ⟨p, s⟩ he
  obtain ⟨c, -, -, -, hentries⟩ := Database.registry_eq_some.1 hg
  rw [← hentries] at he
  obtain ⟨u, hu, hv⟩ := he
  have hrow := hfree.rows u hu
  rwa [hv] at hrow

instance : DecidablePred IsCatchAll := fun e =>
  decidable_of_iff (e.1 = "intent".toList ∧ e.2.all (fun c => decide (c = '%')) = true) <| by
    simp only [IsCatchAll, List.all_eq_true, decide_eq_true_eq]

/-- The check of `ReadsNoCatchAll`, element by element. -/
def readsNoCatchAll (w : Solo) : Bool :=
  match w.proc with
  | .reading _ n =>
    ((w.fs.file n).map File.elements).getD [] |>.all fun v => (acceptedEntry v).all fun e =>
      !decide (IsCatchAll e)
  | _ => true

theorem readsNoCatchAll_sound {w : Solo} (h : readsNoCatchAll w = true) (e : SoloEvent) :
    ReadsNoCatchAll w e := by
  rintro s n f hp hf e' ⟨v, hv, he⟩
  rw [readsNoCatchAll, hp] at h
  dsimp only at h
  rw [hf, Option.map_some, Option.getD_some, List.all_eq_true] at h
  have hall := h v hv
  rw [he] at hall
  simpa using hall

/-- `intent://foo.com#Intent;end` -/
def bareIntent : Text := "intent://foo.com#Intent;end".toList

theorem packagelessIntent_bareIntent : PackagelessIntent bareIntent :=
  ⟨genericre_intent (s := "foo.com#Intent;end".toList) (List.all_eq_true.1 rfl), by decide⟩

/-- A file that registers a suffix for `intent`. -/
def intentFile (suffix : Text) : File where
  mtime := 1
  content := some (.array [.object
    [("protocol".toList, .string "intent".toList), ("domain-suffix".toList, .string suffix)]])

/-- A file that registers a package leaves an intent that names none without a handler. -/
theorem refusesPackageless_listed : ∃ w,
    Run Solo.step ReadsNoCatchAll (.init (pairDir (some (intentFile "com.foo".toList)) none)) listed
      w ∧
      dispatcherUrlToAppid (fun _ _ _ => none) (urlDbFindUrl .stable .done w.db) bareIntent =
        none := by
  have h : Run Solo.step ReadsNoCatchAll
      (.init (pairDir (some (intentFile "com.foo".toList)) none)) listed _ :=
    .of_run (g := fun w _ => readsNoCatchAll w) (fun _ e hg => readsNoCatchAll_sound hg e)
      (Option.some_get (by decide)).symm
  exact ⟨_, h, (refusesPackageless_of_run bareIntent packagelessIntent_bareIntent).2 _ _ _ h _ _⟩

/-- A file that registers the empty suffix for `intent`. -/
def catchAllFile : File := intentFile []

/-- `each_url` refuses an `intent` entry without a suffix, but not one with the empty suffix, and
that file becomes the handler of the intents that name no package. -/
theorem not_refusesPackageless_of_run :
    ¬ ∀ fs es w, Run Solo.step Uninterrupted (.init fs) es w → w.proc = .finished →
      ∀ url, PackagelessIntent url → ∀ triplet plan,
        dispatcherUrlToAppid triplet (urlDbFindUrl plan .done w.db) url = none := by
  intro hall
  have h := run_of_quietRun (w := .init (pairDir (some catchAllFile) none)) listed
    (Option.some_get (by decide)).symm
  have hnone := hall _ _ _ h rfl bareIntent packagelessIntent_bareIntent (fun _ _ _ => none) .stable
  revert hnone
  decide

end UrlDispatcher
