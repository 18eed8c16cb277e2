import UrlDispatcher.Dispatch.Host

/-!
# Intents

The domain of an intent is the package that `intentre` cuts out of the URL.  Its first repetition is
greedy and nothing ties it to the parameters, so what counts is the *last* `package=` that is
followed by a run of `[a-zA-Z0-9.]` and a `;` (`lastPackage`).

* `intentDomain_eq` : the expression captures just that.
* `lastPackage_params` : among parameters it is the value of the last one whose key ends in
  `package` and whose value is such a run.
* `routesByPackage_iff` : an intent is looked up by the package it names exactly when that is the
  value.
-/

namespace UrlDispatcher

open Regex GLib

/-- `package` -/
def packageKey : Text := "package".toList

/-- The run behind a `package=`, if a `;` ends it. -/
def closedPackage (s : Text) : Option Text :=
  match s.dropWhile intentPackageChar with
  | ';' :: _ => some (s.takeWhile intentPackageChar)
  | _ => none

/-- The last run behind a `package=` that a `;` ends. -/
def lastPackage : Text → Option Text
  | [] => none
  | c :: s =>
    (lastPackage s).or
      (if packageKey ++ ['='] <+: c :: s then closedPackage ((c :: s).drop 8) else none)

/-! ### What `intentre` captures -/

theorem closedPackage_append {v : Text} (hv : ∀ c ∈ v, intentPackageChar c = true) (s : Text) :
    closedPackage (v ++ ';' :: s) = some v := by
  have hstop : (';' :: s).dropWhile intentPackageChar = ';' :: s := rfl
  have hnil : (';' :: s).takeWhile intentPackageChar = [] := rfl
  rw [closedPackage, List.dropWhile_append_of_pos hv, hstop, List.takeWhile_append_of_pos hv, hnil,
    List.append_nil]
  rfl

theorem closedPackage_eq_some {s v : Text} (h : closedPackage s = some v) :
    (∀ c ∈ v, intentPackageChar c = true) ∧ ∃ t, s = v ++ ';' :: t := by
  unfold closedPackage at h
  split at h
  · next t ht =>
    cases h
    refine ⟨fun c hc => List.mem_takeWhile_imp hc, t, ?_⟩
    rw [← ht, List.takeWhile_append_dropWhile]
  · cases h

/-- `([a-zA-Z0-9\\.]*);.*$`, what `intentre` has behind `package=`. -/
def packagere : Regex :=
  .seq (.capture 1 (.star intentPackageChar)) (.seq (lit ';') (.seq (.star dot) .eol))

/-- Behind a `package=` the group captures the run, and a `;` has to follow. -/
theorem packagere_exec {s : Text} (hs : ∀ c ∈ s, dot c = true) (pos : ℕ) :
    (exec packagere ⟨pos, s, []⟩ some).map (fun m => gMatchInfoFetch m 1) = closedPackage s := by
  cases hp : closedPackage s with
  | some v =>
    obtain ⟨hv, t, rfl⟩ := closedPackage_eq_some hp
    have htail :
        execStar dot [(1, v)] (fun st => exec .eol st some) (pos + v.length + 1) (t ++ []) =
          some ⟨pos + v.length + 1 + t.length, [], [(1, v)]⟩ :=
      exec_star_longest (fun c hc => hs c (List.mem_append_right _ (List.mem_cons_of_mem _ hc)))
        (by simp) rfl
    rw [List.append_nil] at htail
    have hmatch : exec packagere ⟨pos, v ++ ';' :: t, []⟩ some =
        some ⟨pos + v.length + 1 + t.length, [], [(1, v)]⟩ := by
      rw [packagere, exec_seq]
      refine exec_capture_star hv (by simp; decide) ?_
      rw [exec_seq, exec_lit_cons, if_pos rfl]
      exact htail
    rw [hmatch]
    rfl
  | none =>
    cases hm : exec packagere ⟨pos, s, []⟩ some with
    | none => rfl
    | some m =>
      -- what matches is a run and a `;`
      rw [packagere, exec_seq, exec_capture, exec_star] at hm
      obtain ⟨v, b, rfl, hv, hb⟩ := execStar_sound hm
      cases b with
      | nil => cases hb
      | cons c t =>
        rw [exec_seq, exec_lit_cons, Option.ite_none_right_eq_some] at hb
        rw [hb.1, closedPackage_append hv] at hp
        cases hp

/-- The greedy repetition goes on to the last `package=` behind which the rest matches. -/
theorem execStar_packagere {s : Text} (hs : ∀ c ∈ s, dot c = true) (pos : ℕ) :
    (execStar dot [] (fun st => exec (literal (packageKey ++ ['=']) packagere) st some) pos s).map
      (fun m => gMatchInfoFetch m 1) = lastPackage s := by
  induction s generalizing pos with
  | nil => rfl
  | cons c s ih =>
    rw [execStar_cons_of_pos (hs c List.mem_cons_self), Option.map_or,
      ih fun d hd => hs d (List.mem_cons_of_mem c hd), lastPackage]
    congr 1
    split_ifs with hkey
    · obtain ⟨t, ht⟩ := hkey
      rw [← ht] at hs ⊢
      rw [exec_literal_append]
      exact packagere_exec (fun d hd => hs d (List.mem_append_right _ hd)) _
    · rw [exec_literal_eq_none hkey]
      rfl

/-- **What the expression captures** from an intent without newlines. -/
theorem intentDomain_eq {s : Text} (hs : ∀ c ∈ s, dot c = true) :
    intentDomain ("intent://".toList ++ s) = lastPackage s := by
  rw [← execStar_packagere hs (0 + "intent://".toList.length), intentDomain, matchStart, intentre,
    exec_seq, exec_bol_start, State.start, exec_literal_append]
  rfl

/-- What is named is a run of the class. -/
theorem intentPackageChar_of_lastPackage {s v : Text} (h : lastPackage s = some v) :
    ∀ c ∈ v, intentPackageChar c = true := by
  induction s with
  | nil => cases h
  | cons c s ih =>
    rcases Option.or_eq_some_iff.1 h with h | ⟨-, h⟩
    · exact ih h
    · rw [Option.ite_none_right_eq_some] at h
      exact (closedPackage_eq_some h.2).1

/-- A `package=` behind another string names what it names alone. -/
theorem lastPackage_append {t v : Text} (h : lastPackage t = some v) (a : Text) :
    lastPackage (a ++ t) = some v := by
  induction a with
  | nil => exact h
  | cons c a ih => rw [List.cons_append, lastPackage, ih, Option.some_or]

/-! ### Parameters -/

/-- The parameters of an intent, each closed by a `;`. -/
def paramsText : List (Text × Text) → Text
  | [] => []
  | (k, v) :: ps => k ++ '=' :: (v ++ ';' :: paramsText ps)

/-- The parameter is read as naming a package: its key ends in `package`, and its value is a run of
the class. -/
def namesPackage (kv : Text × Text) : Bool :=
  gStrHasSuffix kv.1 packageKey && kv.2.all intentPackageChar

/-- The value of the last parameter that is read as naming a package. -/
def paramsPackage (ps : List (Text × Text)) : Option Text :=
  (ps.filter namesPackage).getLast?.map Prod.snd

/-- A prefix without a `d` ends in front of the first one. -/
theorem prefix_of_prefix_append_cons {d : Char} {w s y : Text} (hw : d ∉ w)
    (h : w <+: s ++ d :: y) : w <+: s := by
  have hd : s ++ [d] <+: s ++ d :: y := ⟨y, by simp⟩
  rcases List.prefix_or_prefix_of_prefix h hd with h | h
  · rcases List.prefix_concat_iff.1 h with rfl | h
    · exact absurd (by simp) hw
    · exact h
  · exact absurd (h.subset (by simp)) hw

/-- In a value no `package=` begins. -/
theorem lastPackage_value {v : Text} (hv : '=' ∉ v) (t : Text) :
    lastPackage (v ++ ';' :: t) = lastPackage t := by
  induction v with
  | nil =>
    have hno : ¬ packageKey ++ ['='] <+: ';' :: t := fun h => by
      have := (List.cons_prefix_cons.1 h).1
      revert this
      decide
    rw [List.nil_append, lastPackage, if_neg hno, Option.or_none]
  | cons c v ih =>
    have hno : ¬ packageKey ++ ['='] <+: (c :: v) ++ ';' :: t := fun h =>
      hv ((prefix_of_prefix_append_cons (by decide) h).subset (by simp))
    rw [List.cons_append, lastPackage, ih fun h => hv (List.mem_cons_of_mem c h)]
    rw [List.cons_append] at hno
    rw [if_neg hno, Option.or_none]

/-- In a key a `package=` begins only if the key ends in `package`. -/
theorem lastPackage_key {k : Text} (hk : '=' ∉ k) (t : Text) :
    lastPackage (k ++ '=' :: t) =
      (lastPackage t).or (if gStrHasSuffix k packageKey then closedPackage t else none) := by
  induction k with
  | nil =>
    have hno : ¬ packageKey ++ ['='] <+: '=' :: t := fun h => by
      have := (List.cons_prefix_cons.1 h).1
      revert this
      decide
    rw [List.nil_append, lastPackage, if_neg hno]
    rfl
  | cons c k ih =>
    have hk' : '=' ∉ k := fun h => hk (List.mem_cons_of_mem c h)
    rw [List.cons_append, lastPackage, ih hk', Option.or_assoc]
    congr 1
    by_cases hkey : c :: k = packageKey
    · -- the key is `package`, and no proper end of it is
      have hshort : gStrHasSuffix k packageKey = false :=
        gStrHasSuffix_eq_false_of_length (hkey ▸ Nat.lt_succ_self _)
      have hself : gStrHasSuffix (c :: k) packageKey = true :=
        List.isSuffixOf_iff_suffix.2 (hkey ▸ List.suffix_rfl)
      have hpre : packageKey ++ ['='] <+: c :: (k ++ '=' :: t) := by
        rw [← hkey]
        exact ⟨t, by simp⟩
      have hlen : k.length = 6 := by
        have : k.length + 1 = packageKey.length := congrArg List.length hkey
        exact Nat.succ.inj this
      have hdrop : (c :: (k ++ '=' :: t)).drop 8 = t := by
        rw [List.drop_succ_cons, List.drop_append, hlen]
        simp [List.drop_eq_nil_of_le, hlen]
      rw [hshort, hself, if_pos hpre, hdrop]
      rfl
    · have hno : ¬ packageKey ++ ['='] <+: c :: (k ++ '=' :: t) := fun h =>
        hkey (eq_of_prefix_separator (by decide) hk h).symm
      rw [if_neg hno, Option.or_none, gStrHasSuffix_cons_of_ne hkey]

/-- The run behind a `package=` is the value if that is a run of the class. -/
theorem closedPackage_value {v : Text} (hv : ';' ∉ v) (t : Text) :
    closedPackage (v ++ ';' :: t) = if v.all intentPackageChar then some v else none := by
  split_ifs with hall
  · exact closedPackage_append (List.all_eq_true.1 hall) t
  · cases h : closedPackage (v ++ ';' :: t) with
    | none => rfl
    | some w =>
      -- the run ends at the first `;`, so it is the value
      obtain ⟨hw, s, hs⟩ := closedPackage_eq_some h
      have hsemi : ';' ∉ w := fun hmem => by
        have := hw _ hmem
        revert this
        decide
      have hwv : w = v := eq_of_prefix_separator hsemi hv ⟨[], by rw [List.append_nil, hs]⟩
      exact absurd (List.all_eq_true.2 (hwv ▸ hw)) hall

/-- **The parameters name** the value of the last one that is read as naming a package. -/
theorem lastPackage_params {ps : List (Text × Text)}
    (h : ∀ kv ∈ ps, '=' ∉ kv.1 ∧ '=' ∉ kv.2 ∧ ';' ∉ kv.2) :
    lastPackage (paramsText ps ++ "end".toList) = paramsPackage ps := by
  induction ps with
  | nil => rfl
  | cons kv ps ih =>
    obtain ⟨k, v⟩ := kv
    obtain ⟨hk, hv, hv'⟩ := h (k, v) List.mem_cons_self
    have hparam : paramsText ((k, v) :: ps) ++ "end".toList =
        k ++ '=' :: (v ++ ';' :: (paramsText ps ++ "end".toList)) := by
      simp [paramsText]
    rw [hparam, lastPackage_key hk, lastPackage_value hv, closedPackage_value hv',
      ih fun kv hkv => h kv (List.mem_cons_of_mem _ hkv), paramsPackage, paramsPackage,
      List.filter_cons, namesPackage]
    cases gStrHasSuffix k packageKey <;> cases v.all intentPackageChar
    · simp
    · simp
    · simp
    · cases hlast : (ps.filter namesPackage).getLast? <;> simp [List.getLast?_cons, hlast]

/-! ### Intents with one package -/

/-- `[A-Za-z0-9_.]` -/
def androidChar (c : Char) : Bool := c.isAlphanum || c = '_' || c = '.'

/-- A URL `intent://H#Intent;k1=v1;...;kn=vn;end` with one parameter `package`. -/
structure IntentUrl where
  location : Text
  params : List (Text × Text)
  package : Text
  location_plain : '#' ∉ location
  params_plain : ∀ kv ∈ params, ∀ c ∈ [';', '='], c ∉ kv.1 ∧ c ∉ kv.2
  package_once : params.filter (fun kv => kv.1 = packageKey) = [(packageKey, package)]
  package_ne : package ≠ []
  package_chars : ∀ c ∈ package, androidChar c = true
  no_newline : ∀ c ∈ location ++ ("#Intent;".toList ++ (paramsText params ++ "end".toList)),
    dot c = true

/-- What follows `intent://`. -/
def IntentUrl.body (u : IntentUrl) : Text :=
  u.location ++ ("#Intent;".toList ++ (paramsText u.params ++ "end".toList))

/-- The URL. -/
def IntentUrl.text (u : IntentUrl) : Text := "intent://".toList ++ u.body

/-- The condition: the last parameter that is read as naming a package has the value of the
parameter `package`. -/
def IntentUrl.NamesPackage (u : IntentUrl) : Prop := paramsPackage u.params = some u.package

/-- A URL of the protocol `intent` is looked up by what `intent_domain` makes of it. -/
theorem dispatcherUrlToAppid_intent {url : Text} {m : State}
    (hm : matchStart genericre url = some m) (hintent : gMatchInfoFetch m 1 = "intent".toList)
    (triplet : Text → Text → Text → Option Text) (find : Text → Option Text → Option Text) :
    dispatcherUrlToAppid triplet find url =
      (find "intent".toList (intentDomain url)).map fun appid => ⟨appid, some url⟩ := by
  rw [dispatcherUrlToAppid_generic hm (by rw [hintent]; decide) (by rw [hintent]; decide), hintent,
    if_pos rfl]

/-- Every string behind `intent://` is that of an intent. -/
theorem genericre_intent {s : Text} (hs : ∀ c ∈ s, dot c = true) :
    ∃ m, matchStart genericre ("intent://".toList ++ s) = some m ∧
      gMatchInfoFetch m 1 = "intent".toList := by
  have hscheme : IsScheme "intent".toList := by decide
  have hrest : ∀ c ∈ "//".toList ++ s, dot c = true := by
    intro c hc
    rcases List.mem_append.1 hc with hc | hc
    · exact List.all_eq_true.1 (show ("//".toList).all dot = true from rfl) c hc
    · exact hs c hc
  have hgroups := genericre_groups hscheme hrest
  obtain ⟨m, hm, hg⟩ := Option.map_eq_some_iff.1 hgroups
  exact ⟨m, hm, congrArg Prod.fst hg⟩

/-- The package is looked up if and only if the expression captures it. -/
theorem IntentUrl.looksUp_iff_lastPackage (u : IntentUrl) :
    LooksUp u.text "intent".toList u.package ↔ lastPackage u.body = some u.package := by
  obtain ⟨m, hm, hintent⟩ := genericre_intent u.no_newline
  have hdomain : intentDomain u.text = lastPackage u.body := intentDomain_eq u.no_newline
  have hm : matchStart genericre u.text = some m := hm
  have hdispatch := dispatcherUrlToAppid_intent hm hintent
  constructor
  · intro h
    -- a database that answers with the domain it is asked for
    have he := (hdispatch (fun _ _ _ => none) fun _ d => d).symm.trans
      (h (fun _ _ _ => none) fun _ d => d)
    have hinj : Function.Injective fun appid : Text => Resolved.mk appid (some u.text) :=
      fun _ _ hr => congrArg Resolved.appid hr
    rw [← hdomain]
    exact Option.map_injective hinj he
  · intro h triplet find
    rw [hdispatch triplet find, hdomain, h]

/-- The package is captured if and only if the condition holds. -/
theorem IntentUrl.lastPackage_body_iff (u : IntentUrl) :
    lastPackage u.body = some u.package ↔ u.NamesPackage := by
  have hparams : lastPackage (paramsText u.params ++ "end".toList) = paramsPackage u.params :=
    lastPackage_params fun kv hkv =>
      ⟨(u.params_plain kv hkv '=' (by simp)).1, (u.params_plain kv hkv '=' (by simp)).2,
        (u.params_plain kv hkv ';' (by simp)).2⟩
  have hbody : ∀ v, paramsPackage u.params = some v → lastPackage u.body = some v := by
    intro v hv
    rw [IntentUrl.body, ← List.append_assoc]
    exact lastPackage_append (hparams.trans hv) _
  refine ⟨fun h => ?_, hbody u.package⟩
  cases hp : paramsPackage u.params with
  | some v =>
    rw [IntentUrl.NamesPackage, hp, ← hbody v hp, h]
  | none =>
    -- the parameter `package` is read as naming one, since its value is what has been captured
    have hmem : (packageKey, u.package) ∈ u.params := by
      have : (packageKey, u.package) ∈ u.params.filter fun kv => kv.1 = packageKey := by
        rw [u.package_once]
        exact List.mem_singleton_self _
      exact List.mem_of_mem_filter this
    have hnames : namesPackage (packageKey, u.package) = true := by
      rw [namesPackage, Bool.and_eq_true, List.all_eq_true]
      exact ⟨rfl, intentPackageChar_of_lastPackage h⟩
    have hne : u.params.filter namesPackage ≠ [] :=
      List.ne_nil_of_mem (List.mem_filter.2 ⟨hmem, hnames⟩)
    rw [paramsPackage, Option.map_eq_none_iff, List.getLast?_eq_none_iff] at hp
    exact absurd hp hne

/-- **Intents are routed by their package** exactly if the last parameter that is read as naming a
package has its value; and any two of these with one package have one handler. -/
theorem routesByPackage_iff (u : IntentUrl) :
    (LooksUp u.text "intent".toList u.package ↔ u.NamesPackage) ∧
    ∀ v : IntentUrl, u.package = v.package → u.NamesPackage → v.NamesPackage →
      ∀ triplet plan st db,
        (dispatcherUrlToAppid triplet (urlDbFindUrl plan st db) u.text).map Resolved.appid =
          (dispatcherUrlToAppid triplet (urlDbFindUrl plan st db) v.text).map Resolved.appid := by
  have hiff : ∀ w : IntentUrl, LooksUp w.text "intent".toList w.package ↔ w.NamesPackage :=
    fun w => w.looksUp_iff_lastPackage.trans w.lastPackage_body_iff
  refine ⟨hiff u, fun v hpackage hu hv triplet plan st db => ?_⟩
  rw [(hiff u).2 hu, (hiff v).2 hv, hpackage]
  simp only [Option.map_map]
  rfl

/-- The separators do not occur in the parameters if they are not found there. -/
theorem plain_of_all {params : List (Text × Text)}
    (h : (params.all fun kv => (kv.1 ++ kv.2).all fun c => !decide (c ∈ [';', '='])) = true) :
    ∀ kv ∈ params, ∀ c ∈ [';', '='], c ∉ kv.1 ∧ c ∉ kv.2 := by
  intro kv hkv c hc
  have hno : c ∉ kv.1 ++ kv.2 := by
    intro hm
    have hall := List.all_eq_true.1 (List.all_eq_true.1 h kv hkv) c hm
    rw [decide_eq_true hc] at hall
    cases hall
  rwa [List.mem_append, not_or] at hno

/-- `intent://foo.com/maps#Intent;scheme=http;package=my.android.package;end` -/
def plainIntent : IntentUrl where
  location := "foo.com/maps".toList
  params := [("scheme".toList, "http".toList), (packageKey, "my.android.package".toList)]
  package := "my.android.package".toList
  location_plain := by decide
  params_plain := plain_of_all rfl
  package_once := by decide
  package_ne := by decide
  package_chars := List.all_eq_true.1 rfl
  no_newline := List.all_eq_true.1 rfl

/-- `intent://bar.org#Intent;package=my.android.package;B.x=1;end` -/
def otherIntent : IntentUrl where
  location := "bar.org".toList
  params := [(packageKey, "my.android.package".toList), ("B.x".toList, "1".toList)]
  package := "my.android.package".toList
  location_plain := by decide
  params_plain := plain_of_all rfl
  package_once := by decide
  package_ne := by decide
  package_chars := List.all_eq_true.1 rfl
  no_newline := List.all_eq_true.1 rfl

/-- Two intents with one package have one handler. -/
theorem routesByPackage_plainIntent :
    LooksUp plainIntent.text "intent".toList plainIntent.package ∧
      ∀ triplet plan st db,
        (dispatcherUrlToAppid triplet (urlDbFindUrl plan st db) plainIntent.text).map
            Resolved.appid =
          (dispatcherUrlToAppid triplet (urlDbFindUrl plan st db) otherIntent.text).map
            Resolved.appid :=
  have hplain : plainIntent.NamesPackage := by unfold IntentUrl.NamesPackage; decide
  have hother : otherIntent.NamesPackage := by unfold IntentUrl.NamesPackage; decide
  ⟨(routesByPackage_iff plainIntent).1.2 hplain,
    (routesByPackage_iff plainIntent).2 otherIntent rfl hplain hother⟩

/-- `intent://foo.com/maps#Intent;package=my_app;end` -/
def underscoreIntent : IntentUrl where
  location := "foo.com/maps".toList
  params := [(packageKey, "my_app".toList)]
  package := "my_app".toList
  location_plain := by decide
  params_plain := plain_of_all rfl
  package_once := by decide
  package_ne := by decide
  package_chars := List.all_eq_true.1 rfl
  no_newline := List.all_eq_true.1 rfl

/-- A package with an underscore is not captured, and no domain is looked up. -/
theorem not_routesByPackage_underscoreIntent :
    ¬ LooksUp underscoreIntent.text "intent".toList underscoreIntent.package := by
  intro h
  have he := h (fun _ _ _ => none) fun _ d => d
  revert he
  decide

end UrlDispatcher
