import UrlDispatcher.Dispatch.Intent
import UrlDispatcher.Dispatch.Origin
import UrlDispatcher.Regex.Newline

/-!
# The dispatcher as a parser

What `dispatcher_url_to_appid` makes of a URL before it asks anybody: the parts of an AppID, an
AppID, or a protocol and a domain to look up.  `urlTarget` reads that off the URL without any
regular expression, with prefixes, separators and character classes alone.

* `dispatcherUrlToAppid_eq_urlTarget` : for every URL, also with newlines in it, the function does
  what the target says.
* `resolvedAs_iff` : the targets that occur are just those that are well formed, each one is that of
  its own text, and no URL has two.
-/

namespace UrlDispatcher

open Regex

/-! ### The parsers -/

/-- The URL of the parts of an AppID. -/
def appidUrl (package app version : Text) : Text :=
  "appid://".toList ++ (package ++ '/' :: (app ++ '/' :: version))

/-- `appid://` and three parts. -/
def parseAppid (u : Text) : Option (Text × Text × Text) :=
  (u.dropPrefix? "appid://".toList).bind fun s =>
    match s.splitOn '/' with
    | [package, app, version] =>
      if package.all packageChar && app.all appChar && version.all hostChar then
        some (package, app, version)
      else none
    | _ => none

/-- What stands between `application:///` and `.desktop`. -/
def parseApplication (u : Text) : Option Text :=
  (u.dropPrefix? "application:///".toList).bind fun s =>
    (s.dropSuffix? ".desktop".toList).bind fun appid =>
      if appid.all applicationChar then some appid else none

/-- The package named behind `intent://`. -/
def parseIntent (u : Text) : Option Text := (u.dropPrefix? "intent://".toList).bind lastPackage

/-- What a URL asks for. -/
inductive UrlTarget
  /-- The application of these parts of an AppID. -/
  | parts (package app version : Text)
  /-- The application of this AppID. -/
  | application (appid : Text)
  /-- The application registered for this protocol and this domain. -/
  | lookup (protocol : Text) (domain : Option Text)
deriving DecidableEq

/-- The target of a URL of one line. -/
def lineTarget (u : Text) : Option UrlTarget :=
  ((parseAppid u).map fun t => .parts t.1 t.2.1 t.2.2).or
    (((parseApplication u).map .application).or
      ((parseGeneric u).map fun t =>
        .lookup t.1 (if t.1 = "intent".toList then parseIntent u else some t.2)))

/-- The target of a URL, behind whose first line only a newline may stand. -/
def urlTarget (url : Text) : Option UrlTarget :=
  if atEnd (lineEnd url) then lineTarget (line url) else none

/-- Ask for the target of a URL. -/
def UrlTarget.resolve (triplet : Text → Text → Text → Option Text)
    (find : Text → Option Text → Option Text) (url : Text) : UrlTarget → Option Resolved
  | .parts package app version => (triplet package app version).map fun appid => ⟨appid, none⟩
  | .application appid => some ⟨appid, none⟩
  | .lookup protocol domain => (find protocol domain).map fun appid => ⟨appid, some url⟩

/-- A search and a parser agree if each finds what the other does. -/
theorem map_eq_of_sound {α β : Type*} {a : Option α} {f : α → β} {b : Option β}
    (hsound : ∀ x, a = some x → b = some (f x)) (hcomplete : b.isSome = true → a.isSome = true) :
    a.map f = b := by
  cases a with
  | some x => exact (hsound x rfl).symm
  | none =>
    rw [Option.map_none, eq_comm, ← Option.not_isSome_iff_eq_none]
    exact fun h => absurd (hcomplete h) Bool.false_ne_true

/-! ### The parts of an AppID -/

theorem appidUrl_eq (package app version : Text) : appidUrl package app version =
    "appid://".toList ++ (package ++ '/' :: (app ++ '/' :: version)) := rfl

theorem intercalate_parts (package app version : Text) :
    ['/'].intercalate [package, app, version] = package ++ '/' :: (app ++ '/' :: version) := by
  rw [List.intercalate_cons_cons, List.intercalate_cons_cons, List.intercalate_singleton]
  simp

theorem separator_not_mem {p : Char → Bool} (hp : p '/' = false) {v : Text}
    (hv : ∀ c ∈ v, p c = true) : '/' ∉ v := fun hmem => by
  rw [hv _ hmem] at hp
  cases hp

theorem parseAppid_eq_some_iff {u package app version : Text} :
    parseAppid u = some (package, app, version) ↔
      u = appidUrl package app version ∧ (∀ c ∈ package, packageChar c = true) ∧
        (∀ c ∈ app, appChar c = true) ∧ ∀ c ∈ version, hostChar c = true := by
  rw [parseAppid, Option.bind_eq_some_iff]
  constructor
  · rintro ⟨s, hs, h⟩
    obtain ⟨w, rfl, hw⟩ := List.dropPrefix?_eq_some_iff.1 hs
    obtain rfl := eq_of_beq hw
    split at h
    · next package' app' version' hsplit =>
      rw [Option.ite_none_right_eq_some, Bool.and_eq_true, Bool.and_eq_true, List.all_eq_true,
        List.all_eq_true, List.all_eq_true] at h
      obtain ⟨⟨⟨hp, ha⟩, hv⟩, he⟩ := h
      cases he
      refine ⟨?_, hp, ha, hv⟩
      rw [appidUrl_eq, ← intercalate_parts, ← hsplit, List.intercalate_splitOn]
    · cases h
  · rintro ⟨rfl, hp, ha, hv⟩
    have hsplit : (['/'].intercalate [package, app, version]).splitOn '/' =
        [package, app, version] := by
      refine List.splitOn_intercalate '/' ?_ (List.cons_ne_nil _ _)
      simp only [List.forall_mem_cons]
      exact ⟨separator_not_mem (by decide) hp, separator_not_mem (by decide) ha,
        separator_not_mem (by decide) hv, by simp⟩
    refine ⟨_, List.dropPrefix?_append_of_beq _ (beq_self_eq_true _), ?_⟩
    rw [← intercalate_parts, hsplit]
    exact if_pos (by simp [List.all_eq_true.2 hp, List.all_eq_true.2 ha, List.all_eq_true.2 hv])

/-- The three groups of a match as they are fetched. -/
def appidGroups (m : State) : Text × Text × Text :=
  (gMatchInfoFetch m 1, gMatchInfoFetch m 2, gMatchInfoFetch m 3)

/-- The three parts are captured. -/
theorem appidre_appidUrl {package app version : Text} (hp : ∀ c ∈ package, packageChar c = true)
    (ha : ∀ c ∈ app, appChar c = true) (hv : ∀ c ∈ version, hostChar c = true) :
    (matchStart appidre (appidUrl package app version)).map appidGroups =
      some (package, app, version) := by
  have hend : ∀ pos g, exec (.capture 3 (.star hostChar)) ⟨pos, version ++ [], g⟩
      (fun st => exec .eol st some) = some ⟨pos + version.length, [], (3, version) :: g⟩ :=
    fun pos g => exec_capture_star hv (by simp) rfl
  rw [List.append_nil] at hend
  have hmatch : matchStart appidre (appidUrl package app version) =
      some ⟨0 + "appid://".toList.length + package.length + 1 + app.length + 1 + version.length, [],
        [(3, version), (2, app), (1, package)]⟩ := by
    rw [matchStart, appidre, exec_seq, exec_bol_start, State.start, appidUrl_eq,
      exec_literal_append, exec_seq]
    refine exec_capture_star hp (by simp; decide) ?_
    rw [exec_seq, exec_lit_cons, if_pos rfl, exec_seq]
    refine exec_capture_star ha (by simp; decide) ?_
    rw [exec_seq, exec_lit_cons, if_pos rfl]
    exact hend _ _
  rw [hmatch]
  rfl

/-- What matches and has no newline in it is the URL of what is captured. -/
theorem appidre_sound {u : Text} (hu : ∀ c ∈ u, dot c = true) {m : State}
    (h : matchStart appidre u = some m) : ∃ package app version,
      u = appidUrl package app version ∧ (∀ c ∈ package, packageChar c = true) ∧
        (∀ c ∈ app, appChar c = true) ∧ ∀ c ∈ version, hostChar c = true := by
  rw [matchStart, appidre, exec_seq, exec_bol_start] at h
  obtain ⟨s, rfl, h₁⟩ := exec_literal_eq_some h
  rw [exec_seq, exec_capture, exec_star] at h₁
  obtain ⟨package, s, rfl, hp, h₁⟩ := execStar_sound h₁
  cases s with
  | nil => cases h₁
  | cons c s =>
    rw [exec_seq, exec_lit_cons, Option.ite_none_right_eq_some, exec_seq, exec_capture,
      exec_star] at h₁
    obtain ⟨rfl, h₂⟩ := h₁
    obtain ⟨app, s, rfl, ha, h₂⟩ := execStar_sound h₂
    cases s with
    | nil => cases h₂
    | cons c s =>
      rw [exec_seq, exec_lit_cons, Option.ite_none_right_eq_some, exec_seq, exec_capture,
        exec_star] at h₂
      obtain ⟨rfl, h₃⟩ := h₂
      obtain ⟨version, s, rfl, hv, h₃⟩ := execStar_sound h₃
      rw [exec, Option.ite_none_right_eq_some] at h₃
      obtain rfl : s = [] := eq_nil_of_atEnd h₃.1 fun c hc => hu c (by simp [hc])
      refine ⟨package, app, version, ?_, hp, ha, hv⟩
      rw [appidUrl_eq, List.append_nil]

/-- **The expression for AppIDs equals the direct parser.** -/
theorem matchStart_appidre {u : Text} (hu : ∀ c ∈ u, dot c = true) :
    (matchStart appidre u).map appidGroups = parseAppid u := by
  refine map_eq_of_sound (fun m hm => ?_) fun h => ?_
  · obtain ⟨package, app, version, rfl, hp, ha, hv⟩ := appidre_sound hu hm
    have hgroups := appidre_appidUrl hp ha hv
    rw [hm, Option.map_some, Option.some.injEq] at hgroups
    rw [hgroups, parseAppid_eq_some_iff]
    exact ⟨rfl, hp, ha, hv⟩
  · obtain ⟨⟨package, app, version⟩, ht⟩ := Option.isSome_iff_exists.1 h
    obtain ⟨rfl, hp, ha, hv⟩ := parseAppid_eq_some_iff.1 ht
    rw [← Option.isSome_map, appidre_appidUrl hp ha hv]
    rfl

/-! ### The other expressions -/

theorem parseApplication_eq_some_iff {u appid : Text} : parseApplication u = some appid ↔
    u = applicationUrl appid ∧ ∀ c ∈ appid, applicationChar c = true := by
  rw [parseApplication, Option.bind_eq_some_iff]
  constructor
  · rintro ⟨s, hs, h⟩
    obtain ⟨w, rfl, hw⟩ := List.dropPrefix?_eq_some_iff.1 hs
    obtain rfl := eq_of_beq hw
    obtain ⟨a, ha, hclass⟩ := Option.bind_eq_some_iff.1 h
    obtain ⟨v, rfl, hv⟩ := List.dropSuffix?_eq_some_iff.1 ha
    obtain rfl := eq_of_beq hv
    rw [Option.ite_none_right_eq_some, List.all_eq_true] at hclass
    obtain ⟨hclass, he⟩ := hclass
    cases he
    exact ⟨rfl, hclass⟩
  · rintro ⟨rfl, hclass⟩
    refine ⟨_, List.dropPrefix?_append_of_beq _ (beq_self_eq_true _), ?_⟩
    rw [Option.bind_eq_some_iff]
    refine ⟨appid, List.dropSuffix?_eq_some_iff.2 ⟨_, rfl, beq_self_eq_true _⟩, ?_⟩
    exact if_pos (List.all_eq_true.2 hclass)

/-- **The expression for applications equals the direct parser.** -/
theorem matchStart_applicationre {u : Text} (hu : ∀ c ∈ u, dot c = true) :
    (matchStart applicationre u).map (fun m => gMatchInfoFetch m 1) = parseApplication u := by
  refine map_eq_of_sound (fun m hm => ?_) fun h => ?_
  · obtain ⟨appid, t, -, hclass, -, hgroup⟩ := wrapped_match (applicationre_eq ▸ hm)
    have hfetch : gMatchInfoFetch m 1 = appid := by rw [gMatchInfoFetch, hgroup, Option.getD_some]
    rw [parseApplication_eq_some_iff]
    exact ⟨eq_applicationUrl hu hm, hfetch ▸ hclass⟩
  · obtain ⟨appid, ha⟩ := Option.isSome_iff_exists.1 h
    obtain ⟨rfl, hclass⟩ := parseApplication_eq_some_iff.1 ha
    obtain ⟨m, hm, -⟩ := applicationre_applicationUrl hclass
    rw [hm]
    rfl

theorem matchStart_genericre {u : Text} (hu : ∀ c ∈ u, dot c = true) :
    (matchStart genericre u).map genericGroups = parseGeneric u := by
  have hmatch : ∀ {scheme rest : Text}, IsScheme scheme → u = scheme ++ ':' :: rest →
      (matchStart genericre u).map genericGroups = parseGeneric u := by
    rintro scheme rest hs rfl
    rw [parseGeneric_of_isScheme hs]
    exact genericre_groups hs fun c hc => hu c (List.mem_append_right _ (List.mem_cons_of_mem _ hc))
  refine map_eq_of_sound (fun m hm => ?_) fun h => ?_
  · obtain ⟨scheme, rest, hs, he, -⟩ := genericre_sound hm
    rw [← hmatch hs he, hm]
    rfl
  · obtain ⟨scheme, rest, hs, he⟩ := exists_of_parseGeneric h
    rw [← Option.isSome_map, hmatch hs he]
    exact h

/-- **The expression for intents equals the direct parser.** -/
theorem intentDomain_eq_parseIntent {u : Text} (hu : ∀ c ∈ u, dot c = true) :
    intentDomain u = parseIntent u := by
  by_cases hp : "intent://".toList <+: u
  · obtain ⟨s, rfl⟩ := hp
    rw [parseIntent, List.dropPrefix?_append_of_beq _ (beq_self_eq_true _), Option.bind_some,
      intentDomain_eq fun c hc => hu c (List.mem_append_right _ hc)]
  · have hnone : matchStart intentre u = none := by
      cases hm : matchStart intentre u with
      | none => rfl
      | some m => exact absurd (prefix_of_matchStart hm) hp
    have hdrop : u.dropPrefix? "intent://".toList = none := by
      cases hd : u.dropPrefix? "intent://".toList with
      | none => rfl
      | some s =>
        obtain ⟨w, rfl, hw⟩ := List.dropPrefix?_eq_some_iff.1 hd
        obtain rfl := eq_of_beq hw
        exact absurd (List.prefix_append _ s) hp
    rw [intentDomain, hnone, parseIntent, hdrop]
    rfl

/-! ### One line -/

/-- The newline characters. -/
theorem dot_of_class {p : Char → Bool} (h : (['\n', '\r', '\x0b', '\x0c', '\u0085', '\u2028',
    '\u2029'].all fun c => !p c) = true) (c : Char) (hc : p c = true) : dot c = true := by
  rw [dot, Bool.not_eq_true', ← Bool.not_eq_true]
  intro hnewline
  simp only [isNewline, Bool.or_eq_true, decide_eq_true_eq] at hnewline
  have hno := List.all_eq_true.1 h c (by simpa [or_assoc] using hnewline)
  rw [hc] at hno
  cases hno

theorem appidre_within : appidre.Within dot :=
  ⟨trivial, within_literal (List.all_eq_true.1 rfl) ⟨dot_of_class (by decide),
    dot_of_class (by decide), dot_of_class (by decide), dot_of_class (by decide),
    dot_of_class (by decide), trivial⟩⟩

theorem applicationre_within : applicationre.Within dot :=
  ⟨trivial, within_literal (List.all_eq_true.1 rfl) ⟨dot_of_class (by decide),
    within_literal (List.all_eq_true.1 rfl) trivial⟩⟩

theorem genericre_within : genericre.Within dot :=
  ⟨trivial, ⟨dot_of_class (by decide), dot_of_class (by decide)⟩, dot_of_class (by decide),
    within_literal (List.all_eq_true.1 rfl) ⟨⟨fun _ => id, dot_of_class (by decide)⟩,
      dot_of_class (by decide), ⟨dot_of_class (by decide), dot_of_class (by decide)⟩,
      dot_of_class (by decide)⟩, fun _ => id, trivial⟩

theorem intentre_within : intentre.Within dot :=
  ⟨trivial, within_literal (List.all_eq_true.1 rfl) ⟨fun _ => id,
    within_literal (List.all_eq_true.1 rfl) ⟨dot_of_class (by decide), dot_of_class (by decide),
      fun _ => id, trivial⟩⟩⟩

/-- What is fetched from a match is fetched from that of the first line. -/
theorem map_matchStart_line {β : Type*} {r : Regex} (hr : r.Within dot) (ha : r.Anchored)
    {f : State → β} (hf : ∀ m s, f (m.append s) = f m) (u : Text) :
    (matchStart r u).map f =
      if atEnd (lineEnd u) then (matchStart r (line u)).map f else none := by
  rw [matchStart_line hr ha]
  split_ifs
  · rw [Option.map_map]
    exact congrArg (fun g => (matchStart r (line u)).map g) (funext fun m => hf m _)
  · rfl

/-- What the expressions make of a URL. -/
def matchedTarget (url : Text) : Option UrlTarget :=
  (((matchStart appidre url).map appidGroups).map fun t => .parts t.1 t.2.1 t.2.2).or
    ((((matchStart applicationre url).map fun m => gMatchInfoFetch m 1).map .application).or
      (((matchStart genericre url).map genericGroups).map fun t =>
        .lookup t.1 (if t.1 = "intent".toList then intentDomain url else some t.2)))

/-- The function asks for what the expressions make of the URL. -/
theorem dispatcherUrlToAppid_eq_bind (triplet : Text → Text → Text → Option Text)
    (find : Text → Option Text → Option Text) (url : Text) :
    dispatcherUrlToAppid triplet find url =
      (matchedTarget url).bind (UrlTarget.resolve triplet find url) := by
  unfold dispatcherUrlToAppid matchedTarget
  cases matchStart appidre url with
  | some m => rfl
  | none =>
    cases matchStart applicationre url with
    | some m => rfl
    | none => cases matchStart genericre url <;> rfl

theorem matchedTarget_eq (url : Text) : matchedTarget url = urlTarget url := by
  have hline : ∀ c ∈ line url, dot c = true := fun c hc => List.mem_takeWhile_imp hc
  have happid := map_matchStart_line appidre_within trivial (f := appidGroups) (fun _ _ => rfl) url
  have happlication := map_matchStart_line applicationre_within trivial
    (f := fun m => gMatchInfoFetch m 1) (fun _ _ => rfl) url
  have hgeneric := map_matchStart_line genericre_within trivial (f := genericGroups)
    (fun _ _ => rfl) url
  have hintent : intentDomain url = if atEnd (lineEnd url) then intentDomain (line url) else none :=
    map_matchStart_line intentre_within trivial (f := fun m => gMatchInfoFetch m 1)
      (fun _ _ => rfl) url
  rw [matchedTarget, happid, happlication, hgeneric, hintent, urlTarget]
  split_ifs
  · rw [matchStart_appidre hline, matchStart_applicationre hline, matchStart_genericre hline,
      intentDomain_eq_parseIntent hline]
    rfl
  · rfl

/-- **The dispatcher is the direct parser.**  Whatever the URL, the application manager and the
database, the function does what the target read off the URL says; in particular nothing else of the
URL counts. -/
theorem dispatcherUrlToAppid_eq_urlTarget (triplet : Text → Text → Text → Option Text)
    (find : Text → Option Text → Option Text) (url : Text) :
    dispatcherUrlToAppid triplet find url =
      (urlTarget url).bind (UrlTarget.resolve triplet find url) := by
  rw [dispatcherUrlToAppid_eq_bind, matchedTarget_eq]

/-! ### Targets and their texts -/

/-- What the parts of a target may be. -/
def UrlTarget.WellFormed : UrlTarget → Prop
  | .parts package app version => (∀ c ∈ package, packageChar c = true) ∧
      (∀ c ∈ app, appChar c = true) ∧ ∀ c ∈ version, hostChar c = true
  | .application appid => ∀ c ∈ appid, applicationChar c = true
  | .lookup protocol domain => IsScheme protocol ∧
      (protocol = "intent".toList → ∀ v ∈ domain, ∀ c ∈ v, intentPackageChar c = true) ∧
      (protocol ≠ "intent".toList → ∃ v, domain = some v ∧ ∀ c ∈ v, hostChar c = true)

/-- A URL with that target. -/
def UrlTarget.text : UrlTarget → Text
  | .parts package app version => appidUrl package app version
  | .application appid => applicationUrl appid
  | .lookup protocol none => protocol ++ [':']
  | .lookup protocol (some domain) =>
    if protocol = "intent".toList then
      "intent://".toList ++ ("#Intent;".toList ++
        (paramsText [(packageKey, domain)] ++ "end".toList))
    else protocol ++ ':' :: '/' :: '/' :: domain

/-- The function does for the URL what the target says, whatever it calls. -/
def ResolvedAs (url : Text) (t : UrlTarget) : Prop :=
  ∀ triplet find, dispatcherUrlToAppid triplet find url = t.resolve triplet find url

theorem UrlTarget.WellFormed.of_lineTarget {u : Text} {t : UrlTarget} (h : lineTarget u = some t) :
    t.WellFormed := by
  rw [lineTarget, Option.or_eq_some_iff, Option.or_eq_some_iff] at h
  rcases h with h | ⟨-, h | ⟨-, h⟩⟩
  · obtain ⟨⟨package, app, version⟩, hparse, rfl⟩ := Option.map_eq_some_iff.1 h
    exact (parseAppid_eq_some_iff.1 hparse).2
  · obtain ⟨appid, hparse, rfl⟩ := Option.map_eq_some_iff.1 h
    exact (parseApplication_eq_some_iff.1 hparse).2
  · obtain ⟨⟨scheme, domain⟩, hparse, rfl⟩ := Option.map_eq_some_iff.1 h
    obtain ⟨scheme', rest, hs, rfl⟩ :=
      exists_of_parseGeneric (Option.isSome_iff_exists.2 ⟨_, hparse⟩)
    rw [parseGeneric_of_isScheme hs] at hparse
    cases hparse
    refine ⟨hs, fun hintent v hv => ?_, fun hne => ⟨_, if_neg hne, ?_⟩⟩
    · rw [if_pos hintent] at hv
      obtain ⟨s, -, hlast⟩ := Option.bind_eq_some_iff.1 hv
      exact intentPackageChar_of_lastPackage hlast
    · intro c hc
      unfold genericDomain at hc
      split at hc
      · exact List.mem_takeWhile_imp hc
      · cases hc

/-- Without a separator behind the slashes a URL is neither of the two special ones. -/
theorem lineTarget_of_isScheme {scheme rest : Text} (hs : IsScheme scheme)
    (hno : scheme ≠ "intent".toList → '/' ∉ rest.drop 2) :
    lineTarget (scheme ++ ':' :: rest) = some (.lookup scheme
      (if scheme = "intent".toList then parseIntent (scheme ++ ':' :: rest)
        else some (genericDomain rest))) := by
  have hspecial : ∀ w x : Text, ':' ∉ w → w ≠ "intent".toList → '/' ∈ x →
      scheme ++ ':' :: rest ≠ w ++ ':' :: ("//".toList ++ x) := by
    intro w x hw hne hx he
    obtain rfl : w = scheme :=
      eq_of_prefix_separator hw hs.colon_not_mem ⟨[], by rw [List.append_nil, he]⟩
    have hrest := (List.cons.inj (List.append_cancel_left he)).2
    exact hno hne (by rw [hrest]; exact hx)
  have happid : parseAppid (scheme ++ ':' :: rest) = none := by
    rw [Option.eq_none_iff_forall_ne_some]
    rintro ⟨package, app, version⟩ h
    exact hspecial "appid".toList (package ++ '/' :: (app ++ '/' :: version)) (by decide)
      (by decide) (by simp) (parseAppid_eq_some_iff.1 h).1
  have happlication : parseApplication (scheme ++ ':' :: rest) = none := by
    rw [Option.eq_none_iff_forall_ne_some]
    intro appid h
    exact hspecial "application".toList ('/' :: (appid ++ ".desktop".toList)) (by decide)
      (by decide) List.mem_cons_self (parseApplication_eq_some_iff.1 h).1
  rw [lineTarget, happid, happlication, parseGeneric_of_isScheme hs]
  rfl

theorem parseIntent_text {package : Text} (h : ∀ c ∈ package, intentPackageChar c = true) :
    parseIntent ("intent://".toList ++ ("#Intent;".toList ++
      (paramsText [(packageKey, package)] ++ "end".toList))) = some package := by
  have hno : ∀ d, intentPackageChar d = false → d ∉ package := fun d hd hmem => by
    rw [h d hmem] at hd
    cases hd
  have hparams : lastPackage (paramsText [(packageKey, package)] ++ "end".toList) =
      some package := by
    have hnames : namesPackage (packageKey, package) = true := by
      rw [namesPackage, List.all_eq_true.2 h]
      rfl
    rw [lastPackage_params fun kv hkv => ?_]
    · rw [paramsPackage, List.filter_cons_of_pos hnames]
      rfl
    · obtain rfl := List.mem_singleton.1 hkv
      exact ⟨show '=' ∉ packageKey by decide, hno '=' (by decide), hno ';' (by decide)⟩
  rw [parseIntent, List.dropPrefix?_append_of_beq _ (beq_self_eq_true _), Option.bind_some,
    lastPackage_append hparams]

theorem UrlTarget.WellFormed.lineTarget_text {t : UrlTarget} (h : t.WellFormed) :
    lineTarget t.text = some t := by
  cases t with
  | parts package app version =>
    rw [lineTarget, text, parseAppid_eq_some_iff.2 ⟨rfl, h⟩]
    rfl
  | application appid =>
    have hnone : parseAppid (applicationUrl appid) = none := by
      rw [Option.eq_none_iff_forall_ne_some]
      rintro ⟨package, app, version⟩ hsome
      have he : appidUrl package app version = applicationUrl appid :=
        (parseAppid_eq_some_iff.1 hsome).1.symm
      have hp : "appid://".toList <+: "application:///".toList :=
        List.prefix_of_prefix_length_le ⟨_, he⟩ ⟨_, rfl⟩ (by decide)
      revert hp
      decide
    rw [lineTarget, text, hnone, parseApplication_eq_some_iff.2 ⟨rfl, h⟩]
    rfl
  | lookup protocol domain =>
    obtain ⟨hs, hintent, hne⟩ := h
    by_cases hp : protocol = "intent".toList
    · subst hp
      cases domain with
      | none =>
        rw [text, lineTarget_of_isScheme hs (absurd rfl)]
        rfl
      | some package =>
        have hparse := parseIntent_text (hintent rfl package rfl)
        rw [text, if_pos rfl]
        have htext : ∀ x : Text, "intent://".toList ++ x =
            "intent".toList ++ ':' :: ("//".toList ++ x) := fun _ => rfl
        rw [htext] at hparse ⊢
        rw [lineTarget_of_isScheme hs (absurd rfl), if_pos rfl, hparse]
    · obtain ⟨domain, rfl, hd⟩ := hne hp
      have hsep : '/' ∉ domain := separator_not_mem (by decide) hd
      have hat : '@' ∉ domain := fun hmem => by
        have := hd _ hmem
        revert this
        decide
      have hline := @lineTarget_of_isScheme _ ('/' :: '/' :: domain) hs fun _ => hsep
      rw [text, if_neg hp, hline, if_neg hp, genericDomain, authorityDomain,
        afterLastAt_of_not_mem hat, List.takeWhile_eq_self_iff.2 hd]

theorem UrlTarget.WellFormed.dot_text {t : UrlTarget} (h : t.WellFormed) :
    ∀ c ∈ t.text, dot c = true := by
  have hclass : ∀ {p : Char → Bool} {v : Text}, (['\n', '\r', '\x0b', '\x0c', '\u0085', '\u2028',
      '\u2029'].all fun c => !p c) = true → (∀ c ∈ v, p c = true) → ∀ c ∈ v, dot c = true :=
    fun hp hv c hc => dot_of_class hp c (hv c hc)
  cases t with
  | parts package app version =>
    obtain ⟨hp, ha, hv⟩ := h
    rw [text, appidUrl_eq]
    simp only [List.forall_mem_append, List.forall_mem_cons]
    exact ⟨List.all_eq_true.1 rfl, hclass (by decide) hp, by decide, hclass (by decide) ha,
      by decide, hclass (by decide) hv⟩
  | application appid =>
    have htext : (application appid).text =
        "application:///".toList ++ (appid ++ ".desktop".toList) := rfl
    rw [htext]
    simp only [List.forall_mem_append]
    exact ⟨List.all_eq_true.1 rfl, hclass (by decide) h, List.all_eq_true.1 rfl⟩
  | lookup protocol domain =>
    obtain ⟨⟨c, cs, hprotocol, hc, hcs⟩, hintent, hne⟩ := h
    have hscheme : ∀ c ∈ protocol, dot c = true := by
      rw [hprotocol, List.forall_mem_cons]
      exact ⟨dot_of_class (p := Char.isLower) (by decide) c hc, hclass (by decide) hcs⟩
    cases domain with
    | none =>
      rw [text, List.forall_mem_append]
      exact ⟨hscheme, by simp; decide⟩
    | some domain =>
      rw [text]
      split_ifs with hp
      · simp only [List.forall_mem_append, paramsText, List.forall_mem_cons]
        exact ⟨List.all_eq_true.1 rfl, List.all_eq_true.1 rfl, ⟨List.all_eq_true.1 rfl, by decide,
          hclass (by decide) (hintent hp domain rfl), by decide, by simp⟩, List.all_eq_true.1 rfl⟩
      · obtain ⟨v, hv, hd⟩ := hne hp
        cases hv
        simp only [List.forall_mem_append, List.forall_mem_cons]
        exact ⟨hscheme, by decide, by decide, by decide, hclass (by decide) hd⟩

theorem UrlTarget.WellFormed.urlTarget_text {t : UrlTarget} (h : t.WellFormed) :
    urlTarget t.text = some t := by
  have hline : line t.text = t.text := List.takeWhile_eq_self_iff.2 h.dot_text
  have hend : lineEnd t.text = [] := List.dropWhile_eq_nil_iff.2 h.dot_text
  rw [urlTarget, hline, hend, h.lineTarget_text]
  rfl

/-- Two targets that give the same answers, whatever is asked, are one. -/
theorem UrlTarget.eq_of_resolve {url : Text} {t t' : UrlTarget}
    (h : ∀ triplet find, t.resolve triplet find url = t'.resolve triplet find url) : t = t' := by
  -- oracles that answer nothing, or one question only
  have hnothing := h (fun _ _ _ => none) fun _ _ => none
  cases t' with
  | application a' =>
    cases t with
    | application a =>
      cases hnothing
      rfl
    | parts | lookup => cases hnothing
  | parts p' a' v' =>
    have honly := h (fun p a v => if parts p a v = parts p' a' v' then some [] else none)
      fun _ _ => none
    rw [resolve, if_pos rfl] at honly
    cases t with
    | application => cases hnothing
    | lookup => cases honly
    | parts p a v =>
      by_contra hne
      rw [resolve, if_neg hne] at honly
      cases honly
  | lookup p' d' =>
    have honly := h (fun _ _ _ => none)
      fun p d => if lookup p d = lookup p' d' then some [] else none
    rw [resolve, if_pos rfl] at honly
    cases t with
    | application => cases hnothing
    | parts => cases honly
    | lookup p d =>
      by_contra hne
      rw [resolve, if_neg hne] at honly
      cases honly

/-- The target of a URL is what the function does for it. -/
theorem resolvedAs_iff_urlTarget {url : Text} {t : UrlTarget} :
    ResolvedAs url t ↔ urlTarget url = some t := by
  constructor
  · intro h
    cases ht : urlTarget url with
    | some t' =>
      refine congrArg some (@UrlTarget.eq_of_resolve url _ _ fun triplet find => ?_)
      rw [← h triplet find, dispatcherUrlToAppid_eq_bind, matchedTarget_eq, ht, Option.bind_some]
    | none =>
      -- some oracles have an answer for the target
      have hnone := h (fun _ _ _ => some []) fun _ _ => some []
      rw [dispatcherUrlToAppid_eq_bind, matchedTarget_eq, ht] at hnone
      cases t <;> cases hnone
  · intro ht triplet find
    rw [dispatcherUrlToAppid_eq_bind, matchedTarget_eq, ht, Option.bind_some]

/-- **Targets and URLs.**  A target is that of some URL exactly if it is well formed, and then it is
that of its text; no URL has two; and what follows the first line of a URL with a target is at most
a newline, which makes no difference. -/
theorem resolvedAs_iff (t : UrlTarget) :
    ((∃ url, ResolvedAs url t) ↔ t.WellFormed) ∧ (t.WellFormed → ResolvedAs t.text t) ∧
    ∀ url, ResolvedAs url t →
      (∀ t', ResolvedAs url t' → t' = t) ∧ atEnd (lineEnd url) = true ∧
        ResolvedAs (line url) t := by
  have htext : t.WellFormed → ResolvedAs t.text t := fun h =>
    resolvedAs_iff_urlTarget.2 h.urlTarget_text
  refine ⟨⟨?_, fun h => ⟨t.text, htext h⟩⟩, htext, fun url h => ?_⟩
  · rintro ⟨url, h⟩
    have ht := resolvedAs_iff_urlTarget.1 h
    rw [urlTarget, Option.ite_none_right_eq_some] at ht
    exact .of_lineTarget ht.2
  · have ht := resolvedAs_iff_urlTarget.1 h
    refine ⟨fun t' h' => ?_, ?_⟩
    · have ht' := resolvedAs_iff_urlTarget.1 h'
      exact Option.some.inj (ht'.symm.trans ht)
    · rw [urlTarget, Option.ite_none_right_eq_some] at ht
      have hline : line (line url) = line url :=
        List.takeWhile_eq_self_iff.2 fun c hc => List.mem_takeWhile_imp hc
      have hend : lineEnd (line url) = [] :=
        List.dropWhile_eq_nil_iff.2 fun c hc => List.mem_takeWhile_imp hc
      refine ⟨ht.1, resolvedAs_iff_urlTarget.2 ?_⟩
      rw [urlTarget, hline, hend]
      exact ht.2

end UrlDispatcher
