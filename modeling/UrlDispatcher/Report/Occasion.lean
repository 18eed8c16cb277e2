import UrlDispatcher.Report.Problem

/-!
# When a problem is reported

`Occasion` lists the code paths of the two programs that may file a report, each with everything it
reads; `Occasion.problems` follows them to the reports they file.

`reportsDecode_iff` : every report filed says what its call site reports, except where `TestURL` is
called without a URL, and where an entry without a suffix cannot be stored.
-/

namespace UrlDispatcher

open Sql GLib

/-! ### The code paths -/

/-- `recoverable_problem_file`: without the PID of the sender nothing is reported. -/
def recoverableProblemFile (pid : Option ℤ) (badurl : Option Text) : Option Problem :=
  pid.map fun pid => .badUrl pid badurl

/-- The problem `each_url` reports. -/
def eachUrlProblem (st : Status) (db : Database) (filename : Text) (value : JsonNode) :
    Option Problem :=
  match value with
  | .object members =>
    let protocol := jsonObjectGetStringMember members "protocol".toList
    let suffix := jsonObjectGetStringMember members "domain-suffix".toList
    match protocol with
    | none => none
    | some protocol =>
      if protocol = "intent".toList ∧ suffix = none then none
      else if (urlDbInsertUrl st db filename protocol suffix).2 then none
      else some (.insertError filename protocol suffix)
  | _ => none

/-- The problem `check_file_outofdate` reports. -/
def checkFileProblem (get set : Status) (db : Database) (filename : Text) (filetime : ℤ) :
    Option Problem :=
  if upToDate get db filename filetime then none
  else if (urlDbSetFileMotificationTime set db filename filetime).2 then none
  else some (.fileupdateError filename)

/-- The problem `remove_file` reports. -/
def removeFileProblem (st : RemoveStatus) (c : Conn) (filename : Text) : Option Problem :=
  if (urlDbRemoveFile st c filename).2 then none else some (.removeFileError filename)

/-- The problem `main` reports after `sqlite3_close`; `SQLITE_OK` is `0`. -/
def closeProblem (closeStatus : ℤ) : Option Problem :=
  if closeStatus ≠ 0 then some (.closeError closeStatus) else none

/-- A run of a code path that may report a problem. -/
inductive Occasion
  | dispatchUrl (w : System) (o : Outcomes) (url package : Text) (pid : Option ℤ)
  | testUrl (w : System) (o : Outcomes) (urls : List Text) (pid : Option ℤ)
  | eachUrl (st : Status) (db : Database) (filename : Text) (value : JsonNode)
  | checkFile (get set : Status) (db : Database) (filename : Text) (filetime : ℤ)
  | removeFile (st : RemoveStatus) (c : Conn) (filename : Text)
  | close (closeStatus : ℤ)

namespace Occasion

/-- The problems that are reported. -/
def problems : Occasion → List Problem
  | dispatchUrl w o url package pid =>
    (UrlDispatcher.dispatchUrl w o url package).problems.filterMap (recoverableProblemFile pid)
  | testUrl w o urls pid =>
    (UrlDispatcher.testUrl w o urls).problems.filterMap (recoverableProblemFile pid)
  | eachUrl st db filename value => (eachUrlProblem st db filename value).toList
  | checkFile get set db filename filetime => (checkFileProblem get set db filename filetime).toList
  | removeFile st c filename => (removeFileProblem st c filename).toList
  | close closeStatus => (closeProblem closeStatus).toList

/-- The strings that come in are C strings. -/
def CStrings : Occasion → Prop
  | dispatchUrl _ _ url _ _ => IsCString url
  | testUrl _ _ urls _ => ∀ url ∈ urls, IsCString url
  | eachUrl _ _ filename value => IsCString filename ∧ ∀ members name s, value = .object members →
      jsonObjectGetStringMember members name = some s → IsCString s
  | checkFile _ _ _ filename _ => IsCString filename
  | removeFile _ _ filename => IsCString filename
  | close _ => True

/-- Every report that gets through to the reporter decodes to what is reported. -/
def ReportsDecode (x : Occasion) : Prop :=
  ∀ p ∈ x.problems, ∀ env r bytes, p.report env = some r → r.stdin = some bytes → p.Decodes bytes

/-- `TestURL` gets a URL, or the PID of its sender is not known; and the element to store has a
suffix, or it is stored or refused. -/
def Complete : Occasion → Prop
  | testUrl _ _ urls pid => pid = none ∨ (urls ≠ [] ∧ urls.head? ≠ some [])
  | eachUrl st _ _ value => st = .done ∨ ∀ members protocol, value = .object members →
      members.lookup "protocol".toList = some (.string protocol) → protocol ≠ "intent".toList →
        ∃ s, members.lookup "domain-suffix".toList = some (.string s)
  | _ => True

end Occasion

/-! ### The values reported -/

theorem isCString_printfInt (z : ℤ) : IsCString (printfInt z) := by
  have hdigits : ∀ n : ℕ, nul ∉ n.repr.toList := by
    intro n hmem
    rw [Nat.toList_repr] at hmem
    have hdigit := Nat.isDigit_of_mem_toDigits (by decide) (by decide) hmem
    revert hdigit
    decide
  intro hmem
  cases z with
  | ofNat n => exact hdigits n hmem
  | negSucc n =>
    have hmem : nul ∈ ("-" ++ (n + 1).repr).toList := hmem
    rw [String.toList_append, List.mem_append] at hmem
    rcases hmem with hmem | hmem
    · revert hmem
      decide
    · exact hdigits _ hmem

/-- What `TestURL` asks about: nothing, the URL that is missing, or one of those it got. -/
theorem testUrl_problems (w : System) (o : Outcomes) (urls : List Text) :
    ((urls = [] ∨ urls.head? = some []) ∧ (testUrl w o urls).problems = [none]) ∨
      (urls ≠ [] ∧ urls.head? ≠ some [] ∧ ∀ u ∈ (testUrl w o urls).problems,
        ∃ url ∈ urls, u = some url) := by
  rcases urls with _ | ⟨_ | ⟨c, cs⟩, urls⟩
  · exact .inl ⟨.inl rfl, rfl⟩
  · exact .inl ⟨.inr rfl, rfl⟩
  · refine .inr ⟨List.cons_ne_nil _ _, by simp, ?_⟩
    rw [testUrl, testUrlCb]
    obtain ⟨rs, -, hloop⟩ | ⟨url, hmem, -, hloop⟩ := testUrlLoop_cases w [] ((c :: cs) :: urls)
    · rw [hloop]
      intro u hu
      cases hu
    · rw [hloop]
      intro u hu
      exact ⟨url, hmem, List.mem_singleton.1 hu⟩

/-- `each_url` reports only what it could not store. -/
theorem eachUrlProblem_eq_some {st : Status} {db : Database} {filename : Text} {value : JsonNode}
    {p : Problem} : eachUrlProblem st db filename value = some p ↔
      st = .error ∧ ∃ members protocol, value = .object members ∧
        jsonObjectGetStringMember members "protocol".toList = some protocol ∧
        ¬ (protocol = "intent".toList ∧
          jsonObjectGetStringMember members "domain-suffix".toList = none) ∧
        p = .insertError filename protocol
          (jsonObjectGetStringMember members "domain-suffix".toList) := by
  cases value with
  | object members =>
    simp only [eachUrlProblem, JsonNode.object.injEq]
    cases hp : jsonObjectGetStringMember members "protocol".toList with
    | none =>
      refine iff_of_false (by rintro ⟨⟩) ?_
      rintro ⟨-, _, protocol, rfl, he, -⟩
      rw [hp] at he
      cases he
    | some protocol =>
      dsimp only
      constructor
      · intro h
        rw [Option.ite_none_left_eq_some, Option.ite_none_left_eq_some, Option.some.injEq] at h
        obtain ⟨hintent, hst, rfl⟩ := h
        cases st with
        | done => exact absurd rfl hst
        | error => exact ⟨rfl, members, protocol, rfl, hp, hintent, rfl⟩
      · rintro ⟨rfl, _, protocol', rfl, he, hintent, rfl⟩
        obtain rfl : protocol = protocol' := Option.some.inj (hp.symm.trans he)
        rw [if_neg hintent]
        rfl
  | array _ => exact iff_of_false (by rintro ⟨⟩) (by rintro ⟨-, _, _, ⟨⟩, -⟩)
  | string _ => exact iff_of_false (by rintro ⟨⟩) (by rintro ⟨-, _, _, ⟨⟩, -⟩)
  | scalar => exact iff_of_false (by rintro ⟨⟩) (by rintro ⟨-, _, _, ⟨⟩, -⟩)

theorem mem_recoverableProblemFile {us : List (Option Text)} {pid : Option ℤ} {p : Problem} :
    p ∈ us.filterMap (recoverableProblemFile pid) ↔
      ∃ u ∈ us, ∃ i, pid = some i ∧ p = .badUrl i u := by
  simp only [List.mem_filterMap, recoverableProblemFile, Option.map_eq_some_iff]
  constructor
  · rintro ⟨u, hu, i, hi, rfl⟩
    exact ⟨u, hu, i, hi, rfl⟩
  · rintro ⟨u, hu, i, hi, rfl⟩
    exact ⟨u, hu, i, hi, rfl⟩

theorem checkFileProblem_eq_some {get set : Status} {db : Database} {filename : Text} {filetime : ℤ}
    {p : Problem} (h : checkFileProblem get set db filename filetime = some p) :
    p = .fileupdateError filename := by
  rw [checkFileProblem, Option.ite_none_left_eq_some, Option.ite_none_left_eq_some,
    Option.some.injEq] at h
  exact h.2.2.symm

theorem removeFileProblem_eq_some {st : RemoveStatus} {c : Conn} {filename : Text} {p : Problem}
    (h : removeFileProblem st c filename = some p) : p = .removeFileError filename := by
  rw [removeFileProblem, Option.ite_none_left_eq_some, Option.some.injEq] at h
  exact h.2.symm

theorem closeProblem_eq_some {closeStatus : ℤ} {p : Problem}
    (h : closeProblem closeStatus = some p) : p = .closeError closeStatus := by
  rw [closeProblem, Option.ite_none_right_eq_some, Option.some.injEq] at h
  exact h.2.symm

theorem Problem.cStrings_badUrl {i : ℤ} {u : Option Text} :
    (Problem.badUrl i u).CStrings ↔ ∀ url, u = some url → IsCString url :=
  List.forall_mem_singleton

theorem Problem.values_badUrl {i : ℤ} {u : Option Text} :
    (∀ f ∈ (Problem.badUrl i u).named, f.2 ≠ none) ↔ u ≠ none :=
  List.forall_mem_singleton

theorem Problem.values_insertError {filename protocol : Text} {suffix : Option Text} :
    (∀ f ∈ (Problem.insertError filename protocol suffix).named, f.2 ≠ none) ↔ suffix ≠ none := by
  simp [Problem.named]

namespace Occasion

variable {x : Occasion}

/-- What is reported is made of what comes in. -/
theorem cStrings_of_mem_problems (h : x.CStrings) : ∀ p ∈ x.problems, p.CStrings := by
  intro p hp
  cases x with
  | dispatchUrl w o url package pid =>
    obtain ⟨u, hu, i, -, rfl⟩ := mem_recoverableProblemFile.1 hp
    rw [dispatchUrl_problems] at hu
    split_ifs at hu
    · rw [List.mem_singleton.1 hu, Problem.cStrings_badUrl]
      rintro _ ⟨⟩
      exact h
    · cases hu
  | testUrl w o urls pid =>
    obtain ⟨u, hu, i, -, rfl⟩ := mem_recoverableProblemFile.1 hp
    rw [Problem.cStrings_badUrl]
    obtain ⟨-, hnone⟩ | ⟨-, -, hsome⟩ := testUrl_problems w o urls
    · rw [hnone, List.mem_singleton] at hu
      rw [hu]
      rintro _ ⟨⟩
    · obtain ⟨url, hurl, rfl⟩ := hsome u hu
      rintro _ ⟨⟩
      exact h url hurl
  | eachUrl st db filename value =>
    obtain ⟨-, members, protocol, hv, hprotocol, -, rfl⟩ :=
      eachUrlProblem_eq_some.1 (Option.mem_toList.1 hp)
    obtain ⟨hfilename, hvalue⟩ := h
    refine List.forall_mem_cons.2 ⟨?_, List.forall_mem_cons.2 ⟨?_, List.forall_mem_singleton.2 ?_⟩⟩
    · rintro _ ⟨⟩
      exact hfilename
    · rintro _ ⟨⟩
      exact hvalue members _ _ hv hprotocol
    · exact fun s hs => hvalue members _ s hv hs
  | checkFile get set db filename filetime =>
    obtain rfl := checkFileProblem_eq_some (Option.mem_toList.1 hp)
    refine List.forall_mem_singleton.2 ?_
    rintro _ ⟨⟩
    exact h
  | removeFile st c filename =>
    obtain rfl := removeFileProblem_eq_some (Option.mem_toList.1 hp)
    refine List.forall_mem_singleton.2 ?_
    rintro _ ⟨⟩
    exact h
  | close closeStatus =>
    obtain rfl := closeProblem_eq_some (Option.mem_toList.1 hp)
    refine List.forall_mem_singleton.2 ?_
    rintro _ ⟨⟩
    exact isCString_printfInt closeStatus

/-- `TestURL` reports a URL that is missing as one, if the PID is known. -/
theorem values_testUrl_iff {w : System} {o : Outcomes} {urls : List Text} {pid : Option ℤ} :
    (∀ p ∈ (testUrl w o urls pid).problems, ∀ f ∈ p.named, f.2 ≠ none) ↔
      (testUrl w o urls pid).Complete := by
  have hcases := testUrl_problems w o urls
  constructor
  · intro hall
    cases pid with
    | none => exact .inl rfl
    | some i =>
      obtain ⟨-, hnone⟩ | ⟨hne, hhead, -⟩ := hcases
      · have hmem : Problem.badUrl i none ∈ (testUrl w o urls (some i)).problems :=
          mem_recoverableProblemFile.2 ⟨none, hnone ▸ List.mem_cons_self, i, rfl, rfl⟩
        exact absurd rfl (Problem.values_badUrl.1 (hall _ hmem))
      · exact .inr ⟨hne, hhead⟩
  · intro hc p hp
    obtain ⟨u, hu, i, rfl, rfl⟩ := mem_recoverableProblemFile.1 hp
    obtain ⟨hne, hhead⟩ := hc.resolve_left (Option.some_ne_none i)
    obtain ⟨hmissing, -⟩ | ⟨-, -, hsome⟩ := hcases
    · exact (hmissing.elim hne hhead).elim
    · obtain ⟨url, -, rfl⟩ := hsome u hu
      exact Problem.values_badUrl.2 (Option.some_ne_none url)

/-- `each_url` reports the suffix it got from the element. -/
theorem values_eachUrl_iff {st : Status} {db : Database} {filename : Text} {value : JsonNode} :
    (∀ p ∈ (eachUrl st db filename value).problems, ∀ f ∈ p.named, f.2 ≠ none) ↔
      (eachUrl st db filename value).Complete := by
  constructor
  · intro hall
    cases st with
    | done => exact .inl rfl
    | error =>
      refine .inr fun members protocol hv hprotocol hintent => ?_
      by_contra hno
      have hsuffix := jsonObjectGetStringMember_eq_none.2 (not_exists.1 hno)
      have hproblem : eachUrlProblem .error db filename value =
          some (.insertError filename protocol none) :=
        eachUrlProblem_eq_some.2 ⟨rfl, members, protocol, hv,
          jsonObjectGetStringMember_eq_some.2 hprotocol, fun h => hintent h.1, by rw [hsuffix]⟩
      exact absurd rfl (Problem.values_insertError.1 (hall _ (Option.mem_toList.2 hproblem)))
  · intro hc p hp
    obtain ⟨rfl, members, protocol, hv, hprotocol, hrefused, rfl⟩ :=
      eachUrlProblem_eq_some.1 (Option.mem_toList.1 hp)
    rw [Problem.values_insertError]
    intro hsuffix
    obtain ⟨s, hs⟩ := hc.resolve_left (by rintro ⟨⟩) members protocol hv
      (jsonObjectGetStringMember_eq_some.1 hprotocol) fun hintent => hrefused ⟨hintent, hsuffix⟩
    exact jsonObjectGetStringMember_eq_none.1 hsuffix s hs

/-- A missing URL or suffix is the only value that can be `NULL`. -/
theorem values_iff : (∀ p ∈ x.problems, ∀ f ∈ p.named, f.2 ≠ none) ↔ x.Complete := by
  cases x with
  | dispatchUrl w o url package pid =>
    refine iff_of_true (fun p hp => ?_) trivial
    obtain ⟨u, hu, i, -, rfl⟩ := mem_recoverableProblemFile.1 hp
    rw [dispatchUrl_problems] at hu
    split_ifs at hu
    · rw [List.mem_singleton.1 hu]
      exact Problem.values_badUrl.2 (Option.some_ne_none url)
    · cases hu
  | testUrl w o urls pid => exact values_testUrl_iff
  | eachUrl st db filename value => exact values_eachUrl_iff
  | checkFile get set db filename filetime =>
    refine iff_of_true (fun p hp => ?_) trivial
    obtain rfl := checkFileProblem_eq_some (Option.mem_toList.1 hp)
    exact List.forall_mem_singleton.2 (Option.some_ne_none filename)
  | removeFile st c filename =>
    refine iff_of_true (fun p hp => ?_) trivial
    obtain rfl := removeFileProblem_eq_some (Option.mem_toList.1 hp)
    exact List.forall_mem_singleton.2 (Option.some_ne_none filename)
  | close closeStatus =>
    refine iff_of_true (fun p hp => ?_) trivial
    obtain rfl := closeProblem_eq_some (Option.mem_toList.1 hp)
    exact List.forall_mem_singleton.2 (Option.some_ne_none _)

/-- **Reports decode exactly if** the input is complete: `TestURL` gets a URL to report, and an
element that cannot be stored has a suffix. -/
theorem reportsDecode_iff (x : Occasion) (h : x.CStrings) : x.ReportsDecode ↔ x.Complete := by
  rw [← values_iff]
  refine forall_congr' fun p => forall_congr' fun hp => ?_
  rw [← p.decodes_iff (cStrings_of_mem_problems h p hp)]
  constructor
  · intro hall
    cases p <;> exact hall ⟨false, true⟩ _ _ rfl rfl
  · intro hdec env r bytes hr hb
    rwa [Problem.stdin_of_report hr hb]

/-- A URL without a handler is reported. -/
theorem reportsDecode_fooUrl :
    (testUrl (plainSystem Database.empty []) ⟨true, none, none, none, none⟩
      ["http://foo.com".toList] (some 7)).ReportsDecode :=
  (reportsDecode_iff (testUrl (plainSystem Database.empty []) ⟨true, none, none, none, none⟩
    ["http://foo.com".toList] (some 7)) (List.forall_mem_singleton.2 (by decide))).2
    (.inr ⟨List.cons_ne_nil _ _, by decide⟩)

/-- `TestURL` without URLs is reported as `BadURL` without a value. -/
theorem not_reportsDecode_nil : ¬ ∀ x : Occasion, x.CStrings → x.ReportsDecode := by
  intro hall
  have hdec := hall
    (testUrl (plainSystem Database.empty []) ⟨true, none, none, none, none⟩ [] (some 7))
    (fun _ hu => absurd hu List.not_mem_nil) (.badUrl 7 none) List.mem_cons_self ⟨false, true⟩ _ _
    rfl rfl
  refine (Problem.decodes_iff ?_).1 hdec _ List.mem_cons_self rfl
  rw [Problem.cStrings_badUrl]
  rintro _ ⟨⟩

/-- The report of an entry without a suffix ends in a key. -/
example : (writeReport (some "s".toList)
    (some (Problem.insertError "f".toList "http".toList none).additional)).splitOn nul =
    ["DuplicateSignature".toList, "s".toList, "Filename".toList, "f".toList, "Protocol".toList,
      "http".toList, "Suffix".toList] := by decide

end Occasion

end UrlDispatcher
