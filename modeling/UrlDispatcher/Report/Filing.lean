import UrlDispatcher.Report.Occasion

/-!
# Reports about senders

For a bad URL the service replies at once, and asks the bus for the PID of the sender.  The answer
may come any time later, among other requests and other answers, or be an error, if the sender is
gone by then.  Only with the answer is the problem reported, by `recoverable_problem_file`, if the
service is still there.

* `Request.map_problems` : the URLs that are asked about are those of the `BadURL` errors replied.
* `Filing.filed_of_run` : every `BadURL` error is answered for at most once, and every report is
  that of one of them, with the PID of its sender.
-/

namespace UrlDispatcher

open Machine

/-! ### Requests -/

/-- A request to the service. -/
inductive Request
  | dispatchUrl (url package : Text)
  | testUrl (urls : List Text)

/-- What the service does for it. -/
def Request.call (w : System) (o : Outcomes) : Request → Call
  | .dispatchUrl url package => UrlDispatcher.dispatchUrl w o url package
  | .testUrl urls => UrlDispatcher.testUrl w o urls

/-- The reply is the error `BadURL`. -/
def Reply.isBadUrl : Reply → Bool
  | .returnError name _ => decide (name = UrlDispatcherError.badUrl.name)
  | _ => false

theorem isBadUrl_badUrlReply (url : Option Text) : (badUrlReply url).isBadUrl = true := by
  rw [badUrlReply, Reply.isBadUrl]
  exact decide_eq_true rfl

theorem isBadUrl_restrictedReply (url package : Text) :
    (restrictedReply url package).isBadUrl = false := by
  rw [restrictedReply, Reply.isBadUrl]
  decide

/-- The service asks for the PID of the sender once for each `BadURL` error, in that order. -/
theorem Request.map_problems (w : System) (o : Outcomes) (q : Request) :
    (q.call w o).problems.map badUrlReply = (q.call w o).replies.filter Reply.isBadUrl := by
  cases q with
  | dispatchUrl url package =>
    have hbad := isBadUrl_badUrlReply (some url)
    rw [Request.call]
    obtain ⟨-, h⟩ | ⟨r, -, -, h⟩ | ⟨r, -, -, -, -, c, a, hsent, h⟩ |
      ⟨r, -, -, -, -, c, hun, h⟩ | ⟨r, -, -, -, -, h⟩ :=
        UrlDispatcher.dispatchUrl_cases w o url package
    all_goals rw [h]
    · simp [hbad]
    · simp [isBadUrl_restrictedReply, Outcomes.start]
    · simp [hsent.problems, Reply.isBadUrl]
    · rw [List.filter_cons_of_pos hbad]
      rfl
    · rfl
  | testUrl urls =>
    rw [Request.call]
    obtain ⟨rs, -, -, h⟩ | ⟨-, url, h⟩ := UrlDispatcher.testUrl_cases w o urls
    · simp [h, Reply.isBadUrl, Outcomes.start]
    · simp [h, isBadUrl_badUrlReply]

/-! ### The service and the bus -/

/-- The lookups of PIDs on their way, each with its sender and URL, and the problems reported. -/
structure Filing (κ : Type*) where
  asked : List (κ × Option Text)
  filed : List Report
  /-- The service has died. -/
  gone : Bool

/-- What can happen. -/
inductive FilingEvent (κ : Type*)
  /-- A sender makes a request. -/
  | request (k : κ) (w : System) (o : Outcomes) (q : Request)
  /-- The bus answers a lookup, `none` for an error. -/
  | answer (k : κ) (badurl : Option Text) (pid : Option ℤ) (env : Reporter)

namespace FilingEvent

variable {κ : Type*}

/-- The `BadURL` errors of an event, each by its sender and URL. -/
def refused : FilingEvent κ → List (κ × Option Text)
  | .request k w o q => (q.call w o).problems.map fun badurl => (k, badurl)
  | _ => []

/-- The lookup an event answers. -/
def answered : FilingEvent κ → List (κ × Option Text)
  | .answer k badurl _ _ => [(k, badurl)]
  | _ => []

/-- The report of an event. -/
def report : FilingEvent κ → Option Report
  | .answer _ badurl pid env => (recoverableProblemFile pid badurl).bind fun p => p.report env
  | _ => none

end FilingEvent

namespace Filing

variable {κ : Type*} [DecidableEq κ]

/-- The next state. -/
def step (s : Filing κ) (e : FilingEvent κ) : Option (Filing κ) :=
  if s.gone then none
  else
    match e with
    | .request _ w o q =>
      some { s with asked := s.asked ++ e.refused, gone := (q.call w o).crashed }
    | .answer k badurl _ _ =>
      if (k, badurl) ∈ s.asked then
        some { s with asked := s.asked.erase (k, badurl), filed := s.filed ++ e.report.toList }
      else none

/-- The bus knows the PID of a sender, or answers with an error. -/
def KnowsPid (pidOf : κ → ℤ) (_ : Filing κ) : FilingEvent κ → Prop
  | .answer k _ pid _ => ∀ i, pid = some i → i = pidOf k
  | _ => True

/-- The report is that of the `BadURL` error, with the PID of the sender. -/
def ReportOf (pidOf : κ → ℤ) (b : κ × Option Text) (r : Report) : Prop :=
  ∃ env, (Problem.badUrl (pidOf b.1) b.2).report env = some r

variable {pidOf : κ → ℤ} {s s' : Filing κ} {e : FilingEvent κ} {es : List (FilingEvent κ)}

/-- One step: a lookup that is answered is no longer on its way. -/
theorem asked_of_step (h : s.step e = some s') :
    (s.asked ++ e.refused).Perm (e.answered ++ s'.asked) := by
  rw [step.eq_def, Option.ite_none_left_eq_some] at h
  obtain ⟨-, h⟩ := h
  cases e with
  | request k w o q =>
    cases h
    simp [FilingEvent.answered]
  | answer k badurl pid env =>
    rw [Option.ite_none_right_eq_some] at h
    obtain ⟨hmem, h⟩ := h
    cases h
    simpa [FilingEvent.refused, FilingEvent.answered] using List.perm_cons_erase hmem

theorem asked_of_run {G : Filing κ → FilingEvent κ → Prop} (h : Run step G s es s') :
    (s.asked ++ es.flatMap FilingEvent.refused).Perm
      (es.flatMap FilingEvent.answered ++ s'.asked) := by
  induction h with
  | nil => simp
  | @cons s s₁ s' e es _ hs _ ih =>
    have hstep := asked_of_step hs
    rw [List.flatMap_cons, List.flatMap_cons, List.append_assoc e.answered]
    have hfirst := hstep.append_right (es.flatMap FilingEvent.refused)
    have hrest := ih.append_left e.answered
    rw [List.append_assoc] at hfirst
    rw [← List.append_assoc] at hrest
    exact hfirst.trans hrest

/-- One step: at most one report is filed, for the lookup that is answered. -/
theorem filed_of_step (hG : KnowsPid pidOf s e) (h : s.step e = some s') :
    ∃ bs, bs.Sublist e.answered ∧ ∃ rs, s'.filed = s.filed ++ rs ∧
      List.Forall₂ (ReportOf pidOf) bs rs := by
  rw [step.eq_def, Option.ite_none_left_eq_some] at h
  obtain ⟨-, h⟩ := h
  cases e with
  | request k w o q =>
    cases h
    exact ⟨[], List.nil_sublist _, [], (List.append_nil _).symm, .nil⟩
  | answer k badurl pid env =>
    rw [Option.ite_none_right_eq_some] at h
    obtain ⟨-, h⟩ := h
    cases h
    cases hr : FilingEvent.report (.answer k badurl pid env) with
    | none => exact ⟨[], List.nil_sublist _, [], rfl, .nil⟩
    | some r =>
      refine ⟨_, List.Sublist.refl _, [r], rfl, .cons ⟨env, ?_⟩ .nil⟩
      obtain ⟨p, hp, hr⟩ := Option.bind_eq_some_iff.1 hr
      obtain ⟨i, rfl, rfl⟩ := Option.map_eq_some_iff.1 hp
      rw [← hG i rfl]
      exact hr

theorem filed_of_steps (h : Run step (KnowsPid pidOf) s es s') :
    ∃ bs, bs.Sublist (es.flatMap FilingEvent.answered) ∧ ∃ rs, s'.filed = s.filed ++ rs ∧
      List.Forall₂ (ReportOf pidOf) bs rs := by
  induction h with
  | nil => exact ⟨[], List.nil_sublist _, [], (List.append_nil _).symm, .nil⟩
  | @cons s s₁ s' e es hG hs _ ih =>
    obtain ⟨bs, hbs, rs, hrs, hall⟩ := filed_of_step hG hs
    obtain ⟨bs', hbs', rs', hrs', hall'⟩ := ih
    refine ⟨bs ++ bs', ?_, rs ++ rs', ?_, List.rel_append hall hall'⟩
    · rw [List.flatMap_cons]
      exact hbs.append hbs'
    · rw [hrs', hrs, List.append_assoc]

/-- **Reports about senders.**  In every run, with requests and answers in any order: the `BadURL`
errors replied so far are those whose lookups have been answered and those on their way; the reports
filed are one each for some of the former, with the PID of the sender; and a report that gets
through says which URL it was, unless none was given. -/
theorem filed_of_run (h : Run step (KnowsPid pidOf) ⟨[], [], false⟩ es s) :
    (∀ k w o q, .request k w o q ∈ es →
      (FilingEvent.request k w o q).refused.map (fun b => badUrlReply b.2) =
        (q.call w o).replies.filter Reply.isBadUrl) ∧
      (es.flatMap FilingEvent.refused).Perm (es.flatMap FilingEvent.answered ++ s.asked) ∧
      ∃ bs, bs.Sublist (es.flatMap FilingEvent.answered) ∧
        List.Forall₂ (fun b r => ReportOf pidOf b r ∧ ∀ bytes, r.stdin = some bytes →
          ∀ url, b.2 = some url → IsCString url →
            bytes.splitOn nul = ["DuplicateSignature".toList, "url-dispatcher-bad-url".toList,
              "BadURL".toList, url]) bs s.filed := by
  refine ⟨fun k w o q _ => ?_, asked_of_run h, ?_⟩
  · rw [← q.map_problems, FilingEvent.refused, List.map_map]
    rfl
  obtain ⟨bs, hbs, rs, hrs, hall⟩ := filed_of_steps h
  obtain rfl : s.filed = rs := hrs
  refine ⟨bs, hbs, hall.imp fun b r hr => ⟨hr, fun bytes hbytes url hurl hc => ?_⟩⟩
  obtain ⟨env, hr⟩ := hr
  rw [Problem.stdin_of_report hr hbytes, hurl]
  refine splitOn_report (Problem.isCString_signature _) ?_
  simp only [Problem.additional, untilNull, List.forall_mem_cons]
  exact ⟨by decide, hc, fun _ h => absurd h List.not_mem_nil⟩

/-- Two senders make a bad request each, and one is gone when it is asked about. -/
def twoSenders : List (FilingEvent Bool) :=
  [.request false (plainSystem .empty []) ⟨true, none, none, none, none⟩ (.testUrl []),
    .request true (plainSystem .empty []) ⟨true, none, none, none, none⟩
      (.dispatchUrl "foo".toList []),
    .answer true (some "foo".toList) (some 7) ⟨false, true⟩, .answer false none none ⟨false, true⟩]

/-- An answer with a process id is the one the bus knows. -/
def knowsSeven : FilingEvent Bool → Bool
  | .request _ _ _ _ => true
  | .answer _ _ pid _ => pid.all fun i => decide (i = 7)

/-- The other one is reported. -/
theorem filed_of_run_twoSenders : ∃ s : Filing Bool, run step ⟨[], [], false⟩ twoSenders = some s ∧
    s.filed.length = 1 ∧ ∃ bs, List.Forall₂ (ReportOf fun _ : Bool => 7) bs s.filed := by
  obtain ⟨s, hs⟩ := Option.isSome_iff_exists.1
    (show (run (fun (s : Filing Bool) e => if knowsSeven e then step s e else none)
      ⟨[], [], false⟩ twoSenders).isSome by decide)
  have hrun : Run step (KnowsPid fun _ : Bool => 7) ⟨[], [], false⟩ twoSenders s := by
    refine .of_run (g := fun _ e => knowsSeven e) (fun s e hg => ?_) hs
    cases e with
    | request k w o q => trivial
    | answer k badurl pid env =>
      rintro i rfl
      exact of_decide_eq_true hg
  have hlength : (run step ⟨[], [], false⟩ twoSenders).map (fun s => s.filed.length) = some 1 := by
    decide
  rw [hrun.run_eq, Option.map_some, Option.some.injEq] at hlength
  obtain ⟨-, -, bs, -, hall⟩ := filed_of_run hrun
  exact ⟨s, hrun.run_eq, hlength, bs, hall.imp fun _ _ h => h.1⟩

end Filing

end UrlDispatcher
