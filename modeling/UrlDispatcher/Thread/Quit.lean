import UrlDispatcher.Machine.Basic
import Mathlib.Tactic.SplitIfs

/-!
# Quitting a context thread

`ContextThread` runs a main loop on a thread of its own, the worker.  The worker publishes its
context and its loop, which lets the constructor return; then it tests the cancellable, and runs the
loop unless the test finds it cancelled.  `quit` cancels, quits the loop and joins the worker.
Quitting a loop that does not run yet has no effect, since `g_main_loop_run` sets the flag that
`g_main_loop_quit` clears.

`ContextThread.step` has every step of the worker, of any number of calls of `quit` (the destructor
is one) and of any number of posts of `executeOnThread`, in any order.

* `Missed` : a call of `quit` waits for a worker whose loop nobody is going to quit.
* `Missed.step` : it waits forever.
* `not_missed_of_run` : no request is missed in the runs in which the last `g_main_loop_quit` does
  not fall between the worker's test and its loop; and where it does, the request is missed as soon
  as the worker goes on.
-/

namespace UrlDispatcher

open Machine

/-- Where the worker is. -/
inductive Worker (κ : Type*)
  /-- Before `context_promise.set_value`. -/
  | starting
  /-- Before `g_cancellable_is_cancelled`. -/
  | published
  /-- The cancellable was not cancelled; before `g_main_loop_run`. -/
  | entering
  /-- In the loop, before its flag is looked at. -/
  | polling
  /-- In the loop, before the work items of one iteration. -/
  | dispatching (items : List κ)
  /-- Before `afterLoop`. -/
  | leaving
  /-- After `afterLoop`. -/
  | finished

/-- The worker is inside `g_main_loop_run`. -/
def Worker.inLoop {κ : Type*} : Worker κ → Bool
  | polling => true
  | dispatching _ => true
  | _ => false

/-- Where a call of `quit` is. -/
inductive Quit
  /-- Before `g_cancellable_cancel`; it may not have been made yet. -/
  | cancelling
  /-- Before `g_main_loop_quit`. -/
  | quitting
  /-- Before or in `join`. -/
  | joining
  | returned
deriving DecidableEq

/-- Its `g_main_loop_quit` is still to come. -/
def Quit.toCome : Quit → Bool
  | cancelling => true
  | quitting => true
  | _ => false

/-- Where a call of `executeOnThread` is. -/
inductive Post
  /-- Before `isCancelled`. -/
  | testing
  /-- Before `g_source_attach`. -/
  | attaching
  | posted
  /-- It has thrown, since the thread is shutting down. -/
  | refused
deriving DecidableEq

/-- The thread, with the calls of `quit` from other threads and of `executeOnThread` that are ever
made. -/
structure ContextThread (ι κ : Type*) where
  worker : Worker κ
  /-- The constructor has returned, and `_loop` is set. -/
  constructed : Bool
  cancelled : Bool
  /-- The flag of the loop. -/
  running : Bool
  quits : ι → Quit
  posts : κ → Post
  /-- The sources attached to the context. -/
  sources : List κ
  /-- The work items that have run. -/
  executed : List κ

/-- A step of one of the threads. -/
inductive ThreadEvent (ι κ : Type*)
  /-- The worker runs `beforeLoop` and publishes its context and its loop. -/
  | publish
  /-- The constructor returns. -/
  | construct
  /-- The worker tests the cancellable. -/
  | test
  /-- The worker enters `g_main_loop_run`. -/
  | enter
  /-- The worker looks at the flag, and takes the sources that are ready or leaves the loop. -/
  | iterate
  /-- The worker runs the next work item, or ends the iteration. -/
  | dispatch
  | afterLoop
  | cancel (i : ι)
  | quitLoop (i : ι)
  | join (i : ι)
  /-- A post tests the cancellable. -/
  | testPost (k : κ)
  /-- A post attaches its source. -/
  | attach (k : κ)

namespace ContextThread

variable {ι κ : Type*}

/-- The thread when its constructor starts it. -/
def init : ContextThread ι κ where
  worker := .starting
  constructed := false
  cancelled := false
  running := false
  quits := fun _ => .cancelling
  posts := fun _ => .testing
  sources := []
  executed := []

section Steps

variable [DecidableEq ι]

/-- The call `i` of `quit` gets on. -/
def setQuit (s : ContextThread ι κ) (i : ι) (q : Quit) : ContextThread ι κ :=
  { s with quits := Function.update s.quits i q }

theorem quits_setQuit_self (s : ContextThread ι κ) (i : ι) (q : Quit) :
    (s.setQuit i q).quits i = q := by
  simp only [setQuit, Function.update_self]

theorem quits_setQuit_of_ne (s : ContextThread ι κ) {i j : ι} (q : Quit) (h : j ≠ i) :
    (s.setQuit i q).quits j = s.quits j := by
  simp only [setQuit, ne_eq, h, not_false_eq_true, Function.update_of_ne]

variable [DecidableEq κ]

/-- The call `k` of `executeOnThread` gets on. -/
def setPost (s : ContextThread ι κ) (k : κ) (p : Post) : ContextThread ι κ :=
  { s with posts := Function.update s.posts k p }

/-- The next state. -/
def step (s : ContextThread ι κ) : ThreadEvent ι κ → Option (ContextThread ι κ)
  | .publish =>
    match s.worker with
    | .starting => some { s with worker := .published }
    | _ => none
  | .construct =>
    match s.worker with
    | .starting => none  -- the promise is not set
    | _ => if s.constructed then none else some { s with constructed := true }
  | .test =>
    match s.worker with
    | .published => some { s with worker := if s.cancelled then .leaving else .entering }
    | _ => none
  | .enter =>
    match s.worker with
    | .entering => some { s with worker := .polling, running := true }
    | _ => none
  | .iterate =>
    match s.worker with
    | .polling =>
      if s.running then some { s with worker := .dispatching s.sources, sources := [] }
      else some { s with worker := .leaving }
    | _ => none
  | .dispatch =>
    match s.worker with
    | .dispatching (k :: items) =>
      some { s with worker := .dispatching items, executed := s.executed ++ [k] }
    | .dispatching [] => some { s with worker := .polling }
    | _ => none
  | .afterLoop =>
    match s.worker with
    | .leaving => some { s with worker := .finished }
    | _ => none
  | .cancel i =>
    if s.constructed ∧ s.quits i = .cancelling then
      some { s.setQuit i .quitting with cancelled := true }
    else none
  | .quitLoop i =>
    if s.quits i = .quitting then some { s.setQuit i .joining with running := false } else none
  | .join i =>
    match s.worker with
    | .finished => if s.quits i = .joining then some (s.setQuit i .returned) else none
    | _ => none
  | .testPost k =>
    if s.constructed ∧ s.posts k = .testing then
      some (s.setPost k (if s.cancelled then .refused else .attaching))
    else none
  | .attach k =>
    if s.posts k = .attaching then
      some { s.setPost k .posted with sources := s.sources ++ [k] }
    else none

/-- What a step can do. -/
inductive Step (s : ContextThread ι κ) : ThreadEvent ι κ → ContextThread ι κ → Prop
  | publish (h : s.worker = .starting) : Step s .publish { s with worker := .published }
  | construct (h : s.worker ≠ .starting) (hc : s.constructed = false) :
      Step s .construct { s with constructed := true }
  | testCancelled (h : s.worker = .published) (hc : s.cancelled = true) :
      Step s .test { s with worker := .leaving }
  | test (h : s.worker = .published) (hc : s.cancelled = false) :
      Step s .test { s with worker := .entering }
  | enter (h : s.worker = .entering) : Step s .enter { s with worker := .polling, running := true }
  | iterate (h : s.worker = .polling) (hr : s.running = true) :
      Step s .iterate { s with worker := .dispatching s.sources, sources := [] }
  | leave (h : s.worker = .polling) (hr : s.running = false) :
      Step s .iterate { s with worker := .leaving }
  | dispatch (k : κ) (items : List κ) (h : s.worker = .dispatching (k :: items)) :
      Step s .dispatch { s with worker := .dispatching items, executed := s.executed ++ [k] }
  | endIteration (h : s.worker = .dispatching []) : Step s .dispatch { s with worker := .polling }
  | afterLoop (h : s.worker = .leaving) : Step s .afterLoop { s with worker := .finished }
  | cancel (i : ι) (hc : s.constructed = true) (h : s.quits i = .cancelling) :
      Step s (.cancel i) { s.setQuit i .quitting with cancelled := true }
  | quitLoop (i : ι) (h : s.quits i = .quitting) :
      Step s (.quitLoop i) { s.setQuit i .joining with running := false }
  | join (i : ι) (h : s.worker = .finished) (hj : s.quits i = .joining) :
      Step s (.join i) (s.setQuit i .returned)
  | testPost (k : κ) (hc : s.constructed = true) (h : s.posts k = .testing) :
      Step s (.testPost k) (s.setPost k (if s.cancelled then .refused else .attaching))
  | attach (k : κ) (h : s.posts k = .attaching) :
      Step s (.attach k) { s.setPost k .posted with sources := s.sources ++ [k] }

/-- `Step` says everything a step can do. -/
theorem step_sound {s s' : ContextThread ι κ} {e : ThreadEvent ι κ} (h : s.step e = some s') :
    Step s e s' := by
  cases e with
  | publish =>
    rw [step] at h
    split at h <;> cases h
    exact .publish ‹_›
  | construct =>
    rw [step] at h
    split at h
    · cases h
    · split_ifs at h
      cases h
      exact .construct ‹_› (by simpa using ‹¬ s.constructed = true›)
  | test =>
    rw [step] at h
    split at h <;> cases h
    by_cases hc : s.cancelled = true
    · rw [if_pos hc]
      exact .testCancelled ‹_› hc
    · rw [if_neg hc]
      exact .test ‹_› (by simpa using hc)
  | enter =>
    rw [step] at h
    split at h <;> cases h
    exact .enter ‹_›
  | iterate =>
    rw [step] at h
    split at h
    · split_ifs at h with hr <;> cases h
      · exact .iterate ‹_› hr
      · exact .leave ‹_› (by simpa using hr)
    · cases h
  | dispatch =>
    rw [step] at h
    split at h <;> cases h
    · exact .dispatch _ _ ‹_›
    · exact .endIteration ‹_›
  | afterLoop =>
    rw [step] at h
    split at h <;> cases h
    exact .afterLoop ‹_›
  | cancel i =>
    rw [step, Option.ite_none_right_eq_some] at h
    obtain ⟨⟨hc, hq⟩, h⟩ := h
    cases h
    exact .cancel i hc hq
  | quitLoop i =>
    rw [step, Option.ite_none_right_eq_some] at h
    obtain ⟨hq, h⟩ := h
    cases h
    exact .quitLoop i hq
  | join i =>
    rw [step] at h
    split at h
    · rw [Option.ite_none_right_eq_some] at h
      obtain ⟨hq, h⟩ := h
      cases h
      exact .join i ‹_› hq
    · cases h
  | testPost k =>
    rw [step, Option.ite_none_right_eq_some] at h
    obtain ⟨⟨hc, hp⟩, h⟩ := h
    cases h
    exact .testPost k hc hp
  | attach k =>
    rw [step, Option.ite_none_right_eq_some] at h
    obtain ⟨hp, h⟩ := h
    cases h
    exact .attach k hp

end Steps

/-! ### Missed requests -/

/-- A call of `quit` waits for the worker, which is in its loop with the flag set, and no
`g_main_loop_quit` is to come. -/
structure Missed (s : ContextThread ι κ) : Prop where
  inLoop : s.worker.inLoop = true
  running : s.running = true
  joining : ∃ i, s.quits i = .joining
  last : ∀ i, (s.quits i).toCome = false

/-- A `g_main_loop_quit` that falls between the test of the cancellable and the loop is not the last
one. -/
def QuitsInTime (s : ContextThread ι κ) : ThreadEvent ι κ → Prop
  | .quitLoop i => s.worker = .entering → ∃ j, j ≠ i ∧ (s.quits j).toCome = true
  | _ => True

variable {s s' : ContextThread ι κ}

/-- The invariant: whoever has begun to quit has cancelled, and wherever the worker is on its way
into the loop or in it with the flag set, a thread that is past its `g_main_loop_quit` is not the
last. -/
structure Heeds (s : ContextThread ι κ) : Prop where
  cancelled : ∀ i, s.quits i ≠ .cancelling → s.cancelled = true
  entering : s.worker = .entering → ∀ i, (s.quits i).toCome = false →
    ∃ j, (s.quits j).toCome = true
  inLoop : s.worker.inLoop = true → s.running = true → ∀ i, (s.quits i).toCome = false →
    ∃ j, (s.quits j).toCome = true

theorem Heeds.not_missed (h : Heeds s) : ¬ Missed s := by
  intro hm
  obtain ⟨i, -⟩ := hm.joining
  obtain ⟨j, hj⟩ := h.inLoop hm.inLoop hm.running i (hm.last i)
  rw [hm.last j] at hj
  cases hj

theorem heeds_init : Heeds (init : ContextThread ι κ) where
  cancelled _ h := absurd rfl h
  entering h := by cases h
  inLoop h := by cases h

/-- Outside the window and the loop only the cancellation matters. -/
theorem Heeds.of_worker (h : Heeds s) (hq : s'.quits = s.quits) (hc : s'.cancelled = s.cancelled)
    (he : s'.worker ≠ .entering) (hl : s'.worker.inLoop = false) : Heeds s' where
  cancelled i hi := by
    rw [hq] at hi
    rw [hc]
    exact h.cancelled i hi
  entering hw := absurd hw he
  inLoop hw := by
    rw [hl] at hw
    cases hw

variable [DecidableEq ι]

/-- The call of `quit` that cancels is still to come. -/
theorem heeds_cancel (s : ContextThread ι κ) (i : ι) :
    Heeds { s.setQuit i .quitting with cancelled := true } := by
  have hcome : ((s.setQuit i .quitting).quits i).toCome = true := by
    rw [quits_setQuit_self]
    rfl
  exact ⟨fun _ _ => rfl, fun _ _ _ => ⟨i, hcome⟩, fun _ _ _ _ => ⟨i, hcome⟩⟩

/-- A call of `quit` clears the flag; in the window another one has to follow. -/
theorem Heeds.quitLoop {i : ι} (h : Heeds s) (hq : s.quits i = .quitting)
    (hG : QuitsInTime s (.quitLoop i)) :
    Heeds { s.setQuit i .joining with running := false } where
  cancelled j _ := h.cancelled i (by rw [hq]; rintro ⟨⟩)
  entering hw j _ := by
    obtain ⟨k, hk, hcome⟩ := hG hw
    refine ⟨k, ?_⟩
    dsimp only
    rwa [quits_setQuit_of_ne s _ hk]
  inLoop _ hr := by cases hr

variable [DecidableEq κ] {e : ThreadEvent ι κ}

theorem Heeds.step (h : Heeds s) (hG : QuitsInTime s e) (hs : s.step e = some s') : Heeds s' := by
  cases step_sound hs with
  | publish _ | testCancelled _ _ | leave _ _ | afterLoop _ =>
    exact h.of_worker rfl rfl (by rintro ⟨⟩) rfl
  | construct _ _ | testPost _ _ _ | attach _ _ => exact ⟨h.cancelled, h.entering, h.inLoop⟩
  | test hw hc =>
    -- nobody has cancelled, so every call is still to come
    refine ⟨h.cancelled, fun _ i hi => ?_, fun hl => by cases hl⟩
    by_cases hcome : s.quits i = .cancelling
    · rw [hcome] at hi
      cases hi
    · rw [h.cancelled i hcome] at hc
      cases hc
  | enter hw => exact ⟨h.cancelled, fun he => (by cases he), fun _ _ => h.entering hw⟩
  | iterate hw _ | dispatch _ _ hw | endIteration hw =>
    refine ⟨h.cancelled, fun he => (by cases he), fun _ => h.inLoop ?_⟩
    rw [hw]
    rfl
  | cancel i _ _ => exact heeds_cancel s i
  | quitLoop i hq => exact h.quitLoop hq hG
  | join i hw hj =>
    refine ⟨fun j hj' => ?_, fun he => ?_, fun hl => ?_⟩
    · exact h.cancelled i (by rw [hj]; rintro ⟨⟩)
    · have he : s.worker = .entering := he
      rw [hw] at he
      cases he
    · have hl : s.worker.inLoop = true := hl
      rw [hw] at hl
      cases hl

/-- **A missed request is missed forever**: the thread that waits never gets on. -/
theorem Missed.step (h : Missed s) (hs : s.step e = some s') : Missed s' := by
  have hloop := h.inLoop
  cases step_sound hs with
  | publish hw | testCancelled hw _ | test hw _ | enter hw | afterLoop hw | join _ hw _ =>
    rw [hw] at hloop
    cases hloop
  | construct _ _ | testPost _ _ _ | attach _ _ => exact ⟨h.inLoop, h.running, h.joining, h.last⟩
  | iterate _ _ | dispatch _ _ _ | endIteration _ => exact ⟨rfl, h.running, h.joining, h.last⟩
  | leave _ hr =>
    rw [h.running] at hr
    cases hr
  | cancel i _ hq | quitLoop i hq =>
    -- no call of `quit` is before its `g_main_loop_quit`
    have hlast := h.last i
    rw [hq] at hlast
    cases hlast

/-- **No request is missed** in a run in which the last `g_main_loop_quit` does not fall between the
worker's test of the cancellable and its loop.  Where it does, the request is missed as soon as the
worker goes on. -/
theorem not_missed_of_run :
    (∀ (es : List (ThreadEvent ι κ)) (s : ContextThread ι κ),
      Run step QuitsInTime init es s → ¬ Missed s) ∧
    ∀ (s s' : ContextThread ι κ) (i : ι), s.step (.quitLoop i) = some s' →
      ¬ QuitsInTime s (.quitLoop i) → ∃ s'', s'.step .enter = some s'' ∧ Missed s'' := by
  constructor
  · intro es s h
    exact (h.invariant (I := Heeds) heeds_init fun _ _ _ hI hG hs => hI.step hG hs).not_missed
  · intro s s' i hs hG
    obtain ⟨hw, hno⟩ := Classical.not_imp.1 hG
    cases step_sound hs with
    | quitLoop _ hq =>
      have hself : (s.setQuit i .joining).quits i = .joining := quits_setQuit_self s i _
      have hstep :
          ({ s.setQuit i .joining with running := false } : ContextThread ι κ).step .enter =
            some { s.setQuit i .joining with worker := .polling, running := true } := by
        have hw : (s.setQuit i .joining).worker = .entering := hw
        simp only [step, hw]
      refine ⟨_, hstep, rfl, rfl, ⟨i, hself⟩, fun j => ?_⟩
      by_cases hj : j = i
      · subst hj
        exact congrArg Quit.toCome hself
      · rw [Bool.eq_false_iff]
        intro hcome
        refine hno ⟨j, hj, ?_⟩
        rwa [← quits_setQuit_of_ne s .joining hj]

/-- `quit` is called while the worker is in its loop and runs a work item. -/
def quitInLoop : List (ThreadEvent Unit Unit) :=
  [.publish, .construct, .test, .enter, .testPost (), .attach (), .iterate, .cancel (), .dispatch,
    .quitLoop ()]

/-- The worker is still in its loop, and leaves it. -/
theorem not_missed_quitInLoop : ∃ s : ContextThread Unit Unit,
    run step init quitInLoop = some s ∧ s.worker.inLoop = true ∧ ¬ Missed s := by
  have hrun : Run step QuitsInTime init quitInLoop _ :=
    .cons trivial rfl (.cons trivial rfl (.cons trivial rfl (.cons trivial rfl (.cons trivial rfl
      (.cons trivial rfl (.cons trivial rfl (.cons trivial rfl (.cons trivial rfl
        (.cons nofun rfl (.nil _))))))))))
  exact ⟨_, hrun.run_eq, rfl, not_missed_of_run.1 _ _ hrun⟩

/-- The worker tests the cancellable just before the only call of `quit`, and enters its loop just
after it. -/
theorem not_not_missed : ¬ ∀ (es : List (ThreadEvent Unit Empty)) (s : ContextThread Unit Empty),
    Run step (fun _ _ => True) init es s → ¬ Missed s := by
  intro hall
  refine hall [.publish, .construct, .test, .cancel (), .quitLoop (), .enter] _
    (.cons trivial rfl (.cons trivial rfl (.cons trivial rfl (.cons trivial rfl (.cons trivial rfl
      (.cons trivial rfl (.nil _))))))) ⟨rfl, rfl, ⟨(), rfl⟩, fun _ => rfl⟩

end ContextThread

end UrlDispatcher
