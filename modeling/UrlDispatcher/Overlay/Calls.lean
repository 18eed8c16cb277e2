import UrlDispatcher.Overlay.Threaded
import Mathlib.Data.Fintype.Basic

/-!
# Calls of the overlay tracker

What the tracker on its thread promises to those who call it.

* `exists_trackerRun` : what happens to the tracker is a run of `OverlayTracker`, whose queue is
  what the thread has yet to run.
* `calls_return` : every call of the main thread can return, the destructor included, without
  anybody's help; no request to quit is missed.
* `not_stray_of_run` : nothing touches the set after it is gone, provided that Mir posts nothing
  behind the item of the destructor and no helper stops before the thread does.
-/

namespace UrlDispatcher

open Machine ContextThread

namespace ThreadedTracker

variable {κ : Type*} {work : κ → Work} {s : ThreadedTracker κ}

/-! ### The refinement -/

/-- Mir never returns the handle of a session that has not been released. -/
def FreshHandle (s : ThreadedTracker κ) : ThreadedEvent κ → Prop
  | .runItem create start => s.tracker.FreshHandle (.runWork create start)
  | _ => True

instance (s : ThreadedTracker κ) : DecidablePred s.FreshHandle
  | .runItem create start =>
    inferInstanceAs (Decidable (s.tracker.FreshHandle (.runWork create start)))
  | .thread _ => isTrue trivial
  | .connect _ => isTrue trivial
  | .returned => isTrue trivial
  | .untrustedHelperStopped _ _ _ => isTrue trivial

/-- The tracker of `s` is `t`, whose queue is what the thread has yet to run. -/
structure Refines (work : κ → Work) (s : ThreadedTracker κ) (t : OverlayTracker) : Prop where
  orderly : Orderly work s
  eq : ∃ queue closing, t = s.tracker.withQueue queue closing ∧
    (s.tracker.destroyed = false → queue = s.thread.pending.map work ∧
      (closing = true ↔ ∃ k, work k = .destroy ∧ s.thread.posts k = .posted))

theorem refines_init (work : κ → Work) : Refines work init .init :=
  ⟨orderly_init work, [], false, rfl, fun _ => ⟨rfl, by simp [init, ContextThread.init]⟩⟩

/-- While the main thread is in the constructor or done, no item waits whose tracker is there. -/
theorem Orderly.destroyed_of_closed (h : Orderly work s) {k : κ} (hk : k ∈ s.thread.pending)
    (hc : s.main = .closed) : s.tracker.destroyed = true := by
  refine (h.closed hc).resolve_right fun hall => ?_
  have hp := (h.of_mem_pending hk).1
  rw [hall k] at hp
  cases hp

/-- An item of the main thread is attached while the main thread waits for it. -/
theorem Orderly.main_of_attaching (h : Orderly work s) {k : κ} (hk : s.thread.posts k = .attaching)
    (hwork : ∀ session, work k ≠ .removeSession session) :
    s.main = .calling k ∨ s.main = .closing k := by
  have hnew : k ∉ s.thread.executed := fun hmem => by
    have hp := (h.posted.mem_iff k).1 (List.mem_append_left _ hmem)
    rw [hk] at hp
    cases hp
  have hne : s.thread.posts k ≠ .testing := by rw [hk]; rintro ⟨⟩
  cases hw : work k with
  | addOverlay appid pid url => exact .inl ((h.adds k appid pid url hw hne).resolve_right hnew)
  | removeSession session => exact absurd hw (hwork session)
  | destroy => exact .inr ((h.destroys k hw hne).resolve_right fun hm => hnew hm.2)

/-- Then no destructor has posted its item. -/
theorem Orderly.not_posted_destroy (h : Orderly work s) {k : κ} (hk : s.thread.posts k = .attaching)
    (hwork : ∀ session, work k ≠ .removeSession session) :
    ¬ ∃ l, work l = .destroy ∧ s.thread.posts l = .posted := by
  rintro ⟨l, hl, hp⟩
  have hlk : l ≠ k := by
    rintro rfl
    rw [hk] at hp
    cases hp
  rcases h.destroys l hl (by rw [hp]; rintro ⟨⟩) with hm | ⟨hm, -⟩ <;>
    rcases h.main_of_attaching hk hwork with hm' | hm' <;> rw [hm'] at hm <;> cases hm
  exact hlk rfl

theorem touch_of_ne_closed (h : s.main ≠ .closed) (thread : ContextThread Unit κ)
    (f : OverlayTracker → OverlayTracker) :
    { s with thread := thread }.touch f = { s with thread := thread, tracker := f s.tracker } := by
  unfold touch
  split
  · exact absurd ‹_› h
  · rfl

/-- A step of the worker or of the main thread; Mir and ubuntu-app-launch answer what the item `k`
asks of them with `answer k`. -/
def OfThreads (answer : κ → Option ℕ × Option Text) (s : ThreadedTracker κ) :
    ThreadedEvent κ → Prop
  | .thread (.testPost _) => False
  | .thread (.attach k) => s.main = .calling k ∨ s.main = .closing k
  | .thread _ => True
  | .runItem create start =>
    ∀ k items, s.thread.worker = .dispatching (k :: items) → (create, start) = answer k
  | .returned => True
  | .connect _ => False
  | .untrustedHelperStopped _ _ _ => False

/-- The invariant of a tracker that Mir has not refused: when the main thread quits the thread, the
worker is in its loop, so that no request falls between the test of the cancellable and the loop. -/
structure Answers (work : κ → Work) (s : ThreadedTracker κ) : Prop where
  orderly : Orderly work s
  heeds : Heeds s.thread
  constructed : s.main ≠ .constructing → s.thread.constructed = true
  entered : s.thread.executed ≠ [] → s.thread.worker.hasEntered = true
  closed : s.main = .closed → s.thread.executed ≠ []

theorem answers_init (work : κ → Work) : Answers work init where
  orderly := orderly_init work
  heeds := heeds_init
  constructed h := absurd rfl h
  entered h := absurd rfl h
  closed h := by cases h

/-- No item is attached behind that of the destructor, and no helper stops when the set is gone. -/
def InTime (work : κ → Work) (s : ThreadedTracker κ) : ThreadedEvent κ → Prop
  | .thread (.attach _) => ¬ ∃ l, work l = .destroy ∧ s.thread.posts l = .posted
  | .untrustedHelperStopped _ _ helpertype => helpertype = helperType → s.main ≠ .closed
  | _ => True

instance [Fintype κ] [DecidableEq κ] (work : κ → Work) (s : ThreadedTracker κ) :
    DecidablePred (InTime work s)
  | .thread (.attach _) =>
    inferInstanceAs (Decidable (¬ ∃ l, work l = .destroy ∧ s.thread.posts l = .posted))
  | .untrustedHelperStopped _ _ helpertype =>
    inferInstanceAs (Decidable (helpertype = helperType → s.main ≠ .closed))
  | .thread .publish | .thread .construct | .thread .test | .thread .enter | .thread .iterate
  | .thread .dispatch | .thread .afterLoop | .thread (.cancel _) | .thread (.quitLoop _)
  | .thread (.join _) | .thread (.testPost _) | .runItem _ _ | .connect _ | .returned =>
    isTrue trivial

/-- The invariant: the item of the destructor is the last one. -/
structure Tidy (work : κ → Work) (s : ThreadedTracker κ) : Prop where
  orderly : Orderly work s
  last : ∀ l, work l = .destroy → s.thread.posts l = .posted →
    ∃ ks, s.thread.executed ++ s.thread.pending = ks ++ [l]
  stray : s.stray = false

theorem tidy_init (work : κ → Work) : Tidy work init where
  orderly := orderly_init work
  last _ _ h := by cases h
  stray := rfl

/-- No item waits when the set is gone. -/
theorem Tidy.ne_closed (h : Tidy work s) {k : κ} (hk : k ∈ s.thread.pending) :
    s.main ≠ .closed := by
  intro hc
  obtain ⟨l, hl, hwork⟩ := h.orderly.destroyed.1 (h.orderly.destroyed_of_closed hk hc)
  obtain ⟨ks, hlast⟩ :=
    h.last l hwork ((h.orderly.posted.mem_iff l).1 (List.mem_append_left _ hl))
  -- the last item is among those that wait
  have hmem : l ∈ s.thread.pending := by
    have hne : s.thread.pending ≠ [] := List.ne_nil_of_mem hk
    have hget : (s.thread.executed ++ s.thread.pending).getLast? = some l := by rw [hlast]; simp
    rw [List.getLast?_append_of_ne_nil _ hne] at hget
    exact List.mem_of_getLast? hget
  exact (h.orderly.of_mem_pending hmem).2 hl

variable [DecidableEq κ]

/-- The source of an item is attached: the item goes to the end of the queue. -/
theorem Refines.attach {t : OverlayTracker} (h : Refines work s t)
    (hd : s.tracker.destroyed = false) {k : κ} {s' : ThreadedTracker κ} (h' : Orderly work s')
    (hs : s.thread.step (.attach k) = some s'.thread) (ht : s'.tracker = s.tracker) :
    ∃ e t', OverlayTracker.FreshHandle t e ∧ t.step e = some t' ∧ Refines work s' t' := by
  obtain ⟨queue, closing, rfl, hq⟩ := h.eq
  obtain ⟨rfl, hclosing⟩ := hq hd
  have hpending : s'.thread.pending = s.thread.pending ++ [k] := by
    have heq := executed_append_pending hs
    rw [executed_of_step hs (by rintro ⟨⟩), attached, Option.toList_some, List.append_assoc] at heq
    exact List.append_cancel_left heq
  obtain ⟨-, hnone, -⟩ | ⟨l, hl, -⟩ | ⟨l, hl, hk, hposts⟩ := posts_of_step hs
  · cases hnone
  · cases hl
  cases hl
  have hposted : ∀ l, s'.thread.posts l = .posted ↔ l = k ∨ s.thread.posts l = .posted := by
    intro l
    rw [hposts]
    by_cases hl : l = k <;> simp [hl]
  have hmap : s'.thread.pending.map work = s.thread.pending.map work ++ [work k] := by
    rw [hpending, List.map_append, List.map_singleton]
  -- only the item of the destructor closes the tracker
  have hkeep : work k ≠ .destroy → (closing = true ↔
      ∃ l, work l = .destroy ∧ s'.thread.posts l = .posted) := by
    intro hwork
    rw [hclosing]
    refine exists_congr fun l => and_congr_right fun hl => ?_
    rw [hposted]
    refine (or_iff_right ?_).symm
    rintro rfl
    exact hwork hl
  have hopen : (∀ session, work k ≠ .removeSession session) → closing = false := fun hwork =>
    Bool.eq_false_iff.2 fun hc => h.orderly.not_posted_destroy hk hwork (hclosing.1 hc)
  cases hwork : work k with
  | addOverlay appid pid url =>
    have hfalse := hopen (by rw [hwork]; rintro _ ⟨⟩)
    refine ⟨.addOverlay appid pid url, s.tracker.withQueue (s'.thread.pending.map work) closing,
      fun _ _ he => (by cases he), ?_, h', _, closing, by rw [ht],
      fun _ => ⟨rfl, hkeep (by rw [hwork]; rintro ⟨⟩)⟩⟩
    rw [hmap, hwork]
    simp [OverlayTracker.step, OverlayTracker.withQueue, hd, hfalse]
  | removeSession session =>
    refine ⟨.sessionStateChanged session .stopped,
      s.tracker.withQueue (s'.thread.pending.map work) closing,
      fun _ _ he => (by cases he), ?_, h', _, closing, by rw [ht],
      fun _ => ⟨rfl, hkeep (by rw [hwork]; rintro ⟨⟩)⟩⟩
    rw [hmap, hwork]
    simp [OverlayTracker.step, OverlayTracker.withQueue, hd]
  | destroy =>
    have hfalse := hopen (by rw [hwork]; rintro _ ⟨⟩)
    refine ⟨.destroy, s.tracker.withQueue (s'.thread.pending.map work) true,
      fun _ _ he => (by cases he), ?_, h', _, true, by rw [ht],
      fun _ => ⟨rfl, fun _ => ⟨k, hwork, (hposted k).2 (.inl rfl)⟩, fun _ => rfl⟩⟩
    rw [hmap, hwork]
    simp [OverlayTracker.step, OverlayTracker.withQueue, hd, hfalse]

/-- A step of the thread that attaches nothing and runs nothing leaves the queue alone. -/
theorem Refines.of_attached_eq_none {t : OverlayTracker} (h : Refines work s t)
    {e : ThreadEvent Unit κ} {s' : ThreadedTracker κ} (h' : Orderly work s')
    (hs : s.thread.step e = some s'.thread) (hitems : e = .dispatch → s.thread.worker.items = [])
    (hnone : attached e = none) (ht : s'.tracker = s.tracker) : Refines work s' t := by
  obtain ⟨queue, closing, rfl, hq⟩ := h.eq
  refine ⟨h', queue, closing, by rw [ht], fun hd => ?_⟩
  obtain ⟨hqueue, hclosing⟩ := hq (ht ▸ hd)
  have heq := executed_append_pending hs
  rw [executed_of_step hs hitems, hnone, Option.toList_none, List.append_nil] at heq
  refine ⟨by rw [List.append_cancel_left heq, hqueue], ?_⟩
  obtain ⟨-, hp⟩ | ⟨k, rfl, -, -⟩ := posted_of_step hs
  · rw [hclosing]
    exact exists_congr fun k => and_congr_right fun _ => (hp k).symm
  · cases hnone

/-- **The thread runs the tracker's queue**: a step is one of the tracker, or none. -/
theorem simulates_tracker (work : κ → Work) : Simulates (step work) FreshHandle OverlayTracker.step
    OverlayTracker.FreshHandle (Refines work) := by
  intro s e s' t hR hG hs
  have h' := hR.orderly.step hs
  have hnone : s'.thread = s.thread → s'.tracker = s.tracker →
      ∃ fs t', Run OverlayTracker.step OverlayTracker.FreshHandle t fs t' ∧ Refines work s' t' := by
    intro hthread htracker
    obtain ⟨queue, closing, rfl, hq⟩ := hR.eq
    exact ⟨[], _, .nil _, h', queue, closing, by rw [htracker], by rwa [htracker, hthread]⟩
  -- after the loop of the destructor the queue does not matter
  have hkept : s.tracker.destroyed = true → s'.tracker = s.tracker →
      ∃ fs t', Run OverlayTracker.step OverlayTracker.FreshHandle t fs t' ∧ Refines work s' t' := by
    intro hd htracker
    obtain ⟨queue, closing, rfl, -⟩ := hR.eq
    refine ⟨[], _, .nil _, h', queue, closing, by rw [htracker], fun hd' => ?_⟩
    rw [htracker, hd] at hd'
    cases hd'
  cases step_sound hs with
  | thread e main thread hm hthread hitems =>
    by_cases hd : s.tracker.destroyed = true
    · exact hkept hd rfl
    · cases hattached : attached e with
      | none => exact ⟨[], t, .nil t, hR.of_attached_eq_none h' hthread hitems hattached rfl⟩
      | some k =>
        obtain rfl : e = .attach k := by
          cases e <;> cases hattached
          rfl
        obtain ⟨e, t', hfresh, hstep, hR'⟩ := hR.attach (Bool.eq_false_iff.2 hd) h' hthread rfl
        exact ⟨[e], t', .cons hfresh hstep (.nil t'), hR'⟩
  | runItem create start k items hw thread hthread =>
    have hk : k ∈ s.thread.pending := by simp [pending, hw, Worker.items]
    by_cases hd : s.tracker.destroyed = true
    · refine hkept hd ?_
      unfold touch
      split
      · rfl
      · exact hR.orderly.runWork_of_destroyed hd hk create start
    · -- the tracker is there, since its item has not run
      have hopen : s.main ≠ .closed := fun hc => hd (hR.orderly.destroyed_of_closed hk hc)
      obtain ⟨queue, closing, rfl, hq⟩ := hR.eq
      obtain ⟨rfl, hclosing⟩ := hq (Bool.eq_false_iff.2 hd)
      rw [step_dispatch hw] at hthread
      cases hthread
      rw [touch_of_ne_closed hopen] at h' ⊢
      refine ⟨[.runWork create start], _,
        .cons hG ?_ (.nil _), h', (items ++ s.thread.sources).map work,
        closing, rfl, fun _ => ⟨rfl, hclosing⟩⟩
      · rw [← OverlayTracker.runWork_withQueue]
        simp [OverlayTracker.step, OverlayTracker.withQueue, hd, pending, hw, Worker.items]
  | connect connected hm hc => exact hnone rfl rfl
  | calledBack k hm hk => exact hnone rfl rfl
  | closedDown k hm hk => exact hnone rfl rfl
  | stopped appid instanceid hw =>
    by_cases hc : s.main = .closed
    · refine hnone (touch_thread _ _) ?_
      simp only [touch, hc]
    · rw [touch_of_ne_closed hc s.thread] at h' hkept ⊢
      by_cases hd : s.tracker.destroyed = true
      · refine hkept hd ?_
        obtain ⟨-, he⟩ | ⟨-, o, ho, -, -⟩ :=
          s.tracker.untrustedHelperStopped_cases appid instanceid helperType
        · exact he
        · rw [hR.orderly.empty hd] at ho
          cases ho
      · obtain ⟨queue, closing, rfl, hq⟩ := hR.eq
        refine ⟨[.untrustedHelperStopped appid instanceid helperType], _,
          .cons (fun _ _ he => (by cases he)) ?_ (.nil _), h', queue, closing, rfl, fun _ => ?_⟩
        · rw [← OverlayTracker.untrustedHelperStopped_withQueue]
          simp [OverlayTracker.step, OverlayTracker.withQueue, hd]
        · exact hq (Bool.eq_false_iff.2 hd)
  | otherStopped appid instanceid helpertype hne => exact hnone rfl rfl

/-- **The thread refines the queue.**  What has happened to the tracker after a run of the threads
is a run of the tracker by itself, whose queue is what the thread has yet to run; so what has been
created is what has been released together with what is held, and nothing is held after the item of
the destructor. -/
theorem exists_trackerRun {es : List (ThreadedEvent κ)} {s : ThreadedTracker κ}
    (h : Run (step work) FreshHandle init es s) :
    (∃ fs t, Run OverlayTracker.step OverlayTracker.FreshHandle .init fs t ∧
      ∃ queue closing, t = s.tracker.withQueue queue closing ∧
        (s.tracker.destroyed = false → queue = s.thread.pending.map work)) ∧
    s.tracker.Balanced ∧
    ∀ k ∈ s.thread.executed, work k = .destroy →
      s.tracker.ongoing = [] ∧ ∀ session, ¬ s.tracker.Live session := by
  obtain ⟨fs, t, hrun, horderly, queue, closing, rfl, hq⟩ :=
    (simulates_tracker work).exists_run (refines_init work) h
  have hbalanced : s.tracker.Balanced :=
    (hrun.invariant (I := OverlayTracker.Balanced) .init
      fun _ _ _ hI hG hs => hI.of_step hG hs).of_queue s.tracker.queue s.tracker.closing _
  refine ⟨⟨fs, _, hrun, queue, closing, rfl, fun hd => (hq hd).1⟩, hbalanced, fun k hk hwork => ?_⟩
  have hnil := horderly.empty (horderly.destroyed.2 ⟨k, hk, hwork⟩)
  refine ⟨hnil, fun session hl => ?_⟩
  obtain ⟨o, ho, -⟩ := (hbalanced.live_iff session).1 hl
  rw [hnil] at ho
  cases ho

/-- The items of a run with one overlay, which ends with the destructor. -/
def overlayWork : Bool → Work
  | true => .addOverlay "com.test_app_1.2".toList 8 "http://ubuntu.com".toList
  | false => .destroy

/-- An overlay is added, and the destructor ends it. -/
def overlayRun : List (ThreadedEvent Bool) :=
  [.thread .publish, .thread .construct, .connect true, .thread .test, .thread .enter,
    .thread (.testPost true), .thread (.attach true), .thread .iterate,
    .runItem (some 4) (some "1".toList), .thread .dispatch, .returned, .thread (.testPost false),
    .thread (.attach false), .thread .iterate, .runItem none none, .returned]

theorem exists_trackerRun_overlayRun : ∃ s : ThreadedTracker Bool,
    run (step overlayWork) init overlayRun = some s ∧ s.tracker.ongoing = [] := by
  obtain ⟨s, hs⟩ := Option.isSome_iff_exists.1
    (show (run (fun (s : ThreadedTracker Bool) e =>
      if decide (s.FreshHandle e) then s.step overlayWork e else none) init overlayRun).isSome by
        decide)
  have hrun : Run (step overlayWork) FreshHandle init overlayRun s :=
    .of_run (g := fun s e => decide (s.FreshHandle e)) (fun _ _ hf => of_decide_eq_true hf) hs
  exact ⟨s, hrun.run_eq, ((exists_trackerRun hrun).2.2 false (by cases hs; decide) rfl).1⟩

/-! ### Calls return -/

theorem Answers.step (h : Answers work s) {e : ThreadedEvent κ} {s' : ThreadedTracker κ}
    (hG : e ≠ .connect false) (hs : s.step work e = some s') : Answers work s' := by
  have h' := h.orderly.step hs
  cases step_sound hs with
  | thread e main thread hm hthread hitems =>
    have hexecuted := executed_of_step hthread hitems
    have hmain : main = s.main ∨ (s.main = .idle ∧ main ≠ .closed) := by
      obtain ⟨rfl, -⟩ | ⟨k, -, hidle, ⟨_, _, _, -, rfl⟩ | ⟨-, rfl⟩⟩ := after_cases hm
      · exact .inl rfl
      · exact .inr ⟨hidle, by rintro ⟨⟩⟩
      · exact .inr ⟨hidle, by rintro ⟨⟩⟩
    refine ⟨h', h.heeds.step ?_ hthread, fun hne => constructed_of_step hthread ?_, fun hne => ?_,
      fun hc => ?_⟩
    · -- the thread is quit at the end, when an item has run
      cases e with
      | quitLoop i =>
        intro hw
        cases ContextThread.step_sound hthread with
        | quitLoop _ hq =>
          have hc : s.main = .closed := by
            by_contra hne
            have hcancelled := h.heeds.cancelled i (by rw [hq]; rintro ⟨⟩)
            rw [h.orderly.uncancelled hne] at hcancelled
            cases hcancelled
          have hentered := h.entered (h.closed hc)
          rw [hw] at hentered
          cases hentered
      | _ => trivial
    · rcases hmain with rfl | ⟨hidle, -⟩
      · exact h.constructed hne
      · exact h.constructed (by rw [hidle]; rintro ⟨⟩)
    · rw [hexecuted] at hne
      exact hasEntered_of_step hthread (h.entered hne)
    · rw [hexecuted]
      rcases hmain with rfl | ⟨-, hne⟩
      · exact h.closed hc
      · exact absurd hc hne
  | runItem create start k items hw thread hthread =>
    have hheeds := h.heeds.step (e := .dispatch) trivial hthread
    rw [step_dispatch hw] at hthread
    cases hthread
    refine ⟨h', ?_, fun hne => ?_, fun _ => ?_, fun _ => ?_⟩
    · rw [touch_thread]
      exact hheeds
    · rw [touch_main] at hne
      rw [touch_thread]
      exact h.constructed hne
    · rw [touch_thread]
      rfl
    · rw [touch_thread]
      exact List.append_ne_nil_of_right_ne_nil _ (List.cons_ne_nil k [])
  | connect connected hm hc =>
    cases connected with
    | false => exact absurd rfl hG
    | true => exact ⟨h', h.heeds, fun _ => hc, h.entered, fun hc => (by cases hc)⟩
  | calledBack k hm hk =>
    exact ⟨h', h.heeds, fun _ => h.constructed (by rw [hm]; rintro ⟨⟩), h.entered,
      fun hc => (by cases hc)⟩
  | closedDown k hm hk =>
    exact ⟨h', h.heeds, fun _ => h.constructed (by rw [hm]; rintro ⟨⟩), h.entered,
      fun _ => List.ne_nil_of_mem hk⟩
  | stopped appid instanceid hw =>
    refine ⟨h', ?_, fun hne => ?_, fun hne => ?_, fun hc => ?_⟩
    · rw [touch_thread]
      exact h.heeds
    · rw [touch_main] at hne
      rw [touch_thread]
      exact h.constructed hne
    · rw [touch_thread] at hne ⊢
      exact h.entered hne
    · rw [touch_main] at hc
      rw [touch_thread]
      exact h.closed hc
  | otherStopped appid instanceid helpertype hne => exact h

/-- The worker runs the next item. -/
theorem step_runItem (work : κ → Work) {k : κ} {items : List κ}
    (hw : s.thread.worker = .dispatching (k :: items)) (create : Option ℕ) (start : Option Text) :
    ∃ thread, s.thread.step .dispatch = some thread ∧
      s.step work (.runItem create start) =
        some ({ s with thread := thread }.touch fun t => t.runWork create start (work k)) := by
  refine ⟨_, step_dispatch hw, ?_⟩
  simp only [step, hw]
  rw [step_dispatch hw]
  rfl

/-- A step of the thread that the main thread lets happen. -/
theorem step_thread {e : ThreadEvent Unit κ} {main : MainThread κ} {thread : ContextThread Unit κ}
    (hitems : s.runsItem e = false) (hm : s.main.after work e = some main)
    (hs : s.thread.step e = some thread) :
    s.step work (.thread e) = some { s with thread := thread, main := main } := by
  simp only [step, hitems, hm, hs]
  rfl

/-- What the worker can do, it can do whatever the main thread is in. -/
theorem simulates_worker (work : κ → Work) (answer : κ → Option ℕ × Option Text)
    (main : MainThread κ) : Simulates ContextThread.step (fun _ e => OfWorker e) (step work)
      (OfThreads answer) fun thread s => s.thread = thread ∧ s.main = main := by
  rintro thread e thread' s ⟨rfl, rfl⟩ hG hs
  cases hitems : s.runsItem e with
  | true =>
    cases e with
    | dispatch =>
      cases hw : s.thread.worker with
      | dispatching items =>
        cases items with
        | nil => simp [runsItem, hw, Worker.items] at hitems
        | cons k items =>
          obtain ⟨thread, hthread, hstep⟩ := step_runItem work hw (answer k).1 (answer k).2
          rw [hs] at hthread
          cases hthread
          refine ⟨[.runItem (answer k).1 (answer k).2], _,
            .cons (fun l items' hw' => ?_) hstep (.nil _), touch_thread _ _, touch_main _ _⟩
          rw [hw] at hw'
          cases hw'
          rfl
      | _ => simp [runsItem, hw, Worker.items] at hitems
    | _ => cases hitems
  | false =>
    have hguard : OfThreads answer s (.thread e) ∧ s.main.after work e = some s.main := by
      cases e with
      | construct | cancel _ | quitLoop _ | join _ | testPost _ | attach _ => cases hG
      | _ => exact ⟨trivial, rfl⟩
    exact ⟨[.thread e], _, .cons hguard.1 (step_thread hitems hguard.2 hs) (.nil _), rfl, rfl⟩

/-- While the main thread waits for its item, the item will run. -/
theorem exists_run_executed (h : Orderly work s) (answer : κ → Option ℕ × Option Text) {k : κ}
    (hm : s.main = .calling k ∨ s.main = .closing k) :
    ∃ es s', Run (step work) (OfThreads answer) s es s' ∧ s'.main = s.main ∧
      k ∈ s'.thread.executed := by
  have hposted : ∀ s : ThreadedTracker κ, Orderly work s →
      (s.main = .calling k ∨ s.main = .closing k) → s.thread.posts k = .posted →
      ∃ es s', Run (step work) (OfThreads answer) s es s' ∧ s'.main = s.main ∧
        k ∈ s'.thread.executed := by
    intro s h hm hk
    rcases List.mem_append.1 ((h.posted.mem_iff k).2 hk) with hmem | hmem
    · exact ⟨[], s, .nil s, rfl, hmem⟩
    · have hserves := h.undisturbed.serves (h.uncancelled (by
        rintro hc
        rw [hc] at hm
        rcases hm with hm | hm <;> cases hm))
      have hawaits : Awaits s.thread k :=
        (List.mem_append.1 hmem).imp_right fun hmem => ⟨hmem, hserves⟩
      obtain ⟨es, thread, hrun, hexecuted⟩ := hawaits.exists_run
      obtain ⟨fs, s', hrun', hthread, hmain⟩ :=
        (simulates_worker work answer s.main).exists_run ⟨rfl, rfl⟩ hrun
      exact ⟨fs, s', hrun', hmain, hthread ▸ hexecuted⟩
  rcases h.waits k hm with hk | hk
  · -- the main thread has yet to attach the source
    have hs : s.step work (.thread (.attach k)) = some { s with
        thread := { s.thread.setPost k .posted with sources := s.thread.sources ++ [k] } } :=
      step_thread rfl rfl (by simp [ContextThread.step, hk])
    obtain ⟨es, s', hrun, hmain, hexecuted⟩ := hposted _ (h.step hs) hm (by simp [setPost])
    exact ⟨.thread (.attach k) :: es, s', .cons hm hs hrun, hmain, hexecuted⟩
  · exact hposted s h hm hk

/-- When the main thread has come to the end of the destructor, the thread ends. -/
theorem exists_run_returned (h : Answers work s) (answer : κ → Option ℕ × Option Text)
    (hc : s.main = .closed) : ∃ es s', Run (step work) (OfThreads answer) s es s' ∧
      s'.main = .closed ∧ s'.thread.quits () = .returned := by
  have hjoin : ∀ s : ThreadedTracker κ, Answers work s → s.main = .closed →
      s.thread.quits () = .joining → ∃ es s', Run (step work) (OfThreads answer) s es s' ∧
        s'.main = .closed ∧ s'.thread.quits () = .returned := by
    intro s h hc hq
    -- the only call of `quit` is past its `g_main_loop_quit`
    have hquit : s.thread.worker.inLoop = true → s.thread.running = false := by
      intro hl
      refine Bool.eq_false_iff.2 fun hr => ?_
      obtain ⟨⟨⟩, hcome⟩ := h.heeds.inLoop hl hr () (by rw [hq]; rfl)
      rw [hq] at hcome
      cases hcome
    obtain ⟨es, thread, hrun, hfinished⟩ := exists_run_finished (h.entered (h.closed hc)) hquit
    have hquits : thread.quits = s.thread.quits :=
      hrun.invariant (I := fun t => t.quits = s.thread.quits) rfl fun _ _ _ hI hG hs =>
        (quits_of_step hs hG).trans hI
    obtain ⟨fs, s', hrun', rfl, hmain⟩ :=
      (simulates_worker work answer s.main).exists_run ⟨rfl, rfl⟩ hrun
    have hs : s'.step work (.thread (.join ())) =
        some { s' with thread := s'.thread.setQuit () .returned } :=
      step_thread rfl rfl (by simp [ContextThread.step, hfinished, hquits, hq])
    have hlast : Run (step work) (OfThreads answer) s' [.thread (.join ())] _ :=
      .cons trivial hs (.nil _)
    exact ⟨fs ++ [.thread (.join ())], { s' with thread := s'.thread.setQuit () .returned },
      hrun'.append hlast, hmain.trans hc, quits_setQuit_self s'.thread () .returned⟩
  have hquitLoop : ∀ s : ThreadedTracker κ, Answers work s → s.main = .closed →
      s.thread.quits () = .quitting → ∃ es s', Run (step work) (OfThreads answer) s es s' ∧
        s'.main = .closed ∧ s'.thread.quits () = .returned := by
    intro s h hc hq
    have hs : s.step work (.thread (.quitLoop ())) = some { s with
        thread := { s.thread.setQuit () .joining with running := false } } :=
      step_thread rfl rfl (by simp [ContextThread.step, hq])
    obtain ⟨es, s', hrun, hs'⟩ :=
      hjoin _ (h.step (by rintro ⟨⟩) hs) hc (quits_setQuit_self s.thread () .joining)
    exact ⟨.thread (.quitLoop ()) :: es, s', .cons trivial hs hrun, hs'⟩
  cases hq : s.thread.quits () with
  | cancelling =>
    have hconstructed := h.constructed (by rw [hc]; rintro ⟨⟩)
    have hs : s.step work (.thread (.cancel ())) = some { s with
        thread := { s.thread.setQuit () .quitting with cancelled := true } } :=
      step_thread rfl (by rw [hc]; rfl) (by simp [ContextThread.step, hq, hconstructed])
    obtain ⟨es, s', hrun, hs'⟩ :=
      hquitLoop _ (h.step (by rintro ⟨⟩) hs) hc (quits_setQuit_self s.thread () .quitting)
    exact ⟨.thread (.cancel ()) :: es, s', .cons trivial hs hrun, hs'⟩
  | quitting => exact hquitLoop s h hc hq
  | joining => exact hjoin s h hc hq
  | returned => exact ⟨[], s, .nil s, hc, hq⟩

/-- **Calls return.**  Unless Mir has refused the connection, no request to quit is missed, and from
every state the worker and the main thread alone can get a call of `addOverlay` to return, and the
destructor to its end, whatever Mir and ubuntu-app-launch answer. -/
theorem calls_return {es : List (ThreadedEvent κ)} {s : ThreadedTracker κ}
    (h : Run (step work) (fun _ e => e ≠ .connect false) init es s) :
    ¬ Missed s.thread ∧ ∀ answer : κ → Option ℕ × Option Text,
      (∀ k, s.main = .calling k →
        ∃ fs s', Run (step work) (OfThreads answer) s fs s' ∧ s'.main = .idle ∧
          k ∈ s'.thread.executed) ∧
      ((∃ k, s.main = .closing k) ∨ s.main = .closed →
        ∃ fs s', Run (step work) (OfThreads answer) s fs s' ∧ s'.main = .closed ∧
          s'.thread.quits () = .returned) := by
  have hanswers : ∀ {s₀ s₁ : ThreadedTracker κ} {es}, Answers work s₀ →
      Run (step work) (fun _ e => e ≠ .connect false) s₀ es s₁ → Answers work s₁ :=
    fun h₀ h => h.invariant h₀ fun _ _ _ hI hG hs => hI.step hG hs
  have hs := hanswers (answers_init work) h
  refine ⟨hs.heeds.not_missed, fun answer => ⟨fun k hm => ?_, ?_⟩⟩
  · obtain ⟨fs, s', hrun, hm', hk⟩ := exists_run_executed hs.orderly answer (.inl hm)
    have hreturned : s'.step work .returned = some { s' with main := .idle } := by
      simp only [step, hm', hm, hk, if_true]
    have hlast : Run (step work) (OfThreads answer) s' [.returned] _ :=
      .cons trivial hreturned (.nil _)
    exact ⟨fs ++ [.returned], { s' with main := .idle }, hrun.append hlast, rfl, hk⟩
  · rintro (⟨k, hm⟩ | hm)
    · obtain ⟨fs, s', hrun, hm', hk⟩ := exists_run_executed hs.orderly answer (.inr hm)
      have hreturned : s'.step work .returned = some { s' with main := .closed } := by
        simp only [step, hm', hm, hk, if_true]
      have hlast : Run (step work) (OfThreads answer) s' [.returned] _ :=
        .cons trivial hreturned (.nil _)
      have hrun' := hrun.append hlast
      have hs' := hanswers hs (hrun'.mono fun s e hG => by
        rintro rfl
        exact hG)
      obtain ⟨gs, s'', hrun'', h''⟩ := exists_run_returned hs' answer rfl
      exact ⟨_, s'', hrun'.append hrun'', h''⟩
    · exact exists_run_returned hs answer hm

/-- The main thread waits for its overlay, which the worker has yet to take. -/
theorem calls_return_overlayRun : ∃ s : ThreadedTracker Bool,
    run (step overlayWork) init (overlayRun.take 7) = some s ∧ ¬ Missed s.thread ∧
      ∃ fs s', Run (step overlayWork) (OfThreads fun _ => (some 4, some "1".toList)) s fs s' ∧
        s'.main = .idle ∧ true ∈ s'.thread.executed := by
  obtain ⟨s, hs⟩ := Option.isSome_iff_exists.1
    (show (run (fun (s : ThreadedTracker Bool) e => if (match e with
      | .connect false => false
      | _ => true) then s.step overlayWork e else none) init (overlayRun.take 7)).isSome by decide)
  have hrun : Run (step overlayWork) (fun _ e => e ≠ .connect false) init (overlayRun.take 7) s :=
    .of_run (g := fun _ e => match e with
      | .connect false => false
      | _ => true) (fun _ _ hg => by rintro rfl; cases hg) hs
  obtain ⟨hmissed, hreturn⟩ := calls_return hrun
  exact ⟨s, hrun.run_eq, hmissed,
    (hreturn fun _ => (some 4, some "1".toList)).1 true (by cases hs; rfl)⟩

/-! ### The set after its end -/

theorem Tidy.step (h : Tidy work s) {e : ThreadedEvent κ} {s' : ThreadedTracker κ}
    (hG : InTime work s e) (hs : s.step work e = some s') : Tidy work s' := by
  have h' := h.orderly.step hs
  cases step_sound hs with
  | thread e main thread hm hthread hitems =>
    refine ⟨h', fun l hwork hp => ?_, h.stray⟩
    dsimp only at hp ⊢
    rw [executed_append_pending hthread]
    obtain ⟨hnone, hposts⟩ | ⟨k, rfl, hk, hposts⟩ := posted_of_step hthread
    · rw [hnone, Option.toList_none, List.append_nil]
      exact h.last l hwork ((hposts l).1 hp)
    · by_cases hl : l = k
      · exact ⟨_, by rw [hl]; rfl⟩
      · rw [hposts, Function.update_of_ne hl] at hp
        exact absurd ⟨l, hwork, hp⟩ hG
  | runItem create start k items hw thread hthread =>
    have hk : k ∈ s.thread.pending := by simp [pending, hw, Worker.items]
    have heq := executed_append_pending hthread
    rw [step_dispatch hw] at hthread
    cases hthread
    rw [touch_of_ne_closed (h.ne_closed hk)] at h' ⊢
    refine ⟨h', fun l hwork hp => ?_, h.stray⟩
    have hnone : attached (.dispatch : ThreadEvent Unit κ) = none := rfl
    rw [hnone, Option.toList_none, List.append_nil] at heq
    obtain ⟨ks, hlast⟩ := h.last l hwork hp
    exact ⟨ks, heq.trans hlast⟩
  | connect connected hm hc => exact ⟨h', h.last, h.stray⟩
  | calledBack k hm hk => exact ⟨h', h.last, h.stray⟩
  | closedDown k hm hk => exact ⟨h', h.last, h.stray⟩
  | stopped appid instanceid hw =>
    rw [touch_of_ne_closed (hG rfl) s.thread] at h' ⊢
    exact ⟨h', h.last, h.stray⟩
  | otherStopped appid instanceid helpertype hne => exact h

/-- **Nothing touches the set after its end**, provided that Mir posts no item behind that of the
destructor and no overlay stops between the end of the set and the end of the thread. -/
theorem not_stray_of_run {es : List (ThreadedEvent κ)} {s : ThreadedTracker κ}
    (h : Run (step work) (InTime work) init es s) : s.stray = false :=
  (h.invariant (I := Tidy work) (tidy_init work) fun _ _ _ hI hG hs => hI.step hG hs).stray

/-- Nothing follows the item of the destructor. -/
theorem not_stray_overlayRun : ∃ s : ThreadedTracker Bool,
    run (step overlayWork) init overlayRun = some s ∧ s.stray = false := by
  obtain ⟨s, hs⟩ := Option.isSome_iff_exists.1
    (show (run (fun (s : ThreadedTracker Bool) e =>
      if decide (InTime overlayWork s e) then s.step overlayWork e else none)
        init overlayRun).isSome by decide)
  have hrun : Run (step overlayWork) (InTime overlayWork) init overlayRun s :=
    .of_run (g := fun s e => decide (InTime overlayWork s e))
      (fun _ _ hG => of_decide_eq_true hG) hs
  exact ⟨s, hrun.run_eq, not_stray_of_run hrun⟩

-- releasing a session may make Mir report that it has stopped
example : (run (step fun k : Bool => if k then .destroy else .removeSession 4) init
    [.thread .publish, .thread .construct, .connect true, .thread .test, .thread .enter,
      .thread (.testPost true), .thread (.attach true), .thread (.testPost false),
      .thread (.attach false), .thread .iterate, .runItem none none, .returned,
      .runItem none none]).map (·.stray) = some true := by
  decide

end ThreadedTracker

end UrlDispatcher
