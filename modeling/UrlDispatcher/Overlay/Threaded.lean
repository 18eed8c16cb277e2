import UrlDispatcher.Overlay.Tracker
import UrlDispatcher.Thread.Queue

/-!
# The overlay tracker on its thread

`OverlayTracker` takes the items of its queue one by one.  In `OverlayTrackerMir` they are posted to
a `ContextThread`, by the main thread of the service, which waits for each of its items, and by Mir,
which does not; and the thread is quit by the destructor, when the item of the destructor has run.

`ThreadedTracker` is the tracker with that thread, from its constructor to the end of its
destructor.  An item `k` stands for the work `work k`.  `Orderly` is the invariant: nobody quits the
thread while the main thread is in one of its calls, each item belongs to the call that has posted
it, and the loop of the destructor is over exactly when its item has run.
-/

namespace UrlDispatcher

open Machine ContextThread

namespace OverlayTracker

/-- Only the item of the destructor ends the tracker. -/
theorem destroyed_runWork (t : OverlayTracker) (create : Option ℕ) (start : Option Text)
    (work : Work) : (t.runWork create start work).destroyed = true ↔
      t.destroyed = true ∨ work = .destroy := by
  cases work with
  | addOverlay appid pid url => simp [runWork, destroyed_addOverlay]
  | removeSession session => simp [runWork, (t.shrinks_removeSession session).destroyed]
  | destroy => simp [runWork]

/-- The item that ends the tracker leaves nothing. -/
theorem ongoing_of_runWork {t : OverlayTracker} {create : Option ℕ} {start : Option Text}
    {work : Work} (hd : t.destroyed = false) (h : (t.runWork create start work).destroyed = true) :
    (t.runWork create start work).ongoing = [] := by
  rw [destroyed_runWork, hd] at h
  rw [h.resolve_left Bool.false_ne_true]
  exact t.destroyLoop_spec.1

/-- The tracker with another queue. -/
def withQueue (t : OverlayTracker) (queue : List Work) (closing : Bool) : OverlayTracker :=
  { t with queue := queue, closing := closing }

theorem removeSession_withQueue (t : OverlayTracker) (queue : List Work) (closing : Bool)
    (session : ℕ) : (t.withQueue queue closing).removeSession session =
      (t.removeSession session).withQueue queue closing := by
  simp only [removeSession, withQueue]
  split <;> rfl

theorem untrustedHelperStopped_withQueue (t : OverlayTracker) (queue : List Work) (closing : Bool)
    (appid instanceid helpertype : Text) :
    (t.withQueue queue closing).untrustedHelperStopped appid instanceid helpertype =
      (t.untrustedHelperStopped appid instanceid helpertype).withQueue queue closing := by
  simp only [untrustedHelperStopped, withQueue]
  split
  · rfl
  · split <;> rfl

theorem destroyLoop_withQueue (t : OverlayTracker) (queue : List Work) (closing : Bool) :
    (t.withQueue queue closing).destroyLoop = t.destroyLoop.withQueue queue closing := by
  induction t using destroyLoop.induct with
  | case1 t ht => rw [destroyLoop_nil ht, destroyLoop_nil (t := t.withQueue queue closing) ht]
  | case2 t o os ht ih =>
    rw [destroyLoop_cons ht, destroyLoop_cons (t := t.withQueue queue closing) ht,
      removeSession_withQueue, ih]

/-- A work item does not look at the queue. -/
theorem runWork_withQueue (t : OverlayTracker) (queue : List Work) (closing : Bool)
    (create : Option ℕ) (start : Option Text) (work : Work) :
    (t.withQueue queue closing).runWork create start work =
      (t.runWork create start work).withQueue queue closing := by
  cases work with
  | addOverlay appid pid url =>
    cases create with
    | none => rfl
    | some handle =>
      cases start with
      | none => rfl
      | some instanceid =>
        by_cases hs : ∃ o ∈ t.ongoing,
            (⟨appid, instanceid, ⟨handle, pid, t.created.length⟩⟩ : Overlay).Same o
        · have h : t.addOverlay appid pid url (some handle) (some instanceid) = _ := if_pos hs
          have h' : (t.withQueue queue closing).addOverlay appid pid url (some handle)
            (some instanceid) = _ := if_pos hs
          rw [runWork, runWork, h, h']
          rfl
        · have h : t.addOverlay appid pid url (some handle) (some instanceid) = _ := if_neg hs
          have h' : (t.withQueue queue closing).addOverlay appid pid url (some handle)
            (some instanceid) = _ := if_neg hs
          rw [runWork, runWork, h, h']
          rfl
  | removeSession session => exact t.removeSession_withQueue queue closing session
  | destroy =>
    simp only [runWork, destroyLoop_withQueue]
    rfl

end OverlayTracker

/-- What the main thread of the service is doing. -/
inductive MainThread (κ : Type*)
  /-- In the constructor. -/
  | constructing
  /-- Between two calls. -/
  | idle
  /-- In `addOverlay`, up to the end of its item. -/
  | calling (k : κ)
  /-- In the destructor, up to the end of its item. -/
  | closing (k : κ)
  /-- In the destructor of the members: the set is gone, and the thread is next. -/
  | closed
deriving DecidableEq

/-- The tracker, its thread and the main thread. -/
structure ThreadedTracker (κ : Type*) where
  thread : ContextThread Unit κ
  tracker : OverlayTracker
  main : MainThread κ
  /-- The set has been touched when it was gone. -/
  stray : Bool

/-- What can happen. -/
inductive ThreadedEvent (κ : Type*)
  /-- A step of the thread that runs no item. -/
  | thread (e : ThreadEvent Unit κ)
  /-- The worker runs the next item. -/
  | runItem (create : Option ℕ) (start : Option Text)
  /-- Mir has been asked for a connection. -/
  | connect (connected : Bool)
  /-- The main thread finds that its item has run. -/
  | returned
  /-- Ubuntu-app-launch reports, on the thread, that a helper has stopped. -/
  | untrustedHelperStopped (appid instanceid helpertype : Text)

/-- There is a connection to Mir, which may report the state of a session. -/
def MainThread.hasConnection {κ : Type*} : MainThread κ → Bool
  | idle => true
  | calling _ => true
  | closing _ => true
  | _ => false

/-- The main thread after the item `k` with that work has been posted: it posts one item at a time,
and Mir posts the others. -/
def MainThread.post {κ : Type*} (main : MainThread κ) (k : κ) : Work → Option (MainThread κ)
  | .addOverlay _ _ _ =>
    match main with
    | idle => some (calling k)
    | _ => none
  | .removeSession _ => if main.hasConnection then some main else none
  | .destroy =>
    match main with
    | idle => some (closing k)
    | _ => none

/-- The main thread after a step of the thread, if it lets the step happen: it quits the thread in
the end only. -/
def MainThread.after {κ : Type*} (work : κ → Work) (main : MainThread κ) :
    ThreadEvent Unit κ → Option (MainThread κ)
  | .testPost k => main.post k (work k)
  | .cancel _ =>
    match main with
    | closed => some closed
    | _ => none
  | _ => some main

namespace ThreadedTracker

variable {κ : Type*}

/-- The tracker when its constructor begins. -/
def init : ThreadedTracker κ := ⟨.init, .init, .constructing, false⟩

/-- Something is done to the set, if it is still there. -/
def touch (s : ThreadedTracker κ) (f : OverlayTracker → OverlayTracker) : ThreadedTracker κ :=
  match s.main with
  | .closed => { s with stray := true }
  | _ => { s with tracker := f s.tracker }

/-- The step of the thread would run an item. -/
def runsItem (s : ThreadedTracker κ) : ThreadEvent Unit κ → Bool
  | .dispatch => !s.thread.worker.items.isEmpty
  | _ => false

@[simp] theorem touch_thread (s : ThreadedTracker κ) (f : OverlayTracker → OverlayTracker) :
    (s.touch f).thread = s.thread := by
  unfold touch
  split <;> rfl

@[simp] theorem touch_main (s : ThreadedTracker κ) (f : OverlayTracker → OverlayTracker) :
    (s.touch f).main = s.main := by
  unfold touch
  split <;> rfl

/-- The main thread lets a step of the thread happen: it begins a call of its own, or it goes on as
before. -/
theorem after_cases {work : κ → Work} {main main' : MainThread κ} {e : ThreadEvent Unit κ}
    (h : main.after work e = some main') :
    (main' = main ∧ (∀ i, e = .cancel i → main = .closed) ∧
      ∀ k, e = .testPost k → main.hasConnection = true ∧
        ∃ session, work k = .removeSession session) ∨
      ∃ k, e = .testPost k ∧ main = .idle ∧
        ((∃ appid pid url, work k = .addOverlay appid pid url ∧ main' = .calling k) ∨
          (work k = .destroy ∧ main' = .closing k)) := by
  cases e with
  | testPost k =>
    cases hwork : work k with
    | addOverlay appid pid url =>
      rw [MainThread.after, hwork] at h
      simp only [MainThread.post] at h
      split at h <;> cases h
      exact .inr ⟨k, rfl, rfl, .inl ⟨appid, pid, url, hwork, rfl⟩⟩
    | removeSession session =>
      rw [MainThread.after, hwork, MainThread.post] at h
      obtain ⟨hc, h⟩ := Option.ite_none_right_eq_some.1 h
      cases h
      refine .inl ⟨rfl, fun i hi => (by cases hi), fun l hl => ⟨hc, session, ?_⟩⟩
      cases hl
      exact hwork
    | destroy =>
      rw [MainThread.after, hwork] at h
      simp only [MainThread.post] at h
      split at h <;> cases h
      exact .inr ⟨k, rfl, rfl, .inr ⟨hwork, rfl⟩⟩
  | cancel i =>
    simp only [MainThread.after] at h
    split at h <;> cases h
    exact .inl ⟨rfl, fun _ _ => rfl, fun l hl => (by cases hl)⟩
  | _ =>
    cases h
    exact .inl ⟨rfl, fun i hi => (by cases hi), fun l hl => (by cases hl)⟩

/-- The invariant: nobody quits the thread while the main thread is in one of its calls, and each
item belongs to the call that has posted it. -/
structure Orderly (work : κ → Work) (s : ThreadedTracker κ) : Prop where
  posted : Posted s.thread
  undisturbed : Undisturbed s.thread
  uncancelled : s.main ≠ .closed → s.thread.cancelled = false
  constructing : s.main = .constructing → ∀ k, s.thread.posts k = .testing
  waits : ∀ k, s.main = .calling k ∨ s.main = .closing k →
    s.thread.posts k = .attaching ∨ s.thread.posts k = .posted
  adds : ∀ k appid pid url, work k = .addOverlay appid pid url → s.thread.posts k ≠ .testing →
    s.main = .calling k ∨ k ∈ s.thread.executed
  closing : ∀ k, s.main = .closing k → work k = .destroy
  destroys : ∀ k, work k = .destroy → s.thread.posts k ≠ .testing →
    s.main = .closing k ∨ (s.main = .closed ∧ k ∈ s.thread.executed)
  /-- The loop of the destructor is over exactly when its item has run. -/
  destroyed : s.tracker.destroyed = true ↔ ∃ k ∈ s.thread.executed, work k = .destroy
  empty : s.tracker.destroyed = true → s.tracker.ongoing = []
  closed : s.main = .closed → s.tracker.destroyed = true ∨ ∀ k, s.thread.posts k = .testing

theorem orderly_init (work : κ → Work) : Orderly work init where
  posted := posted_init
  undisturbed := undisturbed_init
  uncancelled _ := rfl
  constructing _ _ := rfl
  waits k h := by rcases h with h | h <;> cases h
  adds _ _ _ _ _ h := absurd rfl h
  closing k h := by cases h
  destroys _ _ h := absurd rfl h
  destroyed := by simp [init, OverlayTracker.init, ContextThread.init]
  empty h := by cases h
  closed h := by cases h

variable {work : κ → Work} {s : ThreadedTracker κ}

namespace Orderly

/-- An item that waits belongs to a post that has come about, and has not run. -/
theorem of_mem_pending (h : Orderly work s) {k : κ} (hk : k ∈ s.thread.pending) :
    s.thread.posts k = .posted ∧ k ∉ s.thread.executed :=
  ⟨(h.posted.mem_iff k).1 (List.mem_append_right _ hk), fun hmem =>
    (List.nodup_append.1 h.posted.nodup).2.2 k hmem k hk rfl⟩

/-- The item of the destructor is run by a thread whose tracker is there. -/
theorem main_of_destroy (h : Orderly work s) {k : κ} (hk : k ∈ s.thread.pending)
    (hwork : work k = .destroy) : s.main = .closing k := by
  obtain ⟨hp, hno⟩ := h.of_mem_pending hk
  refine (h.destroys k hwork ?_).resolve_right fun hm => hno hm.2
  rw [hp]
  rintro ⟨⟩

/-- The item of an addition is run while the main thread waits for it. -/
theorem main_of_add (h : Orderly work s) {k : κ} {appid url : Text} {pid : ℕ}
    (hk : k ∈ s.thread.pending) (hwork : work k = .addOverlay appid pid url) :
    s.main = .calling k := by
  obtain ⟨hp, hno⟩ := h.of_mem_pending hk
  refine (h.adds k appid pid url hwork ?_).resolve_right hno
  rw [hp]
  rintro ⟨⟩

/-- Once the loop of the destructor is over, the destructor is what the main thread is in. -/
theorem main_of_destroyed (h : Orderly work s) (hd : s.tracker.destroyed = true) :
    (∃ k, s.main = .closing k) ∨ s.main = .closed := by
  obtain ⟨k, hk, hwork⟩ := h.destroyed.1 hd
  have hp : s.thread.posts k = .posted := (h.posted.mem_iff k).1 (List.mem_append_left _ hk)
  refine (h.destroys k hwork ?_).imp (fun hm => ⟨k, hm⟩) fun hm => hm.1
  rw [hp]
  rintro ⟨⟩

/-- After the loop of the destructor the set stays as it is. -/
theorem runWork_of_destroyed (h : Orderly work s) (hd : s.tracker.destroyed = true) {k : κ}
    (hk : k ∈ s.thread.pending) (create : Option ℕ) (start : Option Text) :
    s.tracker.runWork create start (work k) = s.tracker := by
  cases hwork : work k with
  | addOverlay appid pid url =>
    rcases h.main_of_destroyed hd with ⟨l, hm⟩ | hm <;> rw [h.main_of_add hk hwork] at hm <;>
      cases hm
  | removeSession session =>
    obtain ⟨-, he⟩ | ⟨o, ho, -, -⟩ := s.tracker.removeSession_cases session
    · exact he
    · rw [h.empty hd] at ho
      cases ho
  | destroy =>
    obtain ⟨l, hl, hwork'⟩ := h.destroyed.1 hd
    have hp : s.thread.posts l = .posted := (h.posted.mem_iff l).1 (List.mem_append_left _ hl)
    have hm := h.main_of_destroy hk hwork
    rcases h.destroys l hwork' (by rw [hp]; rintro ⟨⟩) with hm' | ⟨hm', -⟩
    · rw [hm] at hm'
      cases hm'
      exact absurd hl (h.of_mem_pending hk).2
    · rw [hm] at hm'
      cases hm'

/-- Something is done to the set that keeps it empty. -/
theorem of_touch (h : Orderly work s) {f : OverlayTracker → OverlayTracker}
    (hdestroyed : (f s.tracker).destroyed = s.tracker.destroyed)
    (hempty : s.tracker.ongoing = [] → (f s.tracker).ongoing = []) : Orderly work (s.touch f) := by
  unfold touch
  split
  · exact ⟨h.posted, h.undisturbed, h.uncancelled, h.constructing, h.waits, h.adds, h.closing,
      h.destroys, h.destroyed, h.empty, h.closed⟩
  · refine ⟨h.posted, h.undisturbed, h.uncancelled, h.constructing, h.waits, h.adds, h.closing,
      h.destroys, ?_, fun hd => hempty (h.empty (hdestroyed ▸ hd)), fun hc => ?_⟩
    · exact hdestroyed ▸ h.destroyed
    · exact hdestroyed ▸ h.closed hc

end Orderly

variable [DecidableEq κ] (work)

/-- The next state. -/
def step (s : ThreadedTracker κ) : ThreadedEvent κ → Option (ThreadedTracker κ)
  | .thread e =>
    if s.runsItem e then none
    else
      (s.main.after work e).bind fun main =>
        (s.thread.step e).map fun thread => { s with thread := thread, main := main }
  | .runItem create start =>
    match s.thread.worker with
    | .dispatching (k :: _) => (s.thread.step .dispatch).map fun thread =>
        { s with thread := thread }.touch fun t => t.runWork create start (work k)
    | _ => none
  | .connect connected =>
    match s.main with
    | .constructing =>
      if s.thread.constructed then
        some { s with main := if connected then .idle else .closed }
      else none
    | _ => none
  | .returned =>
    match s.main with
    | .calling k => if k ∈ s.thread.executed then some { s with main := .idle } else none
    | .closing k => if k ∈ s.thread.executed then some { s with main := .closed } else none
    | _ => none
  | .untrustedHelperStopped appid instanceid helpertype =>
    if s.thread.worker.inLoop then
      if helpertype = helperType then
        some (s.touch fun t => t.untrustedHelperStopped appid instanceid helpertype)
      else some s
    else none

/-- What a step can do. -/
inductive Step (s : ThreadedTracker κ) : ThreadedEvent κ → ThreadedTracker κ → Prop
  | thread (e : ThreadEvent Unit κ) (main : MainThread κ) (thread : ContextThread Unit κ)
      (hm : s.main.after work e = some main) (hs : s.thread.step e = some thread)
      (hitems : e = .dispatch → s.thread.worker.items = []) :
      Step s (.thread e) { s with thread := thread, main := main }
  | runItem (create : Option ℕ) (start : Option Text) (k : κ) (items : List κ)
      (hw : s.thread.worker = .dispatching (k :: items)) (thread : ContextThread Unit κ)
      (hs : s.thread.step .dispatch = some thread) :
      Step s (.runItem create start)
        ({ s with thread := thread }.touch fun t => t.runWork create start (work k))
  | connect (connected : Bool) (hm : s.main = .constructing) (hc : s.thread.constructed = true) :
      Step s (.connect connected) { s with main := if connected then .idle else .closed }
  | calledBack (k : κ) (hm : s.main = .calling k) (hk : k ∈ s.thread.executed) :
      Step s .returned { s with main := .idle }
  | closedDown (k : κ) (hm : s.main = .closing k) (hk : k ∈ s.thread.executed) :
      Step s .returned { s with main := .closed }
  | stopped (appid instanceid : Text) (hw : s.thread.worker.inLoop = true) :
      Step s (.untrustedHelperStopped appid instanceid helperType)
        (s.touch fun t => t.untrustedHelperStopped appid instanceid helperType)
  | otherStopped (appid instanceid helpertype : Text) (hne : helpertype ≠ helperType) :
      Step s (.untrustedHelperStopped appid instanceid helpertype) s

variable {work} {s' : ThreadedTracker κ} {e : ThreadedEvent κ}

/-- `Step` says everything a step can do. -/
theorem step_sound (h : s.step work e = some s') : Step work s e s' := by
  cases e with
  | thread e =>
    rw [step] at h
    obtain ⟨hno, h⟩ := Option.ite_none_left_eq_some.1 h
    obtain ⟨main, hm, h⟩ := Option.bind_eq_some_iff.1 h
    obtain ⟨thread, hs, rfl⟩ := Option.map_eq_some_iff.1 h
    refine .thread e main thread hm hs ?_
    rintro rfl
    simpa [runsItem] using hno
  | runItem create start =>
    rw [step] at h
    split at h
    · next k items hw =>
      obtain ⟨thread, hs, rfl⟩ := Option.map_eq_some_iff.1 h
      exact .runItem create start k items hw thread hs
    · cases h
  | connect connected =>
    rw [step] at h
    split at h
    · next hm =>
      obtain ⟨hc, h⟩ := Option.ite_none_right_eq_some.1 h
      cases h
      exact .connect connected hm hc
    · cases h
  | returned =>
    rw [step] at h
    split at h
    · next k hm =>
      obtain ⟨hk, h⟩ := Option.ite_none_right_eq_some.1 h
      cases h
      exact .calledBack k hm hk
    · next k hm =>
      obtain ⟨hk, h⟩ := Option.ite_none_right_eq_some.1 h
      cases h
      exact .closedDown k hm hk
    · cases h
  | untrustedHelperStopped appid instanceid helpertype =>
    rw [step] at h
    obtain ⟨hw, h⟩ := Option.ite_none_right_eq_some.1 h
    split_ifs at h with ht
    · cases h
      rw [ht]
      exact .stopped appid instanceid hw
    · cases h
      exact .otherStopped appid instanceid helpertype ht

/-! ### The invariant -/

/-- A post that begins while the main thread stays where it is is one of Mir. -/
theorem posts_of_after {main : MainThread κ} {e : ThreadEvent Unit κ} {s s' : ContextThread Unit κ}
    (hs : s.step e = some s') (htest : ∀ k, e = .testPost k → main.hasConnection = true ∧
      ∃ session, work k = .removeSession session) (k : κ) :
    s'.posts k = s.posts k ∨ (s.posts k = .attaching ∧ s'.posts k = .posted) ∨
      (s.posts k = .testing ∧ main.hasConnection = true ∧
        ∃ session, work k = .removeSession session) := by
  obtain ⟨-, -, hp⟩ | ⟨l, rfl, hl, hp⟩ | ⟨l, rfl, hl, hp⟩ := posts_of_step hs
  · exact .inl (congrFun hp k)
  · by_cases hk : k = l
    · rw [hk]
      exact .inr (.inr ⟨hl, htest l rfl⟩)
    · exact .inl (by rw [hp, Function.update_of_ne hk])
  · by_cases hk : k = l
    · rw [hk, hp, Function.update_self]
      exact .inr (.inl ⟨hl, rfl⟩)
    · exact .inl (by rw [hp, Function.update_of_ne hk])

namespace Orderly

/-- A step of the thread during which the main thread stays where it is. -/
theorem of_thread (h : Orderly work s) {e : ThreadEvent Unit κ} {thread : ContextThread Unit κ}
    (hs : s.thread.step e = some thread) (hexecuted : thread.executed = s.thread.executed)
    (hcancel : ∀ i, e = .cancel i → s.main = .closed)
    (htest : ∀ k, e = .testPost k → s.main.hasConnection = true ∧
      ∃ session, work k = .removeSession session) :
    Orderly work { s with thread := thread } := by
  have hposts := posts_of_after hs htest
  have hold : ∀ k, (∀ session, work k ≠ .removeSession session) → thread.posts k ≠ .testing →
      s.thread.posts k ≠ .testing := by
    intro k hwork hk hk'
    obtain hp | ⟨hp, -⟩ | ⟨-, -, session, hp⟩ := hposts k
    · exact hk (hp.trans hk')
    · rw [hk'] at hp
      cases hp
    · exact hwork session hp
  refine ⟨h.posted.step hs, h.undisturbed.step hs, fun hne => ?_, fun hc k => ?_, fun k hk => ?_,
    fun k appid pid url hwork hk => ?_, h.closing, fun k hwork hk => ?_, ?_, h.empty, fun hc => ?_⟩
  · rcases cancelled_of_step hs with hc | ⟨i, hi⟩
    · exact hc.trans (h.uncancelled hne)
    · exact absurd (hcancel i hi) hne
  · have hk := h.constructing hc k
    obtain hp | ⟨hp, -⟩ | ⟨-, hp, -⟩ := hposts k
    · exact hp.trans hk
    · rw [hk] at hp
      cases hp
    · rw [hc] at hp
      cases hp
  · have hwait := h.waits k hk
    obtain hp | ⟨-, hp⟩ | ⟨hp, -⟩ := hposts k
    · rwa [← hp] at hwait
    · exact .inr hp
    · rw [hp] at hwait
      rcases hwait with hwait | hwait <;> cases hwait
  · rw [hexecuted]
    exact h.adds k appid pid url hwork (hold k (fun session he => by rw [hwork] at he; cases he) hk)
  · rw [hexecuted]
    exact h.destroys k hwork (hold k (fun session he => by rw [hwork] at he; cases he) hk)
  · rw [hexecuted]
    exact h.destroyed
  · refine (h.closed hc).imp_right fun hall k => ?_
    obtain hp | ⟨hp, -⟩ | ⟨-, hp, -⟩ := hposts k
    · exact hp.trans (hall k)
    · rw [hall k] at hp
      cases hp
    · rw [hc] at hp
      cases hp

/-- The main thread begins a call. -/
theorem of_post (h : Orderly work s) {k : κ} {main : MainThread κ} {thread : ContextThread Unit κ}
    (hs : s.thread.step (.testPost k) = some thread) (hidle : s.main = .idle)
    (hbegin : (∃ appid pid url, work k = .addOverlay appid pid url ∧ main = .calling k) ∨
      (work k = .destroy ∧ main = .closing k)) :
    Orderly work { s with thread := thread, main := main } := by
  have hcancelled : s.thread.cancelled = false := h.uncancelled (by rw [hidle]; rintro ⟨⟩)
  have hexecuted : thread.executed = s.thread.executed := executed_of_step hs (by rintro ⟨⟩)
  have hposts : thread.posts = Function.update s.thread.posts k .attaching := by
    obtain ⟨hno, -⟩ | ⟨l, hl, -, hp⟩ | ⟨l, hl, -⟩ := posts_of_step hs
    · exact absurd rfl (hno k)
    · cases hl
      rwa [hcancelled, if_neg Bool.false_ne_true] at hp
    · cases hl
  -- the items of former calls have run
  have hdestroys : ∀ l, work l = .destroy → l ≠ k → thread.posts l = .testing := by
    intro l hwork hne
    by_contra hl
    rw [hposts, Function.update_of_ne hne] at hl
    rcases h.destroys l hwork hl with hm | ⟨hm, -⟩ <;> rw [hidle] at hm <;> cases hm
  have hadds : ∀ l appid pid url, work l = .addOverlay appid pid url → l ≠ k →
      thread.posts l ≠ .testing → l ∈ thread.executed := by
    intro l appid pid url hwork hne hl
    rw [hposts, Function.update_of_ne hne] at hl
    rw [hexecuted]
    refine (h.adds l appid pid url hwork hl).resolve_left ?_
    rw [hidle]
    rintro ⟨⟩
  have hself : thread.posts k = .attaching := by rw [hposts, Function.update_self]
  have huncancelled : thread.cancelled = false := by
    rcases cancelled_of_step hs with hc | ⟨i, hi⟩
    · exact hc.trans hcancelled
    · cases hi
  have hdestroyed : s.tracker.destroyed = true ↔ ∃ l ∈ thread.executed, work l = .destroy := by
    rw [hexecuted]
    exact h.destroyed
  obtain ⟨appid, pid, url, hwork, rfl⟩ | ⟨hwork, rfl⟩ := hbegin
  · refine ⟨h.posted.step hs, h.undisturbed.step hs, fun _ => huncancelled, fun hm => (by cases hm),
      fun l hl => ?_, fun l appid' pid' url' hl hne => ?_, fun l hl => (by cases hl),
      fun l hl hne => ?_, hdestroyed, h.empty, fun hm => (by cases hm)⟩
    · rcases hl with hl | hl <;> cases hl
      exact .inl hself
    · by_cases hlk : l = k
      · exact .inl (by rw [hlk])
      · exact .inr (hadds l appid' pid' url' hl hlk hne)
    · refine absurd (hdestroys l hl ?_) hne
      rintro rfl
      rw [hwork] at hl
      cases hl
  · refine ⟨h.posted.step hs, h.undisturbed.step hs, fun _ => huncancelled, fun hm => (by cases hm),
      fun l hl => ?_, fun l appid' pid' url' hl hne => .inr (hadds l appid' pid' url' hl ?_ hne),
      fun l hl => ?_, fun l hl hne => ?_, hdestroyed, h.empty, fun hm => (by cases hm)⟩
    · rcases hl with hl | hl <;> cases hl
      exact .inl hself
    · rintro rfl
      rw [hwork] at hl
      cases hl
    · cases hl
      exact hwork
    · by_cases hlk : l = k
      · exact .inl (by rw [hlk])
      · exact absurd (hdestroys l hl hlk) hne

/-- The worker runs an item. -/
theorem of_runItem (h : Orderly work s) {k : κ} {items : List κ}
    (hw : s.thread.worker = .dispatching (k :: items)) {thread : ContextThread Unit κ}
    (hs : s.thread.step .dispatch = some thread) (create : Option ℕ) (start : Option Text) :
    Orderly work ({ s with thread := thread }.touch fun t => t.runWork create start (work k)) := by
  have hk : k ∈ s.thread.pending := by simp [pending, hw, Worker.items]
  have hposted := h.posted.step hs
  have hundisturbed := h.undisturbed.step hs
  have hthread := step_dispatch hw
  rw [hs] at hthread
  cases hthread
  have hexecuted : ∀ {l}, l ∈ s.thread.executed → l ∈ s.thread.executed ++ [k] :=
    List.mem_append_left _
  -- what is left is that the loop of the destructor is over as soon as its item has run
  have hkeep : ∀ tracker stray,
      (tracker.destroyed = true ↔ s.tracker.destroyed = true ∨ work k = .destroy) →
      (tracker.destroyed = true → tracker.ongoing = []) →
      Orderly work ⟨{ s.thread with worker := .dispatching items,
                                    executed := s.thread.executed ++ [k] },
        tracker, s.main, stray⟩ := by
    intro tracker stray hdestroyed hempty
    refine ⟨hposted, hundisturbed, h.uncancelled, h.constructing, h.waits,
      fun l appid pid url hl hp => (h.adds l appid pid url hl hp).imp_right hexecuted, h.closing,
      fun l hl hp => (h.destroys l hl hp).imp_right (And.imp_right hexecuted), ?_, hempty,
      fun hc => (h.closed hc).imp_left fun hd => hdestroyed.2 (.inl hd)⟩
    rw [hdestroyed, h.destroyed]
    simp [or_and_right, exists_or]
  unfold touch
  split
  · next hm =>
    refine hkeep s.tracker true ⟨.inl, fun hd => hd.resolve_right fun hwork => ?_⟩ h.empty
    have hm : s.main = .closed := hm
    rw [h.main_of_destroy hk hwork] at hm
    cases hm
  · refine hkeep _ s.stray ?_ fun hd => ?_
    · exact s.tracker.destroyed_runWork create start (work k)
    · dsimp only at hd ⊢
      by_cases hd' : s.tracker.destroyed = true
      · rw [h.runWork_of_destroyed hd' hk]
        exact h.empty hd'
      · exact OverlayTracker.ongoing_of_runWork (Bool.eq_false_iff.2 hd') hd

/-- **One step keeps the invariant.** -/
theorem step (h : Orderly work s) (hs : s.step work e = some s') : Orderly work s' := by
  cases step_sound hs with
  | thread e main thread hm hthread hitems =>
    obtain ⟨rfl, hcancel, htest⟩ | ⟨k, rfl, hidle, hbegin⟩ := after_cases hm
    · exact h.of_thread hthread (executed_of_step hthread hitems) hcancel htest
    · exact h.of_post hthread hidle hbegin
  | runItem create start k items hw thread hthread => exact h.of_runItem hw hthread create start
  | connect connected hm hc =>
    have hall := h.constructing hm
    refine ⟨h.posted, h.undisturbed, fun _ => h.uncancelled (by rw [hm]; rintro ⟨⟩), fun _ => hall,
      fun k hk => ?_, fun k _ _ _ _ hk => absurd (hall k) hk, fun k hk => ?_,
      fun k _ hk => absurd (hall k) hk, h.destroyed, h.empty, fun _ => .inr hall⟩
    · cases connected <;> rcases hk with hk | hk <;> cases hk
    · cases connected <;> cases hk
  | calledBack k hm hk =>
    refine ⟨h.posted, h.undisturbed, fun _ => h.uncancelled (by rw [hm]; rintro ⟨⟩),
      fun hc => (by cases hc), fun l hl => (by rcases hl with hl | hl <;> cases hl),
      fun l appid pid url hwork hl => .inr ?_, fun l hl => (by cases hl), fun l hwork hl => ?_,
      h.destroyed, h.empty, fun hc => (by cases hc)⟩
    · rcases h.adds l appid pid url hwork hl with hl | hl
      · rw [hm] at hl
        cases hl
        exact hk
      · exact hl
    · rcases h.destroys l hwork hl with hl | ⟨hl, -⟩ <;> rw [hm] at hl <;> cases hl
  | closedDown k hm hk =>
    have hwork := h.closing k hm
    refine ⟨h.posted, h.undisturbed, fun hne => absurd rfl hne, fun hc => (by cases hc),
      fun l hl => (by rcases hl with hl | hl <;> cases hl),
      fun l appid pid url hwork hl => .inr ?_, fun l hl => (by cases hl),
      fun l hwork hl => .inr ⟨rfl, ?_⟩, h.destroyed, h.empty,
      fun _ => .inl (h.destroyed.2 ⟨k, hk, hwork⟩)⟩
    · refine (h.adds l appid pid url hwork hl).resolve_left fun hl => ?_
      rw [hm] at hl
      cases hl
    · rcases h.destroys l hwork hl with hl | ⟨hl, -⟩
      · rw [hm] at hl
        cases hl
        exact hk
      · rw [hm] at hl
        cases hl
  | stopped appid instanceid hw =>
    have hshrinks := s.tracker.shrinks_untrustedHelperStopped appid instanceid helperType
    refine h.of_touch hshrinks.destroyed fun hnil => List.eq_nil_iff_forall_not_mem.2 fun o ho => ?_
    have ho' := hshrinks.ongoing o ho
    rw [hnil] at ho'
    cases ho'
  | otherStopped appid instanceid helpertype hne => exact h

end Orderly

end ThreadedTracker

end UrlDispatcher
