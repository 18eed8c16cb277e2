import UrlDispatcher.Db.Basic
import UrlDispatcher.Machine.Basic
import Mathlib.Data.List.Sort

/-!
# The overlay tracker

`OverlayTrackerMir` keeps a set of ongoing overlays, each with the Mir prompt session it runs in.
What touches the set runs on the tracker's own thread: the work items that other threads post
through `executeOnThread`, in the order in which they were posted, and the notification of
ubuntu-app-launch that a helper has stopped, which comes on that thread between two items.  A
session is released when the tuple that holds it goes away.

The lists `created`, `released`, `started` and `stopRequests` record what has been asked of Mir and
of ubuntu-app-launch so far.

`OverlayTracker.Balanced` is the invariant: what has been created is what has been released together
with what is held.
-/

namespace UrlDispatcher

open Machine

/-- A prompt session: the handle Mir returned, the process it is for, and which of the sessions
created so far it is. -/
structure Session where
  handle : ℕ
  pid : ℕ
  id : ℕ
deriving DecidableEq

/-- A tuple of `ongoingSessions`. -/
structure Overlay where
  appid : Text
  instanceid : Text
  session : Session
deriving DecidableEq

/-- A helper that has been started. -/
structure HelperStart where
  appid : Text
  url : Text
  instanceid : Text
  session : Session
deriving DecidableEq

/-- The helper type of overlays. -/
def helperType : Text := "url-overlay".toList

/-- The state of a prompt session that Mir reports. -/
inductive MirPromptSessionState
  | stopped
  | started
  | suspended
deriving DecidableEq

/-- A work item on the tracker's thread. -/
inductive Work
  | addOverlay (appid : Text) (pid : ℕ) (url : Text)
  | removeSession (session : ℕ)
  /-- The loop of the destructor. -/
  | destroy
deriving DecidableEq

/-- The tracker. -/
structure OverlayTracker where
  /-- `ongoingSessions`, in the order of the set. -/
  ongoing : List Overlay
  /-- The work items posted and not run yet. -/
  queue : List Work
  /-- The destructor has been called. -/
  closing : Bool
  /-- The loop of the destructor is over. -/
  destroyed : Bool
  created : List Session
  released : List Session
  started : List HelperStart
  stopRequests : List Overlay

/-- The order of `std::tuple` on the tuples of the set; the session counts with its handle. -/
def Overlay.Before (a b : Overlay) : Prop :=
  a.appid < b.appid ∨ (a.appid = b.appid ∧ (a.instanceid < b.instanceid ∨
    (a.instanceid = b.instanceid ∧ a.session.handle < b.session.handle)))

instance : DecidableRel Overlay.Before := fun _ _ => inferInstanceAs (Decidable (_ ∨ _))

/-- The set does not tell the two tuples apart. -/
def Overlay.Same (a b : Overlay) : Prop :=
  a.appid = b.appid ∧ a.instanceid = b.instanceid ∧ a.session.handle = b.session.handle

instance : DecidableRel Overlay.Same := fun _ _ => inferInstanceAs (Decidable (_ ∧ _))

namespace OverlayTracker

/-- A new tracker. -/
def init : OverlayTracker := ⟨[], [], false, false, [], [], [], []⟩

/-- `ongoingSessions.erase`: the session of the tuple is released. -/
def erase (t : OverlayTracker) (o : Overlay) : OverlayTracker :=
  { t with ongoing := t.ongoing.erase o, released := t.released ++ [o.session] }

/-- `OverlayTrackerMir::removeSession` -/
def removeSession (t : OverlayTracker) (session : ℕ) : OverlayTracker :=
  match t.ongoing.find? fun o => o.session.handle = session with
  | some o => { t with stopRequests := t.stopRequests ++ [o] }.erase o
  | none => t

/-- `OverlayTrackerMir::untrustedHelperStopped` -/
def untrustedHelperStopped (t : OverlayTracker) (appid instanceid helpertype : Text) :
    OverlayTracker :=
  if helpertype ≠ helperType then t
  else
    match t.ongoing.find? fun o => o.appid = appid ∧ o.instanceid = instanceid with
    | some o => t.erase o
    | none => t

/-- The work item of `OverlayTrackerMir::addOverlay`: `create` is the handle of the new session and
`start` the instance of the new helper, `NULL` where that fails.  Unless the tuple goes into the
set, the session is released at the end of the item. -/
def addOverlay (t : OverlayTracker) (appid : Text) (pid : ℕ) (url : Text) (create : Option ℕ)
    (start : Option Text) : OverlayTracker × Bool :=
  match create with
  | none => (t, false)
  | some handle =>
    let session : Session := ⟨handle, pid, t.created.length⟩
    let t := { t with created := t.created ++ [session] }
    match start with
    -- the last reference to the session goes with the lambda
    | none => ({ t with released := t.released ++ [session] }, false)
    | some instanceid =>
      let t := { t with started := t.started ++ [HelperStart.mk appid url instanceid session] }
      let o : Overlay := ⟨appid, instanceid, session⟩
      -- `emplace` drops a tuple that is in the set already
      if ∃ o' ∈ t.ongoing, o.Same o' then
        ({ t with released := t.released ++ [session] }, true)
      else ({ t with ongoing := t.ongoing.orderedInsert Overlay.Before o }, true)

/-- What becomes of an overlay: no session, a session that is released at once, or a session that
the set holds from then on. -/
theorem addOverlay_cases (t : OverlayTracker) (appid : Text) (pid : ℕ) (url : Text)
    (create : Option ℕ) (start : Option Text) :
    (create = none ∧ t.addOverlay appid pid url create start = (t, false)) ∨
    (∃ handle started sent, create = some handle ∧
      t.addOverlay appid pid url create start =
        ({ t with created := t.created ++ [⟨handle, pid, t.created.length⟩]
                  released := t.released ++ [⟨handle, pid, t.created.length⟩]
                  started := t.started ++ started }, sent)) ∨
    ∃ handle instanceid, create = some handle ∧
      t.addOverlay appid pid url create start =
        ({ t with created := t.created ++ [⟨handle, pid, t.created.length⟩]
                  started :=
                    t.started ++ [⟨appid, url, instanceid, ⟨handle, pid, t.created.length⟩⟩]
                  ongoing := t.ongoing.orderedInsert Overlay.Before
                    ⟨appid, instanceid, ⟨handle, pid, t.created.length⟩⟩ }, true) := by
  cases create with
  | none => exact .inl ⟨rfl, rfl⟩
  | some handle =>
    cases start with
    | none =>
      refine .inr (.inl ⟨handle, [], false, rfl, ?_⟩)
      rw [List.append_nil]
      rfl
    | some instanceid =>
      by_cases hs : ∃ o ∈ t.ongoing,
          (⟨appid, instanceid, ⟨handle, pid, t.created.length⟩⟩ : Overlay).Same o
      · exact .inr (.inl ⟨handle, _, true, rfl, if_pos hs⟩)
      · exact .inr (.inr ⟨handle, instanceid, rfl, if_neg hs⟩)

/-- A removal ends the overlay whose session has the handle, if there is one. -/
theorem removeSession_cases (t : OverlayTracker) (session : ℕ) :
    ((∀ o ∈ t.ongoing, o.session.handle ≠ session) ∧ t.removeSession session = t) ∨
      ∃ o ∈ t.ongoing, o.session.handle = session ∧
        t.removeSession session = { t with stopRequests := t.stopRequests ++ [o] }.erase o := by
  unfold removeSession
  split
  · next o ho =>
    exact .inr ⟨o, List.mem_of_find?_eq_some ho, by simpa using List.find?_some ho, rfl⟩
  · next hno => exact .inl ⟨fun o ho => by simpa using List.find?_eq_none.1 hno o ho, rfl⟩

/-- The notification about a helper ends the overlay it belongs to, if there is one. -/
theorem untrustedHelperStopped_cases (t : OverlayTracker) (appid instanceid helpertype : Text) :
    ((helpertype = helperType → ∀ o ∈ t.ongoing, ¬ (o.appid = appid ∧ o.instanceid = instanceid)) ∧
      t.untrustedHelperStopped appid instanceid helpertype = t) ∨
    (helpertype = helperType ∧ ∃ o ∈ t.ongoing, (o.appid = appid ∧ o.instanceid = instanceid) ∧
      t.untrustedHelperStopped appid instanceid helpertype = t.erase o) := by
  unfold untrustedHelperStopped
  split_ifs with htype
  · exact .inl ⟨fun h => absurd h htype, rfl⟩
  · split
    · next o ho =>
      exact .inr ⟨not_not.1 htype, o, List.mem_of_find?_eq_some ho,
        by simpa using List.find?_some ho, rfl⟩
    · next hno => exact .inl ⟨fun _ o ho => by simpa using List.find?_eq_none.1 hno o ho, rfl⟩

/-- A new session that shares its handle with no other goes into the set with its helper. -/
theorem addOverlay_of_fresh {t : OverlayTracker} {handle : ℕ}
    (h : ∀ o ∈ t.ongoing, o.session.handle ≠ handle) (appid : Text) (pid : ℕ)
    (url instanceid : Text) :
    t.addOverlay appid pid url (some handle) (some instanceid) =
      ({ t with created := t.created ++ [⟨handle, pid, t.created.length⟩]
                started := t.started ++ [⟨appid, url, instanceid, ⟨handle, pid, t.created.length⟩⟩]
                ongoing := t.ongoing.orderedInsert Overlay.Before
                  ⟨appid, instanceid, ⟨handle, pid, t.created.length⟩⟩ }, true) := by
  refine if_neg ?_
  rintro ⟨o, ho, hs⟩
  exact h o ho hs.2.2.symm

theorem removeSession_cons {t : OverlayTracker} {o : Overlay} {os : List Overlay}
    (h : t.ongoing = o :: os) : t.removeSession o.session.handle =
      { t with ongoing := os, released := t.released ++ [o.session],
               stopRequests := t.stopRequests ++ [o] } := by
  simp [removeSession, erase, h]

/-- The loop of `OverlayTrackerMir::~OverlayTrackerMir`. -/
def destroyLoop (t : OverlayTracker) : OverlayTracker :=
  match _h : t.ongoing with
  | [] => t
  | o :: _ => destroyLoop (t.removeSession o.session.handle)
termination_by t.ongoing.length
decreasing_by
  rw [removeSession_cons _h, _h]
  exact Nat.lt_succ_self _

theorem destroyLoop_nil {t : OverlayTracker} (h : t.ongoing = []) : t.destroyLoop = t := by
  rw [destroyLoop]
  split
  · rfl
  · next ht => rw [h] at ht; cases ht

theorem destroyLoop_cons {t : OverlayTracker} {o : Overlay} {os : List Overlay}
    (h : t.ongoing = o :: os) :
    t.destroyLoop = (t.removeSession o.session.handle).destroyLoop := by
  rw [destroyLoop]
  split
  · next ht => rw [h] at ht; cases ht
  · next ht =>
    rw [h] at ht
    cases ht
    rfl

/-- **The loop of the destructor leaves nothing**: the set is empty, and a stop request has gone out
for each of its tuples, in order. -/
theorem destroyLoop_spec (t : OverlayTracker) : t.destroyLoop.ongoing = [] ∧
    t.destroyLoop.stopRequests = t.stopRequests ++ t.ongoing := by
  induction t using destroyLoop.induct with
  | case1 t ht => rw [destroyLoop_nil ht, ht, List.append_nil]; exact ⟨rfl, rfl⟩
  | case2 t o os ht ih =>
    rw [destroyLoop_cons ht]
    refine ⟨ih.1, ih.2.trans ?_⟩
    rw [removeSession_cons ht, ht, List.append_assoc, List.singleton_append]

/-- `t'` is `t` with fewer overlays. -/
structure Shrinks (t t' : OverlayTracker) : Prop where
  ongoing : ∀ o ∈ t'.ongoing, o ∈ t.ongoing
  created : t'.created = t.created
  queue : t'.queue = t.queue
  destroyed : t'.destroyed = t.destroyed

theorem Shrinks.refl (t : OverlayTracker) : Shrinks t t := ⟨fun _ h => h, rfl, rfl, rfl⟩

theorem Shrinks.trans {t t' t'' : OverlayTracker} (h : Shrinks t t') (h' : Shrinks t' t'') :
    Shrinks t t'' :=
  ⟨fun o ho => h.ongoing o (h'.ongoing o ho), h'.created.trans h.created, h'.queue.trans h.queue,
    h'.destroyed.trans h.destroyed⟩

theorem shrinks_erase (t : OverlayTracker) (o : Overlay) : Shrinks t (t.erase o) :=
  ⟨fun _ h => List.mem_of_mem_erase h, rfl, rfl, rfl⟩

theorem shrinks_removeSession (t : OverlayTracker) (session : ℕ) :
    Shrinks t (t.removeSession session) := by
  obtain ⟨-, he⟩ | ⟨o, -, -, he⟩ := t.removeSession_cases session
  · rw [he]
    exact .refl t
  · rw [he]
    exact ⟨fun _ h => List.mem_of_mem_erase h, rfl, rfl, rfl⟩

theorem shrinks_untrustedHelperStopped (t : OverlayTracker) (appid instanceid helpertype : Text) :
    Shrinks t (t.untrustedHelperStopped appid instanceid helpertype) := by
  obtain ⟨-, he⟩ | ⟨-, o, -, -, he⟩ := t.untrustedHelperStopped_cases appid instanceid helpertype
  · rw [he]
    exact .refl t
  · rw [he]
    exact t.shrinks_erase o

theorem shrinks_destroyLoop (t : OverlayTracker) : Shrinks t t.destroyLoop := by
  induction t using destroyLoop.induct with
  | case1 t ht =>
    rw [destroyLoop_nil ht]
    exact .refl t
  | case2 t o os ht ih =>
    rw [destroyLoop_cons ht]
    exact (t.shrinks_removeSession _).trans ih

/-- Run a work item; `create` and `start` say what becomes of a session and a helper it asks for. -/
def runWork (t : OverlayTracker) (create : Option ℕ) (start : Option Text) :
    Work → OverlayTracker
  | .addOverlay appid pid url => (t.addOverlay appid pid url create start).1
  | .removeSession session => t.removeSession session
  | .destroy => { t.destroyLoop with destroyed := true }

end OverlayTracker

/-- What can happen to the tracker. -/
inductive TrackerEvent
  /-- `addOverlay` is called and posts its work item. -/
  | addOverlay (appid : Text) (pid : ℕ) (url : Text)
  /-- Mir reports the state of a session. -/
  | sessionStateChanged (session : ℕ) (state : MirPromptSessionState)
  /-- Ubuntu-app-launch reports that a helper has stopped. -/
  | untrustedHelperStopped (appid instanceid helpertype : Text)
  /-- The next work item runs. -/
  | runWork (create : Option ℕ) (start : Option Text)
  /-- The destructor is called and posts its work item; nothing is added from then on. -/
  | destroy

namespace OverlayTracker

/-- The next state of the tracker. -/
def step (t : OverlayTracker) (e : TrackerEvent) : Option OverlayTracker :=
  if t.destroyed then none
  else
    match e with
    | .addOverlay appid pid url =>
      if t.closing then none
      else some { t with queue := t.queue ++ [.addOverlay appid pid url] }
    | .sessionStateChanged session state =>
      if state ≠ .stopped then some t
      else some { t with queue := t.queue ++ [.removeSession session] }
    | .untrustedHelperStopped appid instanceid helpertype =>
      some (t.untrustedHelperStopped appid instanceid helpertype)
    | .runWork create start =>
      match t.queue with
      | [] => none
      | work :: queue => some ({ t with queue := queue }.runWork create start work)
    | .destroy =>
      if t.closing then none
      else some { t with queue := t.queue ++ [.destroy], closing := true }

/-- What a step can do: post a work item, handle a stopped helper, or run the next work item. -/
theorem step_cases {t t' : OverlayTracker} {e : TrackerEvent} (h : t.step e = some t') :
    t.destroyed = false ∧
      ((∃ queue closing, t' = { t with queue := queue, closing := closing }) ∨
      (∃ appid instanceid helpertype, e = .untrustedHelperStopped appid instanceid helpertype ∧
        t' = t.untrustedHelperStopped appid instanceid helpertype) ∨
      ∃ create start work queue, e = .runWork create start ∧ t.queue = work :: queue ∧
        t' = { t with queue := queue }.runWork create start work) := by
  unfold step at h
  obtain ⟨hd, h⟩ := Option.ite_none_left_eq_some.1 h
  refine ⟨Bool.eq_false_iff.2 hd, ?_⟩
  cases e with
  | addOverlay appid pid url =>
    obtain ⟨-, h⟩ := Option.ite_none_left_eq_some.1 h
    cases h
    exact .inl ⟨_, t.closing, rfl⟩
  | sessionStateChanged session state =>
    dsimp only at h
    split_ifs at h
    · cases h
      exact .inl ⟨t.queue, t.closing, rfl⟩
    · cases h
      exact .inl ⟨_, t.closing, rfl⟩
  | untrustedHelperStopped appid instanceid helpertype =>
    cases h
    exact .inr (.inl ⟨appid, instanceid, helpertype, rfl, rfl⟩)
  | runWork create start =>
    cases hq : t.queue with
    | nil => rw [hq] at h; cases h
    | cons work queue =>
      rw [hq] at h
      cases h
      exact .inr (.inr ⟨create, start, work, queue, rfl, rfl, rfl⟩)
  | destroy =>
    obtain ⟨-, h⟩ := Option.ite_none_left_eq_some.1 h
    cases h
    exact .inl ⟨_, true, rfl⟩

/-- The session has been created and not been released. -/
def Live (t : OverlayTracker) (s : Session) : Prop := s ∈ t.created ∧ s ∉ t.released

instance (t : OverlayTracker) (s : Session) : Decidable (t.Live s) :=
  inferInstanceAs (Decidable (_ ∧ _))

/-- Mir never returns the handle of a session that has not been released. -/
def FreshHandle (t : OverlayTracker) (e : TrackerEvent) : Prop :=
  ∀ handle start, e = .runWork (some handle) start → ∀ s, t.Live s → s.handle ≠ handle

instance (t : OverlayTracker) : DecidablePred t.FreshHandle
  | .runWork (some handle) start =>
    decidable_of_iff (∀ s ∈ t.created, s ∉ t.released → s.handle ≠ handle)
      ⟨fun h _ _ he s hl => by cases he; exact h s hl.1 hl.2,
        fun h s hc hr => h handle start rfl s ⟨hc, hr⟩⟩
  | .runWork none _ => isTrue fun _ _ he => by cases he
  | .addOverlay _ _ _ => isTrue fun _ _ he => by cases he
  | .sessionStateChanged _ _ => isTrue fun _ _ he => by cases he
  | .untrustedHelperStopped _ _ _ => isTrue fun _ _ he => by cases he
  | .destroy => isTrue fun _ _ he => by cases he

/-! ### The invariant -/

/-- The invariant of the tracker. -/
structure Balanced (t : OverlayTracker) : Prop where
  ids : ∀ s ∈ t.created, s.id < t.created.length
  nodup : t.created.Nodup
  /-- Created is what has been released or is held. -/
  perm : t.created.Perm (t.released ++ t.ongoing.map Overlay.session)
  handles : (t.ongoing.map fun o => o.session.handle).Nodup
  stopped : ∀ o ∈ t.stopRequests, o.session ∈ t.released
  stoppedOnce : (t.stopRequests.map Overlay.session).Nodup
  helpers : ∀ o ∈ t.stopRequests ++ t.ongoing, ∃ url,
    HelperStart.mk o.appid url o.instanceid o.session ∈ t.started

namespace Balanced

variable {t : OverlayTracker}

theorem init : Balanced .init where
  ids _ h := by cases h
  nodup := List.nodup_nil
  perm := .refl _
  handles := List.nodup_nil
  stopped _ h := by cases h
  stoppedOnce := List.nodup_nil
  helpers _ h := by cases h

/-- The queue does not matter. -/
theorem of_queue (h : Balanced t) (queue : List Work) (closing destroyed : Bool) :
    Balanced { t with queue := queue, closing := closing, destroyed := destroyed } :=
  ⟨h.ids, h.nodup, h.perm, h.handles, h.stopped, h.stoppedOnce, h.helpers⟩

theorem nodup_append (h : Balanced t) :
    (t.released ++ t.ongoing.map Overlay.session).Nodup := h.perm.nodup_iff.1 h.nodup

theorem not_released (h : Balanced t) {o : Overlay} (ho : o ∈ t.ongoing) :
    o.session ∉ t.released := fun hr =>
  (List.nodup_append.1 h.nodup_append).2.2 _ hr _ (List.mem_map_of_mem ho) rfl

/-- **Live is held.** -/
theorem live_iff (h : Balanced t) (s : Session) : t.Live s ↔ ∃ o ∈ t.ongoing, o.session = s := by
  unfold Live
  rw [h.perm.mem_iff, List.mem_append, List.mem_map]
  constructor
  · rintro ⟨hr | ho, hn⟩
    · exact absurd hr hn
    · exact ho
  · rintro ⟨o, ho, rfl⟩
    exact ⟨.inr ⟨o, ho, rfl⟩, h.not_released ho⟩

/-- Dropping a tuple releases its session. -/
theorem erase (h : Balanced t) {o : Overlay} (ho : o ∈ t.ongoing) : Balanced (t.erase o) where
  ids := h.ids
  nodup := h.nodup
  perm := by
    refine h.perm.trans ?_
    have hmap : (t.ongoing.map Overlay.session).Perm
        (o.session :: (t.ongoing.erase o).map Overlay.session) :=
      (List.perm_cons_erase ho).map Overlay.session
    rw [OverlayTracker.erase, List.append_assoc]
    exact hmap.append_left t.released
  handles := (((List.erase_sublist).map _).nodup h.handles)
  stopped o' ho' := List.mem_append_left _ (h.stopped o' ho')
  stoppedOnce := h.stoppedOnce
  helpers o' ho' := by
    refine h.helpers o' ?_
    rcases List.mem_append.1 ho' with ho' | ho'
    · exact List.mem_append_left _ ho'
    · exact List.mem_append_right _ (List.mem_of_mem_erase ho')

theorem removeSession (h : Balanced t) (session : ℕ) : Balanced (t.removeSession session) := by
  obtain ⟨-, hr⟩ | ⟨o, hmem, -, hr⟩ := t.removeSession_cases session
  · rwa [hr]
  · rw [hr]
    have he := h.erase hmem
    refine ⟨he.ids, he.nodup, he.perm, he.handles, fun o' ho' => ?_, ?_, fun o' ho' => ?_⟩
    · rcases List.mem_append.1 ho' with ho' | ho'
      · exact he.stopped o' ho'
      · rw [List.mem_singleton.1 ho']
        exact List.mem_append_right _ (List.mem_singleton_self _)
    · -- the session has not been released, so no stop has been requested for it
      change ((t.stopRequests ++ [o]).map Overlay.session).Nodup
      rw [List.map_append, List.map_singleton, List.nodup_append]
      refine ⟨h.stoppedOnce, List.nodup_singleton _, fun s hs s' hs' he => ?_⟩
      obtain ⟨o', ho', rfl⟩ := List.mem_map.1 hs
      rw [List.mem_singleton.1 hs'] at he
      exact h.not_released hmem (he ▸ h.stopped o' ho')
    · refine h.helpers o' ?_
      rcases List.mem_append.1 ho' with ho' | ho'
      · rcases List.mem_append.1 ho' with ho' | ho'
        · exact List.mem_append_left _ ho'
        · rw [List.mem_singleton.1 ho']
          exact List.mem_append_right _ hmem
      · exact List.mem_append_right _ (List.mem_of_mem_erase ho')

theorem untrustedHelperStopped (h : Balanced t) (appid instanceid helpertype : Text) :
    Balanced (t.untrustedHelperStopped appid instanceid helpertype) := by
  obtain ⟨-, he⟩ | ⟨-, o, ho, -, he⟩ := t.untrustedHelperStopped_cases appid instanceid helpertype
  · rwa [he]
  · rw [he]
    exact h.erase ho

/-- A session that is created is new. -/
theorem session_not_mem (h : Balanced t) (handle pid : ℕ) :
    (⟨handle, pid, t.created.length⟩ : Session) ∉ t.created := fun hmem =>
  Nat.lt_irrefl _ (h.ids _ hmem)

/-- A session is created and released at once. -/
theorem discard (h : Balanced t) (handle pid : ℕ) (started : List HelperStart) :
    Balanced { t with
      created := t.created ++ [⟨handle, pid, t.created.length⟩]
      released := t.released ++ [⟨handle, pid, t.created.length⟩]
      started := t.started ++ started } where
  ids s hs := by
    rw [List.length_append, List.length_singleton]
    rcases List.mem_append.1 hs with hs | hs
    · exact Nat.lt_succ_of_lt (h.ids s hs)
    · rw [List.mem_singleton.1 hs]
      exact Nat.lt_succ_self _
  nodup := List.nodup_append.2 ⟨h.nodup, List.nodup_singleton _, fun s hs s' hs' he =>
    h.session_not_mem handle pid (List.mem_singleton.1 hs' ▸ he ▸ hs)⟩
  perm := by
    refine (h.perm.append_right _).trans ?_
    rw [List.append_assoc, List.append_assoc]
    exact List.perm_append_comm.append_left _
  handles := h.handles
  stopped o ho := List.mem_append_left _ (h.stopped o ho)
  stoppedOnce := h.stoppedOnce
  helpers o ho := by
    obtain ⟨url, hu⟩ := h.helpers o ho
    exact ⟨url, List.mem_append_left _ hu⟩

/-- A session is created and held by a new tuple. -/
theorem hold (h : Balanced t) (appid : Text) (handle pid : ℕ) (url instanceid : Text)
    (hfresh : ∀ s, t.Live s → s.handle ≠ handle) :
    Balanced { t with
      created := t.created ++ [⟨handle, pid, t.created.length⟩]
      started := t.started ++ [⟨appid, url, instanceid, ⟨handle, pid, t.created.length⟩⟩]
      ongoing := t.ongoing.orderedInsert Overlay.Before
        ⟨appid, instanceid, ⟨handle, pid, t.created.length⟩⟩ } := by
  have hperm := List.perm_orderedInsert Overlay.Before
    ⟨appid, instanceid, ⟨handle, pid, t.created.length⟩⟩ t.ongoing
  have hd := h.discard handle pid []
  refine ⟨hd.ids, hd.nodup, ?_, ?_, h.stopped, h.stoppedOnce, fun o ho => ?_⟩
  -- the new session is created and held, so both sides gain it
  · refine (h.perm.append_right _).trans ?_
    rw [List.append_assoc]
    refine List.Perm.append_left _ (List.perm_append_comm.trans ?_)
    exact (hperm.map Overlay.session).symm
  -- a session in the set lives, so its handle is not the new one
  · rw [(hperm.map _).nodup_iff, List.map_cons, List.nodup_cons]
    refine ⟨fun hmem => ?_, h.handles⟩
    obtain ⟨o, ho, he⟩ := List.mem_map.1 hmem
    exact hfresh o.session ((h.live_iff _).2 ⟨o, ho, rfl⟩) he
  · rcases List.mem_append.1 ho with ho | ho
    · obtain ⟨u, hu⟩ := h.helpers o (List.mem_append_left _ ho)
      exact ⟨u, List.mem_append_left _ hu⟩
    · rcases (List.mem_orderedInsert _).1 ho with rfl | ho
      · exact ⟨url, List.mem_append_right _ (List.mem_singleton_self _)⟩
      · obtain ⟨u, hu⟩ := h.helpers o (List.mem_append_right _ ho)
        exact ⟨u, List.mem_append_left _ hu⟩

theorem addOverlay (h : Balanced t) (appid : Text) (pid : ℕ) (url : Text) (create : Option ℕ)
    (start : Option Text) (hfresh : ∀ handle, create = some handle → ∀ s, t.Live s →
      s.handle ≠ handle) : Balanced (t.addOverlay appid pid url create start).1 := by
  obtain ⟨-, he⟩ | ⟨handle, started, sent, -, he⟩ | ⟨handle, instanceid, hc, he⟩ :=
    t.addOverlay_cases appid pid url create start
  · rwa [he]
  · rw [he]
    exact h.discard handle pid started
  · rw [he]
    exact h.hold appid handle pid url instanceid (hfresh handle hc)

theorem destroyLoop (h : Balanced t) : Balanced t.destroyLoop := by
  induction t using OverlayTracker.destroyLoop.induct with
  | case1 t ht => rwa [destroyLoop_nil ht]
  | case2 t o os ht ih =>
    rw [destroyLoop_cons ht]
    exact ih (h.removeSession _)

theorem runWork (h : Balanced t) {create : Option ℕ} (start : Option Text)
    (hfresh : ∀ handle, create = some handle → ∀ s, t.Live s → s.handle ≠ handle) (work : Work) :
    Balanced (t.runWork create start work) := by
  cases work with
  | addOverlay appid pid url => exact h.addOverlay appid pid url create start hfresh
  | removeSession session => exact h.removeSession session
  | destroy => exact h.destroyLoop.of_queue _ _ _

/-- **One step keeps the invariant.** -/
theorem of_step (h : Balanced t) {t' : OverlayTracker} {e : TrackerEvent} (hfresh : t.FreshHandle e)
    (hs : t.step e = some t') : Balanced t' := by
  obtain ⟨-, ⟨queue, closing, rfl⟩ | ⟨appid, instanceid, helpertype, -, rfl⟩ |
    ⟨create, start, work, queue, rfl, -, rfl⟩⟩ := step_cases hs
  · exact h.of_queue queue closing _
  · exact h.untrustedHelperStopped appid instanceid helpertype
  · refine (h.of_queue queue _ _).runWork start (fun handle hc s hl => ?_) work
    exact hfresh handle start (hc ▸ rfl) s hl

/-- A session has been released once, or it is held and has not been released. -/
theorem count_released (h : Balanced t) {s : Session} (hs : s ∈ t.created) :
    t.released.count s = if t.Live s then 0 else 1 := by
  have hnd := (List.nodup_append.1 h.nodup_append).1
  by_cases hr : s ∈ t.released
  · rw [List.count_eq_one_of_mem hnd hr, if_neg fun hl => hl.2 hr]
  · rw [List.count_eq_zero_of_not_mem hr, if_pos ⟨hs, hr⟩]

/-- An overlay with a new session and a helper goes into the set. -/
theorem addOverlay_of_not_live (h : Balanced t) {handle : ℕ}
    (hfresh : ∀ s, t.Live s → s.handle ≠ handle) (appid : Text) (pid : ℕ) (url instanceid : Text) :
    (t.addOverlay appid pid url (some handle) (some instanceid)).2 = true ∧
      ∀ o, o ∈ (t.addOverlay appid pid url (some handle) (some instanceid)).1.ongoing ↔
        o = ⟨appid, instanceid, ⟨handle, pid, t.created.length⟩⟩ ∨ o ∈ t.ongoing := by
  rw [addOverlay_of_fresh fun o ho => hfresh o.session ((h.live_iff _).2 ⟨o, ho, rfl⟩)]
  exact ⟨rfl, fun o => List.mem_orderedInsert _⟩

/-- The removal of a session ends its overlay, since no other overlay has its handle. -/
theorem removeSession_eq (h : Balanced t) {o : Overlay} (ho : o ∈ t.ongoing) :
    t.removeSession o.session.handle =
      { t with stopRequests := t.stopRequests ++ [o] }.erase o := by
  obtain ⟨hno, -⟩ | ⟨o', ho', hhandle, he⟩ := t.removeSession_cases o.session.handle
  · exact absurd rfl (hno o ho)
  · rw [he, List.inj_on_of_nodup_map h.handles ho' ho hhandle]

/-- Nothing lives after the loop of the destructor. -/
theorem not_live_destroyLoop (h : Balanced t) (s : Session) : ¬ t.destroyLoop.Live s := by
  intro hl
  obtain ⟨o, ho, -⟩ := (h.destroyLoop.live_iff s).1 hl
  rw [t.destroyLoop_spec.1] at ho
  cases ho

end Balanced

/-- Adding an overlay does not end the tracker. -/
theorem destroyed_addOverlay (t : OverlayTracker) (appid : Text) (pid : ℕ) (url : Text)
    (create : Option ℕ) (start : Option Text) :
    (t.addOverlay appid pid url create start).1.destroyed = t.destroyed := by
  obtain ⟨-, he⟩ | ⟨_, _, _, -, he⟩ | ⟨_, _, -, he⟩ := t.addOverlay_cases appid pid url create start
  all_goals rw [he]

/-- A tracker whose destructor's loop is over holds nothing. -/
theorem ongoing_of_step {t t' : OverlayTracker} {e : TrackerEvent} (h : t.step e = some t')
    (hd : t'.destroyed = true) : t'.ongoing = [] := by
  obtain ⟨hd', ⟨queue, closing, rfl⟩ | ⟨appid, instanceid, helpertype, -, rfl⟩ |
    ⟨create, start, work, queue, -, -, rfl⟩⟩ := step_cases h
  · exact absurd hd (hd' ▸ Bool.false_ne_true)
  · rw [(t.shrinks_untrustedHelperStopped _ _ _).destroyed, hd'] at hd
    cases hd
  · cases work with
    | addOverlay appid pid url =>
      rw [runWork, destroyed_addOverlay] at hd
      exact absurd hd (hd' ▸ Bool.false_ne_true)
    | removeSession session =>
      rw [runWork, (shrinks_removeSession _ session).destroyed] at hd
      exact absurd hd (hd' ▸ Bool.false_ne_true)
    | destroy => exact (destroyLoop_spec _).1

/-- An overlay is added if there is a session and a helper for it. -/
theorem addOverlay_snd (t : OverlayTracker) (appid : Text) (pid : ℕ) (url : Text)
    (create : Option ℕ) (start : Option Text) :
    (t.addOverlay appid pid url create start).2 = (create.isSome && start.isSome) := by
  cases create with
  | none => rfl
  | some handle =>
    cases start with
    | none => rfl
    | some instanceid =>
      simp only [addOverlay]
      split_ifs <;> rfl

/-- An `addOverlay` that fails leaves the set as it was. -/
theorem ongoing_of_addOverlay_eq_false {t : OverlayTracker} {appid : Text} {pid : ℕ} {url : Text}
    {create : Option ℕ} {start : Option Text}
    (h : (t.addOverlay appid pid url create start).2 = false) :
    (t.addOverlay appid pid url create start).1.ongoing = t.ongoing := by
  obtain ⟨-, he⟩ | ⟨_, _, _, -, he⟩ | ⟨_, _, -, he⟩ := t.addOverlay_cases appid pid url create start
  · rw [he]
  · rw [he]
  · -- the tuple only goes into the set when nothing has failed
    rw [he] at h
    cases h

/-- **The bookkeeping of the overlays is balanced.**  After every run the sessions that have been
created and not released are those of the set; a session is released once, when it leaves the set,
so every session has been released once when the destructor is done; a stop request is for a helper
that has been started, and there is one at most for each tuple.  An overlay that cannot be added
leaves the set alone, and the loop of the destructor empties it.  An overlay with a session and a
helper goes into the set, and leaves it when its session is removed, with a stop request, or when
its helper is reported to have stopped. -/
theorem overlays_balanced {es : List TrackerEvent} {t : OverlayTracker}
    (h : Run step FreshHandle init es t) :
    (∀ s, t.Live s ↔ ∃ o ∈ t.ongoing, o.session = s) ∧
    (t.ongoing.map Overlay.session).Nodup ∧
    t.created.Nodup ∧
    (∀ s ∈ t.released, s ∈ t.created) ∧
    (∀ s ∈ t.created, t.released.count s = if t.Live s then 0 else 1) ∧
    (t.destroyed = true → t.ongoing = [] ∧ ∀ s ∈ t.created, t.released.count s = 1) ∧
    (t.stopRequests.map Overlay.session).Nodup ∧
    (∀ o ∈ t.stopRequests, ∃ url,
      HelperStart.mk o.appid url o.instanceid o.session ∈ t.started) ∧
    (∀ appid pid url create start, (t.addOverlay appid pid url create start).2 = false →
      (t.addOverlay appid pid url create start).1.ongoing = t.ongoing) ∧
    t.destroyLoop.ongoing = [] ∧
    (∀ s, ¬ t.destroyLoop.Live s) ∧
    t.destroyLoop.stopRequests = t.stopRequests ++ t.ongoing ∧
    (∀ appid pid url handle instanceid, (∀ s, t.Live s → s.handle ≠ handle) →
      (t.addOverlay appid pid url (some handle) (some instanceid)).2 = true ∧
      ∀ o, o ∈ (t.addOverlay appid pid url (some handle) (some instanceid)).1.ongoing ↔
        o = ⟨appid, instanceid, ⟨handle, pid, t.created.length⟩⟩ ∨ o ∈ t.ongoing) ∧
    (∀ o ∈ t.ongoing, t.removeSession o.session.handle =
      { t with stopRequests := t.stopRequests ++ [o] }.erase o) ∧
    (∀ appid instanceid helpertype,
      ((helpertype = helperType →
          ∀ o ∈ t.ongoing, ¬ (o.appid = appid ∧ o.instanceid = instanceid)) ∧
        t.untrustedHelperStopped appid instanceid helpertype = t) ∨
      (helpertype = helperType ∧ ∃ o ∈ t.ongoing, (o.appid = appid ∧ o.instanceid = instanceid) ∧
        t.untrustedHelperStopped appid instanceid helpertype = t.erase o)) := by
  have hb : Balanced t := h.invariant Balanced.init fun _ _ _ hb hf hs => hb.of_step hf hs
  have hd : t.destroyed = true → t.ongoing = [] :=
    h.invariant (fun hd => absurd hd Bool.false_ne_true)
      fun _ _ _ _ _ hs hd => ongoing_of_step hs hd
  refine ⟨hb.live_iff, (List.nodup_append.1 hb.nodup_append).2.1, hb.nodup, fun s hs => ?_,
    fun s hs => hb.count_released hs, fun hdes => ⟨hd hdes, fun s hs => ?_⟩, hb.stoppedOnce,
    fun o ho => hb.helpers o (List.mem_append_left _ ho),
    fun appid pid url create start hf => ongoing_of_addOverlay_eq_false hf, t.destroyLoop_spec.1,
    hb.not_live_destroyLoop, t.destroyLoop_spec.2,
    fun appid pid url handle instanceid hf => hb.addOverlay_of_not_live hf appid pid url instanceid,
    fun o ho => hb.removeSession_eq ho, t.untrustedHelperStopped_cases⟩
  · exact hb.perm.mem_iff.2 (List.mem_append_left _ hs)
  · rw [hb.count_released hs, if_neg]
    intro hl
    obtain ⟨o, ho, -⟩ := (hb.live_iff s).1 hl
    rw [hd hdes] at ho
    cases ho
/-- Two overlays are added; the session of the first ends, and the tracker is destroyed. -/
def overlayEvents : List TrackerEvent :=
  [.addOverlay ['a'] 11 ['u'], .runWork (some 5) (some ['i']), .addOverlay ['b'] 12 ['v'],
    .runWork (some 6) (some ['j']), .sessionStateChanged 5 .stopped, .runWork none none, .destroy,
    .runWork none none]

/-- `overlays_balanced` for two overlays: both sessions have been released. -/
theorem overlays_balanced_overlayEvents : ∃ t, run step init overlayEvents = some t ∧
    t.ongoing = [] ∧ ∀ s, ¬ t.Live s := by
  obtain ⟨t, ht⟩ := Option.isSome_iff_exists.1 (show
    (run (fun t e => if decide (t.FreshHandle e) then step t e else none) init
      overlayEvents).isSome by decide)
  have hrun : Run step FreshHandle init overlayEvents t :=
    .of_run (g := fun t e => decide (t.FreshHandle e)) (fun _ _ => of_decide_eq_true) ht
  have hb := overlays_balanced hrun
  have hd : t.destroyed = true := by cases ht; rfl
  have ho := (hb.2.2.2.2.2.1 hd).1
  refine ⟨t, hrun.run_eq, ho, fun s hl => ?_⟩
  obtain ⟨o, hmem, -⟩ := (hb.1 s).1 hl
  rw [ho] at hmem
  cases hmem

end OverlayTracker

end UrlDispatcher
