import UrlDispatcher.Overlay.Tracker

/-!
# Stop notifications in flight

When Mir reports that a session has stopped, the work item that removes it carries the *handle* of
the session, a raw pointer.  Until the item runs, the session can be ended by its helper, and its
handle can be given to a new session.

`SourcedTracker` is the tracker together with the session each queued item was posted for, which the
tracker itself does not know.

* `EndsOwn` : the next item, if it removes a session, ends no overlay but that of the session it was
  posted for.
* `KeepsHandles` : no overlay starts in a session whose handle a queued removal carries.
* `endsOwn_of_run` : in runs that keep handles apart every removal ends its own overlay only, and
  the first step that does not keep them apart can be followed by a removal that ends another.
-/

namespace UrlDispatcher

open Machine

namespace OverlayTracker

/-- The session Mir means by a handle: the last one created with it. -/
def lastSession (t : OverlayTracker) (handle : ℕ) : Option Session :=
  t.created.reverse.find? fun s => s.handle = handle

theorem lastSession_of_created {t t' : OverlayTracker} {s : Session}
    (h : t'.created = t.created ++ [s]) (handle : ℕ) :
    t'.lastSession handle = if s.handle = handle then some s else t.lastSession handle := by
  simp only [lastSession, h, List.reverse_append, List.reverse_singleton, List.singleton_append,
    List.find?_cons]
  split_ifs with hs <;> simp [hs]

theorem mem_created_of_lastSession {t : OverlayTracker} {handle : ℕ} {s : Session}
    (h : t.lastSession handle = some s) : s ∈ t.created :=
  List.mem_reverse.1 (List.mem_of_find?_eq_some h)

/-- No overlay starts in a session whose handle a queued `removeSession` carries, as far as the
queue runs before the destructor. -/
def KeepsHandles (t : OverlayTracker) (e : TrackerEvent) : Prop :=
  ∀ handle instanceid, e = .runWork (some handle) (some instanceid) →
    ∀ appid pid url queue, t.queue = .addOverlay appid pid url :: queue →
      .removeSession handle ∉ queue.takeWhile fun w => w ≠ .destroy

/-- A removal leaves the overlays with other handles. -/
theorem mem_removeSession_of_ne {t : OverlayTracker} {o : Overlay} {session : ℕ}
    (ho : o ∈ t.ongoing) (h : o.session.handle ≠ session) :
    o ∈ (t.removeSession session).ongoing := by
  obtain ⟨-, he⟩ | ⟨o', -, hh', he⟩ := t.removeSession_cases session
  · rwa [he]
  · rw [he]
    refine (List.mem_erase_of_ne ?_).2 ho
    rintro rfl
    exact h hh'

/-- A removal ends the overlay with the handle, since no other overlay has it. -/
theorem Balanced.not_mem_removeSession {t : OverlayTracker} (h : Balanced t) {o : Overlay}
    (ho : o ∈ t.ongoing) : o ∉ (t.removeSession o.session.handle).ongoing := by
  rw [h.removeSession_eq ho]
  exact h.handles.of_map.not_mem_erase

end OverlayTracker

/-! ### The session an item was posted for -/

/-- The tracker, and the items of its queue together with the session whose end each was posted
for. -/
structure SourcedTracker where
  tracker : OverlayTracker
  posted : List (Work × Option Session)

namespace SourcedTracker

open OverlayTracker

/-- A new tracker. -/
def init : SourcedTracker := ⟨.init, []⟩

/-- The items after an event. -/
def postedAfter (n : SourcedTracker) : TrackerEvent → List (Work × Option Session)
  | .addOverlay appid pid url => n.posted ++ [(.addOverlay appid pid url, none)]
  | .sessionStateChanged session .stopped =>
    n.posted ++ [(.removeSession session, n.tracker.lastSession session)]
  | .sessionStateChanged _ _ => n.posted
  | .untrustedHelperStopped _ _ _ => n.posted
  | .runWork _ _ => n.posted.tail
  | .destroy => n.posted ++ [(.destroy, none)]

/-- The next state. -/
def step (n : SourcedTracker) (e : TrackerEvent) : Option SourcedTracker :=
  (n.tracker.step e).map fun t => ⟨t, n.postedAfter e⟩

/-- The next item, if it is a `removeSession`, removes no overlay and stops no helper but those of
the session it was posted for. -/
def EndsOwn (n : SourcedTracker) : Prop :=
  ∀ session source posted, n.posted = (.removeSession session, source) :: posted →
    ∀ create start n', n.step (.runWork create start) = some n' →
      (∀ o ∈ n.tracker.ongoing, o ∉ n'.tracker.ongoing → source = some o.session) ∧
      ∃ stopped, n'.tracker.stopRequests = n.tracker.stopRequests ++ stopped ∧
        ∀ o ∈ stopped, source = some o.session

/-- Mir creates no session. -/
def NoSession (e : TrackerEvent) : Prop := ∀ handle start, e ≠ .runWork (some handle) start

/-- What a step can do: nothing, post an item, handle a stopped helper, or run the next item. -/
theorem step_cases {n n' : SourcedTracker} {e : TrackerEvent}
    (hp : n.posted.map Prod.fst = n.tracker.queue) (h : n.step e = some n') :
    n.tracker.destroyed = false ∧
      (n' = n ∨
      (∃ work source closing,
        n' = ⟨{ n.tracker with queue := n.tracker.queue ++ [work], closing := closing },
          n.posted ++ [(work, source)]⟩ ∧
        (source = none ∨ ∃ s, source = some s ∧ s ∈ n.tracker.created) ∧
        ∀ session, work = .removeSession session → source = n.tracker.lastSession session) ∨
      (∃ appid instanceid helpertype,
        n' = ⟨n.tracker.untrustedHelperStopped appid instanceid helpertype, n.posted⟩) ∨
      ∃ create start work source posted, e = .runWork create start ∧
        n.posted = (work, source) :: posted ∧
        n' = ⟨{ n.tracker with queue := posted.map Prod.fst }.runWork create start work,
          posted⟩) := by
  obtain ⟨t, posted⟩ := n
  obtain ⟨t', ht, rfl⟩ := Option.map_eq_some_iff.1 h
  refine ⟨(OverlayTracker.step_cases ht).1, ?_⟩
  dsimp only at hp ht
  unfold OverlayTracker.step at ht
  obtain ⟨-, ht⟩ := Option.ite_none_left_eq_some.1 ht
  cases e with
  | addOverlay appid pid url =>
    obtain ⟨-, ht⟩ := Option.ite_none_left_eq_some.1 ht
    cases ht
    exact .inr (.inl ⟨_, none, t.closing, rfl, .inl rfl, by rintro _ ⟨⟩⟩)
  | sessionStateChanged session state =>
    cases state with
    | stopped =>
      cases ht
      refine .inr (.inl ⟨_, t.lastSession session, t.closing, rfl, ?_, by rintro _ ⟨⟩; rfl⟩)
      cases hs : t.lastSession session with
      | none => exact .inl rfl
      | some s => exact .inr ⟨s, rfl, mem_created_of_lastSession hs⟩
    | started => cases ht; exact .inl rfl
    | suspended => cases ht; exact .inl rfl
  | untrustedHelperStopped appid instanceid helpertype =>
    cases ht
    exact .inr (.inr (.inl ⟨appid, instanceid, helpertype, rfl⟩))
  | runWork create start =>
    cases posted with
    | nil =>
      rw [← hp] at ht
      cases ht
    | cons p posted =>
      rw [← hp] at ht
      cases ht
      exact .inr (.inr (.inr ⟨create, start, p.1, p.2, posted, rfl, rfl, rfl⟩))
  | destroy =>
    obtain ⟨-, ht⟩ := Option.ite_none_left_eq_some.1 ht
    cases ht
    exact .inr (.inl ⟨_, none, true, rfl, .inl rfl, by rintro _ ⟨⟩⟩)

/-- The next item runs. -/
theorem step_runWork {n : SourcedTracker} {work : Work} {source : Option Session}
    {posted : List (Work × Option Session)} (hp : n.posted.map Prod.fst = n.tracker.queue)
    (hd : n.tracker.destroyed = false) (h : n.posted = (work, source) :: posted)
    (create : Option ℕ) (start : Option Text) :
    n.step (.runWork create start) =
      some ⟨{ n.tracker with queue := posted.map Prod.fst }.runWork create start work, posted⟩ := by
  rw [h, List.map_cons] at hp
  simp only [step, OverlayTracker.step, hd, ← hp, Bool.false_eq_true, ↓reduceIte, Option.map_some,
    postedAfter, h, List.tail_cons]

/-! ### The invariant -/

/-- The items that run before the destructor. -/
def beforeDestroy (posted : List (Work × Option Session)) : List (Work × Option Session) :=
  posted.takeWhile fun p => p.1 ≠ .destroy

theorem beforeDestroy_cons {work : Work} (h : work ≠ .destroy) (source : Option Session)
    (posted : List (Work × Option Session)) :
    beforeDestroy ((work, source) :: posted) = (work, source) :: beforeDestroy posted := by
  simp [beforeDestroy, h]

theorem mem_beforeDestroy_append {p q : Work × Option Session}
    {posted : List (Work × Option Session)} (h : p ∈ beforeDestroy (posted ++ [q])) :
    p ∈ beforeDestroy posted ∨ p = q := by
  rw [beforeDestroy, List.takeWhile_append] at h
  split_ifs at h with hlen
  · -- no item before the new one is the destructor's
    have hall : beforeDestroy posted = posted := (List.takeWhile_prefix _).eq_of_length hlen
    rcases List.mem_append.1 h with h | h
    · exact .inl (hall.symm ▸ h)
    · exact .inr (List.mem_singleton.1 ((List.takeWhile_sublist _).subset h))
  · exact .inl h

theorem map_beforeDestroy (posted : List (Work × Option Session)) :
    (posted.map Prod.fst).takeWhile (fun w => w ≠ .destroy) =
      (beforeDestroy posted).map Prod.fst := by
  rw [List.takeWhile_map]
  rfl

/-- Every queued removal was posted for the session that has its handle now, if there is one. -/
structure Attributed (n : SourcedTracker) : Prop where
  balanced : Balanced n.tracker
  posted : n.posted.map Prod.fst = n.tracker.queue
  last : ∀ o ∈ n.tracker.ongoing, n.tracker.lastSession o.session.handle = some o.session
  known : ∀ work s, (work, some s) ∈ n.posted → s ∈ n.tracker.created
  own : ∀ session source, (.removeSession session, source) ∈ beforeDestroy n.posted →
    ∀ o ∈ n.tracker.ongoing, o.session.handle = session → source = some o.session

namespace Attributed

variable {n n' : SourcedTracker} {e : TrackerEvent}

theorem init : Attributed .init where
  balanced := .init
  posted := rfl
  last _ h := by cases h
  known _ _ h := by cases h
  own _ _ h := by cases h

/-- Ending overlays keeps the attribution. -/
theorem shrink (h : Attributed n) {t : OverlayTracker} (hs : Shrinks n.tracker t)
    (hb : Balanced t) : Attributed ⟨t, n.posted⟩ where
  balanced := hb
  posted := h.posted.trans hs.queue.symm
  last o ho := by
    have hl := h.last o (hs.ongoing o ho)
    rwa [lastSession, ← hs.created] at hl
  known work s hm := hs.created ▸ h.known work s hm
  own session source hm o ho := h.own session source hm o (hs.ongoing o ho)

/-- A removal is posted for the session that has the handle. -/
theorem post (h : Attributed n) {work : Work} {source : Option Session} (closing : Bool)
    (hk : source = none ∨ ∃ s, source = some s ∧ s ∈ n.tracker.created)
    (hl : ∀ session, work = .removeSession session → source = n.tracker.lastSession session) :
    Attributed ⟨{ n.tracker with queue := n.tracker.queue ++ [work], closing := closing },
      n.posted ++ [(work, source)]⟩ where
  balanced := h.balanced.of_queue _ _ _
  posted := by rw [List.map_append, h.posted]; rfl
  last := h.last
  known work' s hm := by
    rcases List.mem_append.1 hm with hm | hm
    · exact h.known work' s hm
    · have hs : some s = source := congrArg Prod.snd (List.mem_singleton.1 hm)
      obtain hn | ⟨s', hs', hc⟩ := hk
      · rw [hn] at hs
        cases hs
      · rw [hs', Option.some.injEq] at hs
        exact hs ▸ hc
  own session source' hm o ho hh := by
    rcases mem_beforeDestroy_append hm with hm | hm
    · exact h.own session source' hm o ho hh
    · obtain ⟨hw, hs⟩ := Prod.mk.injEq _ _ _ _ ▸ hm
      rw [hs, hl session hw.symm, ← hh]
      exact h.last o ho

/-- An item is taken off the queue. -/
theorem pop (h : Attributed n) {work : Work} {source : Option Session}
    {posted : List (Work × Option Session)} (hp : n.posted = (work, source) :: posted)
    (hw : work ≠ .destroy) :
    Attributed ⟨{ n.tracker with queue := posted.map Prod.fst }, posted⟩ where
  balanced := h.balanced.of_queue _ _ _
  posted := rfl
  last := h.last
  known work' s hm := h.known work' s (hp ▸ List.mem_cons_of_mem _ hm)
  own session source' hm := by
    refine h.own session source' ?_
    rw [hp, beforeDestroy_cons hw]
    exact List.mem_cons_of_mem _ hm

/-- A session is created under a handle that no live session has, and whatever is done with it, no
queued removal is about it. -/
theorem create (h : Attributed n) {t : OverlayTracker} {s : Session}
    (hc : t.created = n.tracker.created ++ [s]) (hq : t.queue = n.tracker.queue)
    (ho : ∀ o ∈ t.ongoing, o ∈ n.tracker.ongoing ∨ (o.session = s ∧
      .removeSession s.handle ∉ (beforeDestroy n.posted).map Prod.fst))
    (hfresh : ∀ o ∈ n.tracker.ongoing, o.session.handle ≠ s.handle) (hb : Balanced t) :
    Attributed ⟨t, n.posted⟩ where
  balanced := hb
  posted := h.posted.trans hq.symm
  last o hm := by
    rw [lastSession_of_created hc]
    rcases ho o hm with hm | ⟨rfl, -⟩
    · rw [if_neg (hfresh o hm).symm]
      exact h.last o hm
    · exact if_pos rfl
  known work s' hm := by
    rw [hc]
    exact List.mem_append_left _ (h.known work s' hm)
  own session source hm o hmem hh := by
    rcases ho o hmem with hmem | ⟨rfl, hno⟩
    · exact h.own session source hm o hmem hh
    · refine absurd ?_ hno
      rw [hh]
      exact List.mem_map.2 ⟨_, hm, rfl⟩

theorem addOverlay (h : Attributed n) (appid : Text) (pid : ℕ) (url : Text) (create : Option ℕ)
    (start : Option Text)
    (hfresh : ∀ handle, create = some handle → ∀ s, n.tracker.Live s → s.handle ≠ handle)
    (hkeep : ∀ handle instanceid, create = some handle → start = some instanceid →
      .removeSession handle ∉ (beforeDestroy n.posted).map Prod.fst) :
    Attributed ⟨(n.tracker.addOverlay appid pid url create start).1, n.posted⟩ := by
  have hb := h.balanced.addOverlay appid pid url create start hfresh
  have hheld : ∀ handle, create = some handle → ∀ o ∈ n.tracker.ongoing,
      o.session.handle ≠ handle := fun handle hc o ho =>
    hfresh handle hc o.session ((h.balanced.live_iff _).2 ⟨o, ho, rfl⟩)
  cases create with
  | none => exact h
  | some handle =>
    have hheld := hheld handle rfl
    cases start with
    | none => exact h.create rfl rfl (fun o ho => .inl ho) hheld hb
    | some instanceid =>
      rw [addOverlay_of_fresh hheld] at hb ⊢
      refine h.create rfl rfl (fun o ho => ?_) hheld hb
      rcases (List.mem_orderedInsert _).1 ho with rfl | ho
      · exact .inr ⟨rfl, hkeep handle instanceid rfl rfl⟩
      · exact .inl ho

/-- **One step keeps the attribution**, unless an overlay starts in a session whose handle a queued
removal carries. -/
theorem of_step (h : Attributed n) (hf : n.tracker.FreshHandle e) (hk : n.tracker.KeepsHandles e)
    (hs : n.step e = some n') : Attributed n' := by
  obtain ⟨-, rfl | ⟨work, source, closing, rfl, hknown, hlast⟩ |
    ⟨appid, instanceid, helpertype, rfl⟩ |
    ⟨create, start, work, source, posted, rfl, hp, rfl⟩⟩ := step_cases h.posted hs
  · exact h
  · exact h.post closing hknown hlast
  · exact h.shrink (shrinks_untrustedHelperStopped _ _ _ _)
      (h.balanced.untrustedHelperStopped appid instanceid helpertype)
  · cases work with
    | addOverlay appid pid url =>
      refine (h.pop hp (by simp)).addOverlay appid pid url create start ?_ ?_
      · rintro handle rfl s hl
        exact hf handle start rfl s hl
      · rintro handle instanceid rfl rfl
        rw [← map_beforeDestroy]
        refine hk handle instanceid rfl appid pid url (posted.map Prod.fst) ?_
        rw [← h.posted, hp]
        rfl
    | removeSession session =>
      have hpop := h.pop hp (by simp)
      exact hpop.shrink (shrinks_removeSession _ _) (hpop.balanced.removeSession session)
    | destroy =>
      -- nothing is left that a queued removal could be about
      have hpop : Balanced { n.tracker with queue := posted.map Prod.fst } :=
        h.balanced.of_queue _ _ _
      have hs := shrinks_destroyLoop { n.tracker with queue := posted.map Prod.fst }
      have hnone := (destroyLoop_spec { n.tracker with queue := posted.map Prod.fst }).1
      refine ⟨hpop.destroyLoop.of_queue _ _ _, hs.queue.symm, fun o ho => ?_, fun work s hm => ?_,
        fun session source hm o ho => ?_⟩
      · exact absurd (hnone ▸ ho) List.not_mem_nil
      · exact hs.created ▸ h.known work s (hp ▸ List.mem_cons_of_mem _ hm)
      · exact absurd (hnone ▸ ho) List.not_mem_nil

theorem endsOwn (h : Attributed n) : n.EndsOwn := by
  intro session source posted hp create start n' hs
  have hown := h.own session source
  rw [hp, beforeDestroy_cons (by simp)] at hown
  have hown := hown List.mem_cons_self
  rw [step_runWork h.posted (step_cases h.posted hs).1 hp] at hs
  cases hs
  obtain ⟨-, he⟩ | ⟨o, ho, hh, he⟩ :=
    { n.tracker with queue := posted.map Prod.fst }.removeSession_cases session
  · rw [runWork, he]
    exact ⟨fun o ho hno => absurd ho hno, [], (List.append_nil _).symm, by simp⟩
  · rw [runWork, he]
    have hsource := hown o ho hh
    refine ⟨fun o' ho' hno => ?_, [o], rfl, fun o' ho' => ?_⟩
    · obtain rfl : o' = o := by
        by_contra hne
        exact hno ((List.mem_erase_of_ne hne).2 ho')
      exact hsource
    · rw [List.mem_singleton.1 ho']
      exact hsource

end Attributed

/-! ### A removal of another's overlay -/

/-- A queued removal that carries the handle of an overlay it was not posted for ends that overlay
when it runs: nothing else has to happen but the items before it. -/
theorem exists_not_endsOwn {t : OverlayTracker} {posted : List (Work × Option Session)}
    (hb : Balanced t) (hp : posted.map Prod.fst = t.queue) (hd : t.destroyed = false) {o : Overlay}
    (ho : o ∈ t.ongoing)
    (hq : .removeSession o.session.handle ∈ (beforeDestroy posted).map Prod.fst)
    (hsource : ∀ work, (work, some o.session) ∉ posted) :
    ∃ es n', Run step (fun _ e => NoSession e) ⟨t, posted⟩ es n' ∧ ¬ n'.EndsOwn := by
  induction posted generalizing t with
  | nil => cases hq
  | cons p posted ih =>
    obtain ⟨work, source⟩ := p
    have hstep := step_runWork (n := ⟨t, (work, source) :: posted⟩) hp hd rfl none none
    have hsource' : ∀ work, (work, some o.session) ∉ posted := fun w hm =>
      hsource w (List.mem_cons_of_mem _ hm)
    have hquiet : NoSession (.runWork none none) := by
      rintro _ _ ⟨⟩
    cases work with
    | addOverlay appid pid url =>
      -- without a session nothing changes
      rw [beforeDestroy_cons (by simp), List.map_cons, List.mem_cons] at hq
      obtain ⟨es, n', hrun, hn'⟩ := ih (t := { t with queue := posted.map Prod.fst })
        (hb.of_queue _ _ _) rfl hd ho (hq.resolve_left (by simp)) hsource'
      exact ⟨_, n', .cons hquiet hstep hrun, hn'⟩
    | removeSession session =>
      have hpop : Balanced { t with queue := posted.map Prod.fst } := hb.of_queue _ _ _
      by_cases hh : o.session.handle = session
      · subst hh
        refine ⟨[], _, .nil _, fun hends => hsource (.removeSession o.session.handle) ?_⟩
        rw [← (hends _ source posted rfl none none _ hstep).1 o ho (hpop.not_mem_removeSession ho)]
        exact List.mem_cons_self
      · have hs := shrinks_removeSession { t with queue := posted.map Prod.fst } session
        rw [beforeDestroy_cons (by simp), List.map_cons, List.mem_cons] at hq
        obtain ⟨es, n', hrun, hn'⟩ := ih (hpop.removeSession session) hs.queue.symm
          (hs.destroyed.trans hd) (mem_removeSession_of_ne ho hh)
          (hq.resolve_left (by simpa using hh)) hsource'
        exact ⟨_, n', .cons hquiet hstep hrun, hn'⟩
    | destroy => simp [beforeDestroy] at hq

/-- An overlay that starts in a session whose handle a queued removal carries can be ended by that
removal. -/
theorem Attributed.exists_not_endsOwn {n n' : SourcedTracker} (h : Attributed n) {handle : ℕ}
    {instanceid : Text}
    (hf : n.tracker.FreshHandle (.runWork (some handle) (some instanceid)))
    (hs : n.step (.runWork (some handle) (some instanceid)) = some n')
    {appid url : Text} {pid : ℕ} {queue : List Work}
    (hq : n.tracker.queue = .addOverlay appid pid url :: queue)
    (hmem : .removeSession handle ∈ queue.takeWhile fun w => w ≠ .destroy) :
    ∃ es n'', Run step (fun _ e => NoSession e) n' es n'' ∧ ¬ n''.EndsOwn := by
  have hp := h.posted
  rw [hq] at hp
  obtain ⟨⟨work, source⟩, posted, hposted, hwork, rfl⟩ := List.map_eq_cons_iff.1 hp
  obtain rfl : work = .addOverlay appid pid url := hwork
  have hd := (step_cases h.posted hs).1
  rw [step_runWork h.posted hd hposted] at hs
  cases hs
  have hlive : ∀ handle', some handle = some handle' → ∀ s, n.tracker.Live s →
      s.handle ≠ handle' := by
    intro handle' he s hl
    cases he
    exact hf handle _ rfl s hl
  have hheld : ∀ o ∈ n.tracker.ongoing, o.session.handle ≠ handle := fun o ho =>
    hlive handle rfl o.session ((h.balanced.live_iff _).2 ⟨o, ho, rfl⟩)
  have hpop : Balanced { n.tracker with queue := posted.map Prod.fst } :=
    (h.pop hposted (by simp)).balanced
  have hb := hpop.addOverlay appid pid url (some handle) (some instanceid) hlive
  have hadd := addOverlay_of_fresh (t := { n.tracker with queue := posted.map Prod.fst }) hheld
    appid pid url instanceid
  rw [runWork, hadd]
  rw [hadd] at hb
  rw [map_beforeDestroy] at hmem
  -- no item was posted for the new session
  refine SourcedTracker.exists_not_endsOwn hb rfl hd (List.mem_orderedInsert _ |>.2 (.inl rfl)) hmem
    fun work hm => h.balanced.session_not_mem handle pid ?_
  exact h.known work _ (hposted ▸ List.mem_cons_of_mem _ hm)

/-- **A stop notification ends only its own overlay** in every run in which no overlay starts in a
session whose handle a queued removal carries.  The condition is exact: as long as Mir creates no
other session, a step that keeps it is followed by such removals only, and one that does not can be
followed by a removal that ends another's overlay. -/
theorem endsOwn_of_run {es : List TrackerEvent} {n : SourcedTracker}
    (h : Run step (fun n e => n.tracker.FreshHandle e ∧ n.tracker.KeepsHandles e) init es n) :
    n.EndsOwn ∧ ∀ e n', n.tracker.FreshHandle e → n.step e = some n' →
      (n.tracker.KeepsHandles e ↔
        ∀ es' n'', Run step (fun _ e => NoSession e) n' es' n'' → n''.EndsOwn) := by
  have ha : Attributed n := h.invariant .init fun _ _ _ ha hG hs => ha.of_step hG.1 hG.2 hs
  refine ⟨ha.endsOwn, fun e n' hf hs => ⟨fun hk es' n'' h' => ?_, fun hall => ?_⟩⟩
  · have ha' : Attributed n'' := h'.invariant (ha.of_step hf hk hs) fun _ e _ ha hq hs =>
      ha.of_step (fun handle start he => absurd he (hq handle start))
        (fun handle instanceid he => absurd he (hq handle (some instanceid))) hs
    exact ha'.endsOwn
  · rintro handle instanceid rfl appid pid url queue hq hmem
    obtain ⟨es', n'', hrun, hno⟩ := ha.exists_not_endsOwn hf hs hq hmem
    exact hno (hall es' n'' hrun)

/-- The session of `a` stops while `b` is about to be added, and `b` starts in another session. -/
def stopEvents : List TrackerEvent :=
  [.addOverlay ['a'] 11 ['u'], .runWork (some 5) (some ['i']), .addOverlay ['b'] 12 ['v'],
    .sessionStateChanged 5 .stopped, .runWork (some 6) (some ['j'])]

/-- No removal is queued for the handle of the session in which an overlay starts. -/
def keepsHandles (t : OverlayTracker) : TrackerEvent → Bool
  | .runWork (some handle) (some _) =>
    !((t.queue.tail.takeWhile fun w => w ≠ .destroy).contains (.removeSession handle))
  | _ => true

theorem keepsHandles_sound {t : OverlayTracker} {e : TrackerEvent} (h : keepsHandles t e = true) :
    t.KeepsHandles e := by
  rintro handle instanceid rfl appid pid url queue hq hmem
  rw [keepsHandles, hq, List.tail_cons, List.contains_iff_mem.2 hmem] at h
  cases h

/-- The removal that follows ends `a` only. -/
theorem endsOwn_stopEvents : ∃ n, run step init stopEvents = some n ∧ n.EndsOwn := by
  obtain ⟨n, hn⟩ := Option.isSome_iff_exists.1 (show
    (run (fun n e => if decide (n.tracker.FreshHandle e) && keepsHandles n.tracker e
      then step n e else none) init stopEvents).isSome by decide)
  have hrun : Run step (fun n e => n.tracker.FreshHandle e ∧ n.tracker.KeepsHandles e) init
      stopEvents n :=
    .of_run (g := fun n e => decide (n.tracker.FreshHandle e) && keepsHandles n.tracker e)
      (fun n e hg => by
        rw [Bool.and_eq_true, decide_eq_true_eq] at hg
        exact ⟨hg.1, keepsHandles_sound hg.2⟩) hn
  exact ⟨n, hrun.run_eq, (endsOwn_of_run hrun).1⟩

/-- The session of `a` stops while `b` is about to be added; then the helper of `a` stops as well,
and the session of `b` gets the handle that is free again. -/
def reuseEvents : List TrackerEvent :=
  [.addOverlay ['a'] 11 ['u'], .runWork (some 5) (some ['i']), .addOverlay ['b'] 12 ['v'],
    .sessionStateChanged 5 .stopped, .untrustedHelperStopped ['a'] ['i'] helperType,
    .runWork (some 5) (some ['j'])]

/-- The removal posted for `a` ends `b`. -/
theorem not_endsOwn_reuseEvents :
    ¬ ∀ es n, Run step (fun n e => n.tracker.FreshHandle e) init es n → n.EndsOwn := by
  intro hall
  obtain ⟨n, hn⟩ := Option.isSome_iff_exists.1 (show
    (run (fun n e => if decide (n.tracker.FreshHandle e) then step n e else none) init
      reuseEvents).isSome by decide)
  have hrun : Run step (fun n e => n.tracker.FreshHandle e) init reuseEvents n :=
    .of_run (g := fun n e => decide (n.tracker.FreshHandle e)) (fun _ _ => of_decide_eq_true) hn
  have hends := hall reuseEvents n hrun
  cases hn
  have hb := (hends 5 (some ⟨5, 11, 0⟩) [] rfl none none _ rfl).1 ⟨['b'], ['j'], ⟨5, 12, 1⟩⟩
    (by decide) (by decide)
  cases hb

end SourcedTracker

end UrlDispatcher
