import UrlDispatcher.Dispatch.Reply
import UrlDispatcher.Machine.Simulation

/-!
# Clients of the service

`url_dispatch_send` and its relatives send one message to the service and hand the reply to a
callback.  `Exchange` is a session with any number of such calls: the messages and the replies on
their way, the calls that wait, the service, and its tracker, to which Mir and ubuntu-app-launch
report.  The service may answer a message twice; GDBus drops what comes after the first reply.  It
may also die of a message, which ends the session for it: what has not come to it by then is given
up by GDBus.

* `Faithful` : the invariant of a session, from the message of a call to its callback.
* `callbacks_of_run` : each message is handled at most once and within its package, each callback
  runs at most once and says what has been done, and none waits for ever.
-/

namespace UrlDispatcher

open Machine

/-! ### The library -/

/-- The arguments of `url_dispatch_send_restricted`. -/
structure SendCall where
  url : Text
  package : Option Text
  /-- `cb` is not `NULL`. -/
  hasCallback : Bool

/-- `dispatch_data_t` -/
structure DispatchData where
  /-- `cb` is not `NULL`. -/
  cb : Bool
  url : Text
  package : Option Text

/-- A message for the method `DispatchURL`. -/
structure DispatchMessage where
  url : Text
  package : Text
  /-- GDBus asks for no reply if there is nobody to hand it to. -/
  replyExpected : Bool

/-- The package of the message. -/
def SendCall.packageArg (c : SendCall) : Text := c.package.getD []

/-- `url_dispatch_send_restricted`: the message, and what is kept until its reply comes; nothing
without a session bus. -/
def urlDispatchSendRestricted (sessionBus : Bool) (c : SendCall) :
    Option (DispatchMessage × Option DispatchData) :=
  if sessionBus then
    some (⟨c.url, c.packageArg, c.hasCallback⟩,
      if c.hasCallback then some ⟨true, c.url, c.package⟩ else none)
  else none

/-- `url_dispatch_send` -/
def urlDispatchSend (sessionBus : Bool) (url : Text) (hasCallback : Bool) :
    Option (DispatchMessage × Option DispatchData) :=
  urlDispatchSendRestricted sessionBus ⟨url, none, hasCallback⟩

/-- `url_dispatched`: the call of the callback, with the URL and the success. -/
def urlDispatched (d : DispatchData) (error : Bool) : List (Text × Bool) :=
  if d.cb then [(d.url, !error)] else []

/-- `g_dbus_connection_call_finish` sets an error for the reply. -/
def Reply.isError : Reply → Bool
  | returnValue _ => false
  | returnError _ _ => true
  | unknownMethod => true

/-- `url_dispatch_url_appid`, which is answered with the reply, or not at all. -/
def urlDispatchUrlAppid (sessionBus : Bool) (answer : Option Reply) : Option (List Text) :=
  if sessionBus then
    match answer with
    | some (.returnValue appids) => appids
    | _ => none
  else none

/-- What is done for a restricted message belongs to its package. -/
theorem belongsTo_of_mem_actions {w : System} {o : Outcomes} {url package : Text} {a : Action}
    (ha : a ∈ (dispatchUrl w o url package).actions) (hp : package ≠ []) :
    BelongsTo w a.appid package := by
  obtain ⟨-, h⟩ | ⟨r, -, -, h⟩ | ⟨r, -, hrestrict, -, -, c, b, hsent, h⟩ |
    ⟨r, -, -, -, -, c, hun, h⟩ | ⟨r, -, -, -, -, h⟩ := dispatchUrl_cases w o url package
  all_goals rw [h] at ha
  · cases ha
  · cases ha
  · rw [hsent.actions, List.mem_singleton] at ha
    rw [ha, hsent.appid]
    exact ((dispatcherAppidRestrict_eq_false_iff w _ _).1 hrestrict).resolve_left hp
  · rw [hun.actions] at ha
    cases ha
  · cases ha

/-- **The first reply tells**: it is an error exactly if nothing has been done; unless the service
has died, and then nothing has been done either. -/
theorem dispatchUrl_head (w : System) (o : Outcomes) (url package : Text) :
    ((dispatchUrl w o url package).crashed = true ∧ (dispatchUrl w o url package).replies = [] ∧
      (dispatchUrl w o url package).actions = []) ∨
    ((dispatchUrl w o url package).crashed = false ∧
      ∃ r rs, (dispatchUrl w o url package).replies = r :: rs ∧
        ((r.isError = false ∧ ∃ a, (dispatchUrl w o url package).actions = [a]) ∨
          (r.isError = true ∧ (dispatchUrl w o url package).actions = []))) := by
  obtain ⟨-, h⟩ | ⟨r, -, -, h⟩ | ⟨r, -, -, -, -, c, a, hsent, h⟩ | ⟨r, -, -, -, -, c, hun, h⟩ |
    ⟨r, -, -, -, -, h⟩ := dispatchUrl_cases w o url package
  all_goals rw [h]
  · exact .inr ⟨rfl, _, [], rfl, .inr ⟨rfl, rfl⟩⟩
  · exact .inr ⟨rfl, _, [], rfl, .inr ⟨rfl, rfl⟩⟩
  · exact .inr ⟨hsent.alive, _, [], rfl, .inl ⟨rfl, a, hsent.actions⟩⟩
  · exact .inr ⟨hun.alive, _, _, rfl, .inr ⟨rfl, hun.actions⟩⟩
  · exact .inl ⟨rfl, rfl, rfl⟩

/-! ### The session -/

/-- A session; the calls of the library that are ever made are those of `κ`. -/
structure Exchange (κ : Type*) where
  /-- The calls made so far. -/
  made : List κ
  /-- The messages that have not come to the service. -/
  requests : κ → Option DispatchMessage
  /-- The replies that have not come to the client. -/
  replies : List (κ × Reply)
  /-- The calls that wait for their replies. -/
  waiting : κ → Option DispatchData
  /-- The calls of callbacks. -/
  callbacks : List (κ × Text × Bool)
  /-- The messages the service has handled, with what it read and met then. -/
  handled : List (κ × System × Outcomes)
  /-- The tracker of the service, as it has left it if it is gone. -/
  tracker : Option OverlayTracker
  /-- The service has died. -/
  gone : Bool

/-- What can happen in a session. -/
inductive ExchangeEvent (κ : Type*)
  /-- A call is made, with or without a session bus. -/
  | send (k : κ) (sessionBus : Bool)
  /-- The service handles a message, and may die of it; the tracker is its own. -/
  | handle (k : κ) (w : System) (o : Outcomes)
  /-- The next reply comes to the client. -/
  | receive
  /-- GDBus gives up a call: nobody has the name, the service is gone, or it takes too long. -/
  | fail (k : κ)
  /-- The tracker runs the item for a session that Mir has stopped. -/
  | removeSession (session : ℕ)
  /-- Ubuntu-app-launch reports to the tracker that a helper has stopped. -/
  | untrustedHelperStopped (appid instanceid helpertype : Text)

namespace Exchange

variable {κ : Type*}

/-- The session when the service starts. -/
def init (tracker : Option OverlayTracker) : Exchange κ :=
  ⟨[], fun _ => none, [], fun _ => none, [], [], tracker, false⟩

/-- What the service does for a call. -/
def dispatched (calls : κ → SendCall) (h : κ × System × Outcomes) : Call :=
  dispatchUrl h.2.1 h.2.2 (calls h.1).url (calls h.1).packageArg

/-- The callback of another call says nothing about this one. -/
theorem mem_callbacks_append {s : Exchange κ} {k l : κ} (hkl : k ≠ l) (data : DispatchData)
    (error : Bool) :
    k ∈ (s.callbacks ++ (urlDispatched data error).map (l, ·)).map Prod.fst ↔
      k ∈ s.callbacks.map Prod.fst := by
  rw [List.map_append, List.mem_append]
  refine or_iff_left fun hmem => ?_
  obtain ⟨p, hp, rfl⟩ := List.mem_map.1 hmem
  obtain ⟨r, -, rfl⟩ := List.mem_map.1 hp
  exact hkl rfl

/-- The service passes its own tracker. -/
def outcomes (s : Exchange κ) (o : Outcomes) : Outcomes := { o with tracker := s.tracker }

variable [DecidableEq κ] (calls : κ → SendCall)

/-- The next state. -/
def step (s : Exchange κ) : ExchangeEvent κ → Option (Exchange κ)
  | .send k sessionBus =>
    if k ∈ s.made then none
    else
      match urlDispatchSendRestricted sessionBus (calls k) with
      | none => some { s with made := k :: s.made }
      | some (message, data) => some { s with
          made := k :: s.made
          requests := Function.update s.requests k (some message)
          waiting := Function.update s.waiting k data }
  | .handle k w o =>
    if s.gone then none
    else
      match s.requests k with
      | none => none
      | some message =>
        let o := s.outcomes o
        let c := dispatchUrl w o message.url message.package
        some { s with
          requests := Function.update s.requests k none
          replies := s.replies ++ if message.replyExpected then c.replies.map (k, ·) else []
          handled := s.handled ++ [(k, w, o)]
          tracker := c.tracker
          gone := c.crashed }
  | .receive =>
    match s.replies with
    | [] => none
    | (k, r) :: replies =>
      match s.waiting k with
      -- the call has been answered already
      | none => some { s with replies := replies }
      | some data => some { s with
          replies := replies
          waiting := Function.update s.waiting k none
          callbacks := s.callbacks ++ (urlDispatched data r.isError).map (k, ·) }
  | .fail k =>
    match s.waiting k with
    | none => none
    | some data => some { s with
        waiting := Function.update s.waiting k none
        callbacks := s.callbacks ++ (urlDispatched data true).map (k, ·) }
  | .removeSession session =>
    if s.gone then none
    else some { s with tracker := s.tracker.map fun t => t.removeSession session }
  | .untrustedHelperStopped appid instanceid helpertype =>
    if s.gone then none
    else some { s with
      tracker := s.tracker.map fun t => t.untrustedHelperStopped appid instanceid helpertype }

/-- What a step can do. -/
inductive Step (s : Exchange κ) : ExchangeEvent κ → Exchange κ → Prop
  | sendNowhere (k : κ) (hk : k ∉ s.made) : Step s (.send k false) { s with made := k :: s.made }
  | send (k : κ) (hk : k ∉ s.made) : Step s (.send k true) { s with
      made := k :: s.made
      requests := Function.update s.requests k
        (some ⟨(calls k).url, (calls k).packageArg, (calls k).hasCallback⟩)
      waiting := Function.update s.waiting k
        (if (calls k).hasCallback then some ⟨true, (calls k).url, (calls k).package⟩ else none) }
  | handle (k : κ) (w : System) (o : Outcomes) (message : DispatchMessage)
      (hgone : s.gone = false) (hk : s.requests k = some message) : Step s (.handle k w o) { s with
      requests := Function.update s.requests k none
      replies := s.replies ++ if message.replyExpected then
        (dispatchUrl w (s.outcomes o) message.url message.package).replies.map (k, ·) else []
      handled := s.handled ++ [(k, w, s.outcomes o)]
      tracker := (dispatchUrl w (s.outcomes o) message.url message.package).tracker
      gone := (dispatchUrl w (s.outcomes o) message.url message.package).crashed }
  | drop (k : κ) (r : Reply) (replies : List (κ × Reply)) (hr : s.replies = (k, r) :: replies)
      (hk : s.waiting k = none) : Step s .receive { s with replies := replies }
  | answer (k : κ) (r : Reply) (replies : List (κ × Reply)) (hr : s.replies = (k, r) :: replies)
      (data : DispatchData) (hk : s.waiting k = some data) : Step s .receive { s with
      replies := replies
      waiting := Function.update s.waiting k none
      callbacks := s.callbacks ++ (urlDispatched data r.isError).map (k, ·) }
  | fail (k : κ) (data : DispatchData) (hk : s.waiting k = some data) : Step s (.fail k) { s with
      waiting := Function.update s.waiting k none
      callbacks := s.callbacks ++ (urlDispatched data true).map (k, ·) }
  | removeSession (session : ℕ) (hgone : s.gone = false) : Step s (.removeSession session)
      { s with tracker := s.tracker.map fun t => t.removeSession session }
  | untrustedHelperStopped (appid instanceid helpertype : Text) (hgone : s.gone = false) :
      Step s (.untrustedHelperStopped appid instanceid helpertype) { s with
        tracker := s.tracker.map fun t => t.untrustedHelperStopped appid instanceid helpertype }

variable {calls} {s s' : Exchange κ} {e : ExchangeEvent κ}

/-- `Step` says everything a step can do. -/
theorem step_sound (h : s.step calls e = some s') : Step calls s e s' := by
  cases e with
  | send k sessionBus =>
    rw [step] at h
    obtain ⟨hk, h⟩ := Option.ite_none_left_eq_some.1 h
    cases sessionBus with
    | false =>
      cases h
      exact .sendNowhere k hk
    | true =>
      cases h
      exact .send k hk
  | handle k w o =>
    rw [step] at h
    obtain ⟨hgone, h⟩ := Option.ite_none_left_eq_some.1 h
    split at h
    · cases h
    · next message hk =>
      cases h
      exact .handle k w o message (Bool.eq_false_iff.2 hgone) hk
  | receive =>
    rw [step] at h
    split at h
    · cases h
    · next k r replies hr =>
      split at h
      · next hk =>
        cases h
        exact .drop k r replies hr hk
      · next data hk =>
        cases h
        exact .answer k r replies hr data hk
  | fail k =>
    rw [step] at h
    split at h
    · cases h
    · next data hk =>
      cases h
      exact .fail k data hk
  | removeSession session =>
    obtain ⟨hgone, h⟩ := Option.ite_none_left_eq_some.1 h
    cases h
    exact .removeSession session (Bool.eq_false_iff.2 hgone)
  | untrustedHelperStopped appid instanceid helpertype =>
    obtain ⟨hgone, h⟩ := Option.ite_none_left_eq_some.1 h
    cases h
    exact .untrustedHelperStopped appid instanceid helpertype (Bool.eq_false_iff.2 hgone)

/-! ### Callbacks -/

/-- The invariant: a message and what is kept for its reply say what the call says; a call that
waits has no callback, and the replies to its message are those of the service, which is gone if it
has died of one; a callback reports the first of them, unless GDBus may give up the call. -/
structure Faithful (calls : κ → SendCall) (gaveUp : κ → Prop) (s : Exchange κ) : Prop where
  requests : ∀ k message, s.requests k = some message → k ∈ s.made ∧
    message = ⟨(calls k).url, (calls k).packageArg, (calls k).hasCallback⟩ ∧
    k ∉ s.handled.map Prod.fst
  waiting : ∀ k data, s.waiting k = some data → k ∈ s.made ∧ data.cb = true ∧
    data.url = (calls k).url ∧ (calls k).hasCallback = true ∧ k ∉ s.callbacks.map Prod.fst
  handled : (s.handled.map Prod.fst).Nodup ∧ ∀ k ∈ s.handled.map Prod.fst, k ∈ s.made
  once : (s.callbacks.map Prod.fst).Nodup ∧ ∀ k ∈ s.callbacks.map Prod.fst, k ∈ s.made
  replies : ∀ p ∈ s.replies, p.1 ∈ s.handled.map Prod.fst
  awaits : ∀ h ∈ s.handled, s.waiting h.1 ≠ none →
    (s.replies.filter fun p => p.1 = h.1).map Prod.snd = (dispatched calls h).replies
  alive : s.gone = false → ∀ h ∈ s.handled, (dispatched calls h).crashed = false
  /-- The reply is still to come. -/
  served : ∀ k, s.waiting k ≠ none → s.requests k ≠ none ∨ k ∈ s.handled.map Prod.fst
  callbacks : ∀ c ∈ s.callbacks, (calls c.1).hasCallback = true ∧ c.2.1 = (calls c.1).url ∧
    ((c.2.2 = false ∧ gaveUp c.1) ∨ ∃ h ∈ s.handled, h.1 = c.1 ∧
      ∃ r rs, (dispatched calls h).replies = r :: rs ∧ c.2.2 = !r.isError)

theorem faithful_init (calls : κ → SendCall) (gaveUp : κ → Prop) (tracker : Option OverlayTracker) :
    Faithful calls gaveUp (init tracker) where
  requests _ _ h := by cases h
  waiting _ _ h := by cases h
  handled := ⟨List.nodup_nil, fun _ h => by cases h⟩
  once := ⟨List.nodup_nil, fun _ h => by cases h⟩
  replies _ h := by cases h
  awaits _ h := by cases h
  alive _ _ h := by cases h
  served _ h := absurd rfl h
  callbacks _ h := by cases h

namespace Faithful

variable {gaveUp : κ → Prop}

/-- A call ends with one call of its callback. -/
theorem finish (h : Faithful calls gaveUp s) {k : κ} {data : DispatchData}
    (hk : s.waiting k = some data) (error : Bool)
    (hreport : (error = true ∧ gaveUp k) ∨ ∃ h ∈ s.handled, h.1 = k ∧
      ∃ r rs, (dispatched calls h).replies = r :: rs ∧ error = r.isError) :
    Faithful calls gaveUp { s with
      waiting := Function.update s.waiting k none
      callbacks := s.callbacks ++ (urlDispatched data error).map (k, ·) } := by
  obtain ⟨hmade, hcb, hurl, hhas, hno⟩ := h.waiting k data hk
  have hcallback : (urlDispatched data error).map (k, ·) = [(k, (calls k).url, !error)] := by
    rw [urlDispatched, if_pos hcb, hurl]
    rfl
  rw [hcallback]
  have hfst : (s.callbacks ++ [(k, (calls k).url, !error)]).map Prod.fst =
      s.callbacks.map Prod.fst ++ [k] := by simp
  refine ⟨h.requests, fun l d hl => ?_, h.handled, ⟨?_, fun l hl => ?_⟩, h.replies,
    fun p hp hl => ?_, h.alive, fun l hl => h.served l fun hnone => hl ?_, fun c hc => ?_⟩
  · dsimp only at hl ⊢
    have hlk : l ≠ k := by
      rintro rfl
      rw [Function.update_self] at hl
      cases hl
    rw [Function.update_of_ne hlk] at hl
    obtain ⟨hmade', hcb', hurl', hhas', hno'⟩ := h.waiting l d hl
    refine ⟨hmade', hcb', hurl', hhas', ?_⟩
    rw [hfst, List.mem_append, List.mem_singleton]
    exact not_or.2 ⟨hno', hlk⟩
  · dsimp only
    rw [hfst]
    exact List.nodup_append.2 ⟨h.once.1, List.nodup_singleton k, fun l hl l' hl' he =>
      hno (by rwa [← List.mem_singleton.1 hl', ← he])⟩
  · dsimp only at hl
    rw [hfst, List.mem_append, List.mem_singleton] at hl
    rcases hl with hl | rfl
    · exact h.once.2 l hl
    · exact hmade
  · dsimp only at hl
    have hpk : p.1 ≠ k := by
      intro hpk
      rw [hpk, Function.update_self] at hl
      exact hl rfl
    rw [Function.update_of_ne hpk] at hl
    exact h.awaits p hp hl
  · dsimp only
    by_cases hlk : l = k
    · rw [hlk, Function.update_self]
    · rwa [Function.update_of_ne hlk]
  · rcases List.mem_append.1 hc with hc | hc
    · exact h.callbacks c hc
    · rw [List.mem_singleton.1 hc]
      refine ⟨hhas, rfl, ?_⟩
      rcases hreport with ⟨rfl, hgave⟩ | ⟨p, hp, hpk, r, rs, hr, rfl⟩
      · exact .inl ⟨rfl, hgave⟩
      · exact .inr ⟨p, hp, hpk, r, rs, hr, rfl⟩

/-- Dropping the next reply to a call that does not wait. -/
theorem drop (h : Faithful calls gaveUp s) {k : κ} {r : Reply} {replies : List (κ × Reply)}
    (hr : s.replies = (k, r) :: replies) (hk : s.waiting k = none) :
    Faithful calls gaveUp { s with replies := replies } := by
  refine ⟨h.requests, h.waiting, h.handled, h.once, fun p hp => h.replies p ?_, fun p hp hl => ?_,
    h.alive, h.served, h.callbacks⟩
  · rw [hr]
    exact List.mem_cons_of_mem _ hp
  · rw [← h.awaits p hp hl, hr, List.filter_cons_of_neg]
    rintro hpk
    rw [← of_decide_eq_true hpk, hk] at hl
    exact hl rfl

/-- A call is made: it is new to everything. -/
theorem send (h : Faithful calls gaveUp s) {k : κ} (hk : k ∉ s.made) :
    Faithful calls gaveUp { s with
      made := k :: s.made
      requests := Function.update s.requests k
        (some ⟨(calls k).url, (calls k).packageArg, (calls k).hasCallback⟩)
      waiting := Function.update s.waiting k
        (if (calls k).hasCallback then some ⟨true, (calls k).url, (calls k).package⟩
          else none) } := by
  have hmade : ∀ l ∈ s.made, l ∈ k :: s.made := fun _ => List.mem_cons_of_mem k
  refine ⟨fun l message hl => ?_, fun l data hl => ?_,
    ⟨h.handled.1, fun l hl => hmade l (h.handled.2 l hl)⟩,
    ⟨h.once.1, fun l hl => hmade l (h.once.2 l hl)⟩, h.replies, fun p hp hl => h.awaits p hp ?_,
    h.alive, fun l hl => ?_, h.callbacks⟩
  · dsimp only at hl ⊢
    by_cases hlk : l = k
    · subst hlk
      rw [Function.update_self] at hl
      cases hl
      exact ⟨List.mem_cons_self, rfl, fun hmem => hk (h.handled.2 l hmem)⟩
    · rw [Function.update_of_ne hlk] at hl
      obtain ⟨hl, hrest⟩ := h.requests l message hl
      exact ⟨hmade l hl, hrest⟩
  · dsimp only at hl ⊢
    by_cases hlk : l = k
    · subst hlk
      rw [Function.update_self] at hl
      obtain ⟨hhas, hl⟩ := Option.ite_none_right_eq_some.1 hl
      cases hl
      exact ⟨List.mem_cons_self, rfl, rfl, hhas, fun hmem => hk (h.once.2 l hmem)⟩
    · rw [Function.update_of_ne hlk] at hl
      obtain ⟨hl, hrest⟩ := h.waiting l data hl
      exact ⟨hmade l hl, hrest⟩
  · dsimp only at hp hl
    have hpk : p.1 ≠ k := by
      rintro rfl
      exact hk (h.handled.2 _ (List.mem_map_of_mem hp))
    rwa [Function.update_of_ne hpk] at hl
  · dsimp only at hl ⊢
    by_cases hlk : l = k
    · rw [hlk, Function.update_self]
      exact .inl (by rintro ⟨⟩)
    · rw [Function.update_of_ne hlk] at hl ⊢
      exact h.served l hl

/-- The service handles a message: its replies are the first ones to the call. -/
theorem handle (h : Faithful calls gaveUp s) {k : κ} {message : DispatchMessage}
    (hgone : s.gone = false) (hk : s.requests k = some message) (w : System) (o : Outcomes)
    (tracker : Option OverlayTracker) :
    Faithful calls gaveUp { s with
      requests := Function.update s.requests k none
      replies := s.replies ++ if message.replyExpected then
        (dispatchUrl w o message.url message.package).replies.map (k, ·) else []
      handled := s.handled ++ [(k, w, o)]
      tracker := tracker
      gone := (dispatchUrl w o message.url message.package).crashed } := by
  obtain ⟨hmade, rfl, hno⟩ := h.requests k message hk
  have hfst : (s.handled ++ [(k, w, o)]).map Prod.fst = s.handled.map Prod.fst ++ [k] := by simp
  have hmem : ∀ l ∈ s.handled.map Prod.fst, l ∈ (s.handled ++ [(k, w, o)]).map Prod.fst := by
    rw [hfst]
    exact fun l => List.mem_append_left _
  refine ⟨fun l message hl => ?_, h.waiting, ⟨?_, fun l hl => ?_⟩, h.once, fun p hp => ?_,
    fun p hp hl => ?_, fun hcrash p hp => ?_, fun l hl => ?_, fun c hc => ?_⟩
  · dsimp only at hl ⊢
    have hlk : l ≠ k := by
      rintro rfl
      rw [Function.update_self] at hl
      cases hl
    rw [Function.update_of_ne hlk] at hl
    obtain ⟨hmade', hmessage, hno'⟩ := h.requests l message hl
    refine ⟨hmade', hmessage, ?_⟩
    rw [hfst, List.mem_append, List.mem_singleton]
    exact not_or.2 ⟨hno', hlk⟩
  · dsimp only
    rw [hfst]
    exact List.nodup_append.2 ⟨h.handled.1, List.nodup_singleton k, fun l hl l' hl' he =>
      hno (by rwa [← List.mem_singleton.1 hl', ← he])⟩
  · dsimp only at hl
    rw [hfst, List.mem_append, List.mem_singleton] at hl
    rcases hl with hl | rfl
    · exact h.handled.2 l hl
    · exact hmade
  · rcases List.mem_append.1 hp with hp | hp
    · exact hmem _ (h.replies p hp)
    · split_ifs at hp
      · obtain ⟨r, -, rfl⟩ := List.mem_map.1 hp
        exact List.mem_map_of_mem (List.mem_append_right _ (List.mem_singleton_self _))
      · cases hp
  · dsimp only at hl ⊢
    rw [List.filter_append, List.map_append]
    rcases List.mem_append.1 hp with hp | hp
    · -- the new replies are to another call
      have hpk : p.1 ≠ k := by
        intro hpk
        exact hno (hpk ▸ List.mem_map_of_mem hp)
      rw [h.awaits p hp hl, List.filter_eq_nil_iff.2, List.map_nil, List.append_nil]
      intro q hq
      split_ifs at hq
      · obtain ⟨r, -, rfl⟩ := List.mem_map.1 hq
        simpa using Ne.symm hpk
      · cases hq
    · -- and no reply to this call is under way
      rw [List.mem_singleton.1 hp] at hl ⊢
      obtain ⟨data, hdata⟩ := Option.ne_none_iff_exists'.1 hl
      obtain ⟨-, -, -, hhas, -⟩ := h.waiting k data hdata
      rw [List.filter_eq_nil_iff.2, List.map_nil, List.nil_append, if_pos hhas,
        List.filter_eq_self.2, List.map_map]
      · exact List.map_id _
      · intro q hq
        obtain ⟨r, -, rfl⟩ := List.mem_map.1 hq
        simp
      · intro q hq hqk
        exact hno ((of_decide_eq_true hqk : q.1 = k) ▸ h.replies q hq)
  · rcases List.mem_append.1 hp with hp | hp
    · exact h.alive hgone p hp
    · rw [List.mem_singleton.1 hp]
      exact hcrash
  · dsimp only
    by_cases hlk : l = k
    · rw [hfst, hlk]
      exact .inr (List.mem_append_right _ (List.mem_singleton_self k))
    · rw [Function.update_of_ne hlk]
      exact (h.served l hl).imp_right (hmem l)
  · obtain ⟨hhas, hurl, hreport⟩ := h.callbacks c hc
    refine ⟨hhas, hurl, hreport.imp_right ?_⟩
    rintro ⟨p, hp, hrest⟩
    exact ⟨p, List.mem_append_left _ hp, hrest⟩

theorem step (h : Faithful calls gaveUp s) (hG : ∀ k, e = .fail k → gaveUp k)
    (hs : s.step calls e = some s') : Faithful calls gaveUp s' := by
  cases step_sound hs with
  | sendNowhere k hk =>
    have hmade : ∀ l ∈ s.made, l ∈ k :: s.made := fun _ => List.mem_cons_of_mem k
    refine ⟨fun l message hl => ?_, fun l data hl => ?_,
      ⟨h.handled.1, fun l hl => hmade l (h.handled.2 l hl)⟩,
      ⟨h.once.1, fun l hl => hmade l (h.once.2 l hl)⟩, h.replies, h.awaits, h.alive, h.served,
        h.callbacks⟩
    · obtain ⟨hl, hrest⟩ := h.requests l message hl
      exact ⟨hmade l hl, hrest⟩
    · obtain ⟨hl, hrest⟩ := h.waiting l data hl
      exact ⟨hmade l hl, hrest⟩
  | send k hk => exact h.send hk
  | handle k w o message hgone hk => exact h.handle hgone hk w (s.outcomes o) _
  | drop k r replies hr hk => exact h.drop hr hk
  | answer k r replies hr data hk =>
    -- the reply is the first one of the service
    obtain ⟨p, hp, hpk⟩ := List.mem_map.1 (h.replies (k, r) (hr ▸ List.mem_cons_self))
    have hpk : p.1 = k := hpk
    have hreplies := h.awaits p hp (by rw [hpk, hk]; rintro ⟨⟩)
    rw [hr, List.filter_cons_of_pos (by simp [hpk]), List.map_cons] at hreplies
    have hfinish := h.finish hk r.isError (.inr ⟨p, hp, hpk, r, _, hreplies.symm, rfl⟩)
    exact hfinish.drop hr (Function.update_self ..)
  | fail k data hk => exact h.finish hk true (.inl ⟨rfl, hG k rfl⟩)
  | removeSession session hgone =>
    exact ⟨h.requests, h.waiting, h.handled, h.once, h.replies, h.awaits, h.alive, h.served,
        h.callbacks⟩
  | untrustedHelperStopped appid instanceid helpertype hgone =>
    exact ⟨h.requests, h.waiting, h.handled, h.once, h.replies, h.awaits, h.alive, h.served,
        h.callbacks⟩

end Faithful

/-- What the callback of a call is told. -/
theorem Faithful.report {gaveUp : κ → Prop} (h : Faithful calls gaveUp s) {k : κ} {url : Text}
    {success : Bool} (hmem : (k, url, success) ∈ s.callbacks) :
    (calls k).hasCallback = true ∧ url = (calls k).url ∧
      ((success = false ∧ gaveUp k) ∨ ∃ w o, (k, w, o) ∈ s.handled ∧
        ((success = true ∧ ∃ a, (dispatched calls (k, w, o)).actions = [a]) ∨
          (success = false ∧ (dispatched calls (k, w, o)).actions = []))) := by
  obtain ⟨hhas, hurl, hreport⟩ := h.callbacks _ hmem
  refine ⟨hhas, hurl, hreport.imp_right ?_⟩
  rintro ⟨⟨l, w, o⟩, hp, rfl, r, rs, hr, hsuccess⟩
  refine ⟨w, o, hp, ?_⟩
  obtain ⟨-, hnil, -⟩ | ⟨-, r', rs', hr', hdone⟩ :=
    dispatchUrl_head w o (calls l).url (calls l).packageArg
  · rw [dispatched, hnil] at hr
    cases hr
  · rw [dispatched, hr'] at hr
    cases hr
    dsimp only at hsuccess
    rw [hsuccess]
    exact hdone.imp (And.imp_left fun h => by rw [h]; rfl) (And.imp_left fun h => by rw [h]; rfl)

theorem faithful_of_run {tracker : Option OverlayTracker} {es : List (ExchangeEvent κ)}
    (h : Run (step calls) (fun _ _ => True) (init tracker) es s) :
    Faithful calls (fun k => .fail k ∈ es) s :=
  h.of_mem.invariant (faithful_init calls _ tracker) fun _ _ _ hI hG hs =>
    hI.step (fun _ he => he ▸ hG.2) hs

/-- Only the service and the bus act, and GDBus gives up nothing while the service is there. -/
def Served (k : κ) (w : System) (o : Outcomes) (s : Exchange κ) : ExchangeEvent κ → Prop
  | .handle l w' o' => l = k ∧ w' = w ∧ o' = o
  | .receive => True
  | .fail l => l = k ∧ s.gone = true
  | _ => False

/-- The service can handle a message at any time, as long as it is there. -/
theorem step_handle (calls : κ → SendCall) {k : κ} {message : DispatchMessage}
    (hgone : s.gone = false) (hk : s.requests k = some message) (w : System) (o : Outcomes) :
    s.step calls (.handle k w o) = some { s with
      requests := Function.update s.requests k none
      replies := s.replies ++ if message.replyExpected then
        (dispatchUrl w (s.outcomes o) message.url message.package).replies.map (k, ·) else []
      handled := s.handled ++ [(k, w, s.outcomes o)]
      tracker := (dispatchUrl w (s.outcomes o) message.url message.package).tracker
      gone := (dispatchUrl w (s.outcomes o) message.url message.package).crashed } := by
  simp only [step, hgone, hk, Bool.false_eq_true, if_false]

/-- The call waits, and a reply to it is under way. -/
structure Answered (calls : κ → SendCall) (k : κ) (s : Exchange κ) : Prop where
  faithful : Faithful calls (fun _ => True) s
  waiting : s.waiting k ≠ none
  replies : k ∈ s.replies.map Prod.fst

/-- The client takes a reply: the one to the call, or one before it. -/
theorem Answered.exists_step {k : κ} (h : Answered calls k s) (w : System) (o : Outcomes) :
    ∃ e s', Served k w o s e ∧ s.step calls e = some s' ∧
      ((∃ success, (k, (calls k).url, success) ∈ s'.callbacks) ∨
        (Answered calls k s' ∧ s'.replies.length < s.replies.length)) := by
  have hmem := h.replies
  cases hr : s.replies with
  | nil =>
    rw [hr] at hmem
    cases hmem
  | cons p replies =>
    obtain ⟨l, r⟩ := p
    rw [hr, List.map_cons, List.mem_cons] at hmem
    cases hl : s.waiting l with
    | none =>
      have hs : s.step calls .receive = some { s with replies := replies } := by
        simp only [step, hr, hl]
      have hkl : k ≠ l := by
        rintro rfl
        exact h.waiting hl
      exact ⟨.receive, _, trivial, hs, .inr ⟨⟨h.faithful.step (fun _ _ => trivial) hs, h.waiting,
        hmem.resolve_left hkl⟩, Nat.lt_succ_self _⟩⟩
    | some data =>
      have hs : s.step calls .receive = some { s with
          replies := replies
          waiting := Function.update s.waiting l none
          callbacks := s.callbacks ++ (urlDispatched data r.isError).map (l, ·) } := by
        simp only [step, hr, hl]
      refine ⟨.receive, _, trivial, hs, ?_⟩
      by_cases hkl : k = l
      · subst hkl
        obtain ⟨-, hcb, hurl, -⟩ := h.faithful.waiting k data hl
        refine .inl ⟨!r.isError, List.mem_append_right _ ?_⟩
        rw [urlDispatched, if_pos hcb, hurl]
        exact List.mem_singleton_self _
      · refine .inr ⟨⟨h.faithful.step (fun _ _ => trivial) hs, ?_, hmem.resolve_left hkl⟩,
          Nat.lt_succ_self _⟩
        dsimp only
        rw [Function.update_of_ne hkl]
        exact h.waiting

/-- A call that waits for a service that is gone is given up. -/
theorem callback_of_gone {k : κ} (h : Faithful calls (fun _ => True) s) (hk : s.waiting k ≠ none)
    (hgone : s.gone = true) (w : System) (o : Outcomes) :
    ∃ fs s', Run (step calls) (Served k w o) s fs s' ∧
      ∃ success, (k, (calls k).url, success) ∈ s'.callbacks := by
  obtain ⟨data, hdata⟩ := Option.ne_none_iff_exists'.1 hk
  obtain ⟨-, hcb, hurl, -⟩ := h.waiting k data hdata
  have hs : s.step calls (.fail k) = some { s with
      waiting := Function.update s.waiting k none
      callbacks := s.callbacks ++ (urlDispatched data true).map (k, ·) } := by
    simp only [step, hdata]
  refine ⟨[.fail k], _, .cons ⟨rfl, hgone⟩ hs (.nil _), false, List.mem_append_right _ ?_⟩
  rw [urlDispatched, if_pos hcb, hurl]
  exact List.mem_singleton_self _

/-- **A call that waits is answered** by the service and the bus alone. -/
theorem callback_of_waiting {tracker : Option OverlayTracker} {es : List (ExchangeEvent κ)}
    {s : Exchange κ} (h : Run (step calls) (fun _ _ => True) (init tracker) es s) {k : κ}
    (hk : s.waiting k ≠ none) (w : System) (o : Outcomes) :
    ∃ fs s', Run (step calls) (Served k w o) s fs s' ∧
      ∃ success, (k, (calls k).url, success) ∈ s'.callbacks := by
  have hfaithful : Faithful calls (fun _ => True) s :=
    h.invariant (faithful_init calls _ tracker) fun s e s' hI _ hs =>
      hI.step (fun _ _ => trivial) hs
  have hreceive : ∀ s : Exchange κ, Faithful calls (fun _ => True) s → s.waiting k ≠ none →
      s.gone = false → k ∈ s.handled.map Prod.fst →
      ∃ fs s', Run (step calls) (Served k w o) s fs s' ∧
        ∃ success, (k, (calls k).url, success) ∈ s'.callbacks := by
    intro s hs hk hgone hhandled
    refine exists_run_of_measure (I := fun s => Answered calls k s) (fun s => s.replies.length)
      (fun s hI => hI.exists_step w o) ⟨hs, hk, ?_⟩
    -- the service has replied, and no reply to the call has come
    obtain ⟨p, hp, rfl⟩ := List.mem_map.1 hhandled
    obtain ⟨hcrash, -⟩ | ⟨-, r, rs, hr, -⟩ :=
      dispatchUrl_head p.2.1 p.2.2 (calls p.1).url (calls p.1).packageArg
    · have halive := hs.alive hgone p hp
      rw [dispatched, hcrash] at halive
      cases halive
    have hawaits := hs.awaits p hp hk
    rw [dispatched, hr] at hawaits
    obtain ⟨q, hq, -⟩ := List.mem_map.1 (hawaits ▸ List.mem_cons_self (a := r) (l := rs))
    obtain ⟨hq, hqk⟩ := List.mem_filter.1 hq
    exact List.mem_map.2 ⟨q, hq, of_decide_eq_true hqk⟩
  cases hgone : s.gone with
  | true => exact callback_of_gone hfaithful hk hgone w o
  | false =>
    rcases hfaithful.served k hk with hrequest | hhandled
    · obtain ⟨message, hmessage⟩ := Option.ne_none_iff_exists'.1 hrequest
      have hs := step_handle calls hgone hmessage w o
      have hfaithful' := hfaithful.step (fun _ _ => trivial) hs
      -- the service answers the message, or dies of it
      cases hcrash : (dispatchUrl w (s.outcomes o) message.url message.package).crashed with
      | true =>
        obtain ⟨fs, s', hrun, hcallback⟩ := callback_of_gone hfaithful' hk hcrash w o
        exact ⟨.handle k w o :: fs, s', .cons ⟨rfl, rfl, rfl⟩ hs hrun, hcallback⟩
      | false =>
        obtain ⟨fs, s', hrun, hcallback⟩ := hreceive _ hfaithful' hk hcrash (List.mem_map.2
          ⟨(k, w, s.outcomes o), List.mem_append_right _ (List.mem_singleton_self _), rfl⟩)
        exact ⟨.handle k w o :: fs, s', .cons ⟨rfl, rfl, rfl⟩ hs hrun, hcallback⟩
    · exact hreceive s hfaithful hk hgone hhandled

/-- A call that has been made goes on waiting, or it ends with what its callback is told. -/
theorem waiting_of_step (hs : s.step calls e = some s') {k : κ} (hk : k ∈ s.made) : k ∈ s'.made ∧
    ((s'.waiting k = s.waiting k ∧
        (k ∈ s'.callbacks.map Prod.fst ↔ k ∈ s.callbacks.map Prod.fst)) ∨
      ∃ data error, s.waiting k = some data ∧
        s'.callbacks = s.callbacks ++ (urlDispatched data error).map (k, ·)) := by
  cases step_sound hs with
  | sendNowhere l hl => exact ⟨List.mem_cons_of_mem _ hk, .inl ⟨rfl, .rfl⟩⟩
  | send l hl =>
    have hkl : k ≠ l := by
      rintro rfl
      exact hl hk
    exact ⟨List.mem_cons_of_mem _ hk, .inl ⟨Function.update_of_ne hkl .., .rfl⟩⟩
  | answer l r replies hr data hl =>
    by_cases hkl : k = l
    · subst hkl
      exact ⟨hk, .inr ⟨data, r.isError, hl, rfl⟩⟩
    · exact ⟨hk, .inl ⟨Function.update_of_ne hkl .., mem_callbacks_append hkl data r.isError⟩⟩
  | fail l data hl =>
    by_cases hkl : k = l
    · subst hkl
      exact ⟨hk, .inr ⟨data, true, hl, rfl⟩⟩
    · exact ⟨hk, .inl ⟨Function.update_of_ne hkl .., mem_callbacks_append hkl data true⟩⟩
  | handle | drop | removeSession | untrustedHelperStopped => exact ⟨hk, .inl ⟨rfl, .rfl⟩⟩

/-- A call that has been made without a session bus has no callback. -/
theorem not_mem_callbacks_of_send {tracker : Option OverlayTracker} {es : List (ExchangeEvent κ)}
    (h : Run (step calls) (fun _ _ => True) (init tracker) es s) {k : κ}
    (hk : .send k false ∈ es) : k ∉ s.callbacks.map Prod.fst := by
  obtain ⟨ds, fs, t, t', hds, -, hsend, hfs⟩ := h.exists_of_mem hk
  have ht : Faithful calls (fun _ => True) t :=
    hds.invariant (faithful_init calls _ tracker) fun _ _ _ hI _ hs =>
      hI.step (fun _ _ => trivial) hs
  have ht' : k ∈ t'.made ∧ t'.waiting k = none ∧ k ∉ t'.callbacks.map Prod.fst := by
    cases step_sound hsend with
    | sendNowhere _ hmade =>
      refine ⟨List.mem_cons_self, ?_, fun hmem => hmade (ht.once.2 k hmem)⟩
      exact Option.eq_none_iff_forall_ne_some.2 fun data hdata => hmade (ht.waiting k data hdata).1
  have hs := hfs.invariant
    (I := fun s => k ∈ s.made ∧ s.waiting k = none ∧ k ∉ s.callbacks.map Prod.fst) ht' ?_
  · exact hs.2.2
  · rintro s e s' ⟨hmade, hwaiting, hno⟩ - hs
    obtain ⟨hmade', ⟨hwaiting', hiff⟩ | ⟨data, error, hdata, -⟩⟩ := waiting_of_step hs hmade
    · exact ⟨hmade', hwaiting'.trans hwaiting, hiff.not.2 hno⟩
    · rw [hwaiting] at hdata
      cases hdata

/-- A call with a callback that has been made with a session bus waits for its reply, unless the
callback has run. -/
theorem waiting_or_mem_callbacks {tracker : Option OverlayTracker} {es : List (ExchangeEvent κ)}
    (h : Run (step calls) (fun _ _ => True) (init tracker) es s) {k : κ}
    (hk : .send k true ∈ es) (hcb : (calls k).hasCallback = true) :
    s.waiting k ≠ none ∨ k ∈ s.callbacks.map Prod.fst := by
  obtain ⟨ds, fs, t, t', hds, -, hsend, hfs⟩ := h.exists_of_mem hk
  have ht' : k ∈ t'.made ∧ ((∃ data, t'.waiting k = some data ∧ data.cb = true) ∨
      k ∈ t'.callbacks.map Prod.fst) := by
    cases step_sound hsend with
    | send _ hmade =>
      refine ⟨List.mem_cons_self, .inl ⟨⟨true, (calls k).url, (calls k).package⟩, ?_, rfl⟩⟩
      dsimp only
      rw [Function.update_self, if_pos hcb]
  have hs := hfs.invariant (I := fun s => k ∈ s.made ∧
    ((∃ data, s.waiting k = some data ∧ data.cb = true) ∨ k ∈ s.callbacks.map Prod.fst)) ht' ?_
  · refine hs.2.imp_left ?_
    rintro ⟨data, hdata, -⟩
    rw [hdata]
    rintro ⟨⟩
  · rintro s e s' ⟨hmade, hs₀⟩ - hs
    obtain ⟨hmade', ⟨hwaiting', hiff⟩ | ⟨data, error, hdata, hcallbacks⟩⟩ :=
      waiting_of_step hs hmade
    · rw [hwaiting', hiff]
      exact ⟨hmade', hs₀⟩
    · refine ⟨hmade', .inr ?_⟩
      rw [hcallbacks, List.map_append, List.mem_append]
      rcases hs₀ with ⟨data', hdata', hcb'⟩ | hmem
      · rw [hdata] at hdata'
        cases hdata'
        rw [urlDispatched, if_pos hcb']
        exact .inr (List.mem_singleton_self k)
      · exact .inl hmem

/-- **One callback, and a true one.**  In every session the service handles the message of a call at
most once, and does nothing for it outside the package of the call, whatever has changed since the
client has asked.  A callback runs at most once, with its own URL.  Unless GDBus has given up the
call, it reports success exactly if the service has done something for the message, and then that is
one action.  A callback that has not run can still run, by the service and the bus alone, if there
has been a session bus: the service answers, or it is gone, which the bus reports. -/
theorem callbacks_of_run {tracker : Option OverlayTracker} {es : List (ExchangeEvent κ)}
    {s : Exchange κ} (h : Run (step calls) (fun _ _ => True) (init tracker) es s) :
    (s.handled.map Prod.fst).Nodup ∧
    (∀ k w o, (k, w, o) ∈ s.handled → (calls k).packageArg ≠ [] →
      ∀ a ∈ (dispatched calls (k, w, o)).actions, BelongsTo w a.appid (calls k).packageArg) ∧
    (s.callbacks.map Prod.fst).Nodup ∧
    (∀ k url success, (k, url, success) ∈ s.callbacks →
      (calls k).hasCallback = true ∧ url = (calls k).url ∧
      ((success = false ∧ .fail k ∈ es) ∨ ∃ w o, (k, w, o) ∈ s.handled ∧
        ((success = true ∧ ∃ a, (dispatched calls (k, w, o)).actions = [a]) ∨
          (success = false ∧ (dispatched calls (k, w, o)).actions = [])))) ∧
    ∀ k, .send k true ∈ es → (calls k).hasCallback = true → k ∉ s.callbacks.map Prod.fst →
      ∀ w o, ∃ fs s', Run (step calls) (Served k w o) s fs s' ∧
        ∃ success, (k, (calls k).url, success) ∈ s'.callbacks := by
  have hfaithful := faithful_of_run h
  refine ⟨hfaithful.handled.1, fun k w o _ hp a ha => belongsTo_of_mem_actions ha hp,
    hfaithful.once.1, fun k url success hmem => hfaithful.report hmem, fun k hk hcb hno w o => ?_⟩
  exact callback_of_waiting h ((waiting_or_mem_callbacks h hk hcb).resolve_right hno) w o

/-- Two calls: one to `foo.com`, which `foo.desktop` handles, and one for an overlay that cannot be
shown. -/
def twoCalls : Bool → SendCall
  | true => ⟨"http://foo.com".toList, none, true⟩
  | false => ⟨"application:///bar.desktop".toList, some "bar".toList, true⟩

/-- The service that handles the two calls, without the PID of a caller. -/
def twoSystem : System := plainSystem fooSystem.urldb
  ["/usr/share/url-dispatcher/url-overlays/bar.desktop".toList]

/-- The outcomes of the two calls. -/
def twoOutcomes : Outcomes := ⟨true, none, none, none, none⟩

/-- Both messages are under way at once; the second reply to the overlay comes last. -/
def twoCallsRun : List (ExchangeEvent Bool) :=
  [.send true true, .send false true, .handle false twoSystem twoOutcomes, .receive,
    .handle true twoSystem twoOutcomes, .receive, .receive]

/-- The overlay is reported to fail and the URL to succeed, and each of them once. -/
theorem callbacks_of_run_twoCalls : ∃ s : Exchange Bool,
    run (step twoCalls) (init none) twoCallsRun = some s ∧
    s.callbacks = [(false, (twoCalls false).url, false), (true, (twoCalls true).url, true)] ∧
    ∃ w o, (true, w, o) ∈ s.handled ∧ ∃ a, (dispatched twoCalls (true, w, o)).actions = [a] := by
  obtain ⟨s, hs⟩ := Option.isSome_iff_exists.1
    (show (run (step twoCalls) (init none) twoCallsRun).isSome by decide)
  have hcallbacks :
      s.callbacks = [(false, (twoCalls false).url, false), (true, (twoCalls true).url, true)] := by
    have h : (run (step twoCalls) (init none) twoCallsRun).map Exchange.callbacks =
        some [(false, (twoCalls false).url, false), (true, (twoCalls true).url, true)] := by decide
    rw [hs] at h
    exact Option.some.inj h
  refine ⟨s, hs, hcallbacks, ?_⟩
  have hmem : (true, (twoCalls true).url, true) ∈ s.callbacks := by
    rw [hcallbacks]
    exact List.mem_cons_of_mem _ (List.mem_singleton_self _)
  have hreport := (callbacks_of_run
    (.of_run (g := fun _ _ => true) (fun _ _ _ => trivial) hs)).2.2.2.1 true _ true hmem
  obtain ⟨hfalse, -⟩ | ⟨w, o, hhandled, ⟨-, hactions⟩ | ⟨hfalse, -⟩⟩ := hreport.2.2
  · cases hfalse
  · exact ⟨w, o, hhandled, hactions⟩
  · cases hfalse

end Exchange

end UrlDispatcher
