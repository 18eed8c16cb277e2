import UrlDispatcher.Machine.Simulation
import UrlDispatcher.Thread.Quit
import Mathlib.Data.List.Nodup

/-!
# Work items on a context thread

`executeOnThread` attaches a source to the context of the worker.  An iteration of the loop takes
the sources that are ready and runs them one after the other; what is attached meanwhile waits for
the next iteration, which `quit` may prevent.

* `executed_of_run` : the items run in the order in which they have been attached, each at most
  once.
* `canRun_iff` : an item that waits can still run exactly if the current iteration has it or the
  loop will iterate again, and then the worker alone runs it.  In all other states whoever waits for
  the item waits forever.
-/

namespace UrlDispatcher

open Machine

/-- The items the current iteration still has to run. -/
def Worker.items {κ : Type*} : Worker κ → List κ
  | dispatching items => items
  | _ => []

/-- From here the worker gets to the next iteration, given the two flags. -/
def Worker.serves {κ : Type*} (worker : Worker κ) (cancelled running : Bool) : Bool :=
  match worker with
  | starting => !cancelled
  | published => !cancelled
  | entering => true
  | polling => running
  | dispatching _ => running
  | leaving => false
  | finished => false

/-- The worker has come to its loop, or past it. -/
def Worker.hasEntered {κ : Type*} : Worker κ → Bool
  | starting => false
  | published => false
  | entering => false
  | _ => true

/-- How far the worker is from its end when it has been told to leave the loop. -/
def Worker.toFinish {κ : Type*} : Worker κ → ℕ
  | dispatching items => items.length + 3
  | polling => 2
  | leaving => 1
  | _ => 0

/-- Quitting only ever prevents iterations. -/
theorem Worker.serves_of_quit {κ : Type*} {worker : Worker κ} {cancelled running : Bool} :
    (worker.serves true running = true → worker.serves cancelled running = true) ∧
      (worker.serves cancelled false = true → worker.serves cancelled running = true) := by
  cases worker <;> simp [serves]

namespace ContextThread

variable {ι κ : Type*}

/-- The items that have been attached and have not run, in the order in which they would. -/
def pending (s : ContextThread ι κ) : List κ := s.worker.items ++ s.sources

/-- The item an event attaches. -/
def attached : ThreadEvent ι κ → Option κ
  | .attach k => some k
  | _ => none

/-- A step of the worker itself. -/
def OfWorker : ThreadEvent ι κ → Prop
  | .publish => True
  | .test => True
  | .enter => True
  | .iterate => True
  | .dispatch => True
  | .afterLoop => True
  | _ => False

/-- The loop will iterate again, unless somebody quits. -/
def Serves (s : ContextThread ι κ) : Prop := s.worker.serves s.cancelled s.running = true

/-- The item will run. -/
def Awaits (s : ContextThread ι κ) (k : κ) : Prop :=
  k ∈ s.worker.items ∨ (k ∈ s.sources ∧ Serves s)

/-- Before and after the items of an iteration, the item is among the sources. -/
theorem Awaits.of_items_eq_nil {s : ContextThread ι κ} {k : κ} (h : Awaits s k)
    (hitems : s.worker.items = []) :
    k ∈ s.sources ∧ s.worker.serves s.cancelled s.running = true := by
  rcases h with h | h
  · rw [hitems] at h
    cases h
  · exact h

/-- As long as nobody has cancelled, nobody has begun to quit, and the loop keeps iterating. -/
structure Undisturbed (s : ContextThread ι κ) : Prop where
  quits : s.cancelled = false → ∀ i, s.quits i = .cancelling
  serves : s.cancelled = false → Serves s

theorem undisturbed_init : Undisturbed (init : ContextThread ι κ) where
  quits _ _ := rfl
  serves _ := rfl

/-- What a post has come to agrees with the items. -/
structure Posted (s : ContextThread ι κ) : Prop where
  nodup : (s.executed ++ s.pending).Nodup
  mem_iff : ∀ k, k ∈ s.executed ++ s.pending ↔ s.posts k = .posted

theorem posted_init : Posted (init : ContextThread ι κ) where
  nodup := List.nodup_nil
  mem_iff k := by simp [init, pending, Worker.items]

variable [DecidableEq ι] [DecidableEq κ] {s s' : ContextThread ι κ} {e : ThreadEvent ι κ} {k : κ}

/-! ### The order of the items -/

/-- A step runs the next item, or attaches one behind the others, or leaves the items alone. -/
theorem executed_append_pending (hs : s.step e = some s') :
    s'.executed ++ s'.pending = s.executed ++ s.pending ++ (attached e).toList := by
  cases step_sound hs with
  | publish h | testCancelled h _ | test h _ | enter h | leave h _ | endIteration h | afterLoop h =>
    simp [pending, attached, h, Worker.items]
  | construct _ _ | cancel _ _ _ | quitLoop _ _ | join _ _ _ | testPost _ _ _ =>
    simp [pending, attached, setQuit, setPost]
  | iterate h _ => simp [pending, attached, h, Worker.items]
  | dispatch k items h => simp [pending, attached, h, Worker.items]
  | attach k _ => simp [pending, attached, setPost]

/-- A step tests or attaches one post, or leaves the posts alone. -/
theorem posts_of_step (hs : s.step e = some s') :
    ((∀ k, e ≠ .testPost k) ∧ attached e = none ∧ s'.posts = s.posts) ∨
      (∃ k, e = .testPost k ∧ s.posts k = .testing ∧
        s'.posts = Function.update s.posts k (if s.cancelled then .refused else .attaching)) ∨
      ∃ k, e = .attach k ∧ s.posts k = .attaching ∧
        s'.posts = Function.update s.posts k .posted := by
  cases step_sound hs with
  | testPost k _ h => exact .inr (.inl ⟨k, rfl, h, rfl⟩)
  | attach k h => exact .inr (.inr ⟨k, rfl, h, rfl⟩)
  | _ => exact .inl ⟨by rintro _ ⟨⟩, rfl, rfl⟩

/-- Only an attachment makes a post a posted one. -/
theorem posted_of_step (hs : s.step e = some s') :
    (attached e = none ∧ ∀ k, s'.posts k = .posted ↔ s.posts k = .posted) ∨
      ∃ k, e = .attach k ∧ s.posts k = .attaching ∧
        s'.posts = Function.update s.posts k .posted := by
  obtain ⟨-, hnone, hposts⟩ | ⟨k, rfl, hk, hposts⟩ | hattach := posts_of_step hs
  · exact .inl ⟨hnone, fun k => by rw [hposts]⟩
  · refine .inl ⟨rfl, fun l => ?_⟩
    rw [hposts]
    by_cases hl : l = k
    · rw [hl, hk, Function.update_self]
      split_ifs <;> simp
    · rw [Function.update_of_ne hl]
  · exact .inr hattach

/-- Only a dispatch with an item left runs one. -/
theorem executed_of_step (hs : s.step e = some s') (hitems : e = .dispatch → s.worker.items = []) :
    s'.executed = s.executed := by
  cases step_sound hs with
  | dispatch k items hw =>
    have hnil := hitems rfl
    rw [hw] at hnil
    cases hnil
  | _ => rfl

/-- The next item of the iteration runs. -/
theorem step_dispatch {items : List κ} (hw : s.worker = .dispatching (k :: items)) :
    s.step .dispatch =
      some { s with worker := .dispatching items, executed := s.executed ++ [k] } := by
  simp only [step, hw]

/-- Only a call of `quit` cancels. -/
theorem cancelled_of_step (hs : s.step e = some s') :
    s'.cancelled = s.cancelled ∨ ∃ i, e = .cancel i := by
  cases step_sound hs with
  | cancel i _ _ => exact .inr ⟨i, rfl⟩
  | _ => exact .inl rfl

/-- The worker does not quit by itself. -/
theorem quits_of_step (hs : s.step e = some s') (h : OfWorker e) : s'.quits = s.quits := by
  cases step_sound hs with
  | construct _ _ | cancel _ _ _ | quitLoop _ _ | join _ _ _ | testPost _ _ _ | attach _ _ =>
    cases h
  | _ => rfl

theorem constructed_of_step (hs : s.step e = some s') (h : s.constructed = true) :
    s'.constructed = true := by
  cases step_sound hs with
  | construct _ _ => rfl
  | _ => exact h

/-- The worker does not come back. -/
theorem hasEntered_of_step (hs : s.step e = some s') (h : s.worker.hasEntered = true) :
    s'.worker.hasEntered = true := by
  cases step_sound hs with
  | publish hw | testCancelled hw _ | test hw _ =>
    rw [hw] at h
    cases h
  | enter _ | iterate _ _ | leave _ _ | dispatch _ _ _ | endIteration _ | afterLoop _ => rfl
  | construct _ _ | cancel _ _ _ | quitLoop _ _ | join _ _ _ | testPost _ _ _ | attach _ _ =>
    exact h

theorem Posted.step (h : Posted s) (hs : s.step e = some s') : Posted s' := by
  have heq := executed_append_pending hs
  obtain ⟨hnone, hposts⟩ | ⟨k, rfl, hk, hposts⟩ := posted_of_step hs
  · rw [hnone, Option.toList_none, List.append_nil] at heq
    refine ⟨heq ▸ h.nodup, fun l => ?_⟩
    rw [heq, hposts, h.mem_iff]
  · -- the item attached now was not there before
    have hnew : k ∉ s.executed ++ s.pending := by
      rw [h.mem_iff, hk]
      decide
    rw [attached, Option.toList_some] at heq
    refine ⟨?_, fun l => ?_⟩
    · rw [heq, List.nodup_append]
      refine ⟨h.nodup, List.nodup_singleton k, fun l hl l' hl' he => hnew ?_⟩
      rwa [← List.mem_singleton.1 hl', ← he]
    · rw [heq, List.mem_append, List.mem_singleton, h.mem_iff, hposts]
      by_cases hl : l = k
      · simp [hl]
      · simp [hl]

theorem Undisturbed.step (h : Undisturbed s) (hs : s.step e = some s') : Undisturbed s' := by
  cases step_sound hs with
  | publish hw => exact ⟨h.quits, fun hc => by rw [Serves, Worker.serves, hc]; rfl⟩
  | construct _ _ | testPost _ _ _ | attach _ _ => exact ⟨h.quits, h.serves⟩
  | testCancelled hw hc =>
    refine ⟨h.quits, fun hc' => ?_⟩
    rw [hc] at hc'
    cases hc'
  | test _ _ => exact ⟨h.quits, fun _ => rfl⟩
  | enter _ => exact ⟨h.quits, fun _ => rfl⟩
  | iterate _ hr => exact ⟨h.quits, fun _ => hr⟩
  | leave hw hr =>
    -- the flag is set as long as nobody has cancelled
    refine ⟨h.quits, fun hc => ?_⟩
    have hserves := h.serves hc
    rw [Serves, hw, hr] at hserves
    cases hserves
  | dispatch _ _ hw | endIteration hw =>
    refine ⟨h.quits, fun hc => ?_⟩
    have hserves := h.serves hc
    rwa [Serves, hw] at hserves
  | afterLoop hw =>
    refine ⟨h.quits, fun hc => ?_⟩
    have hserves := h.serves hc
    rw [Serves, hw] at hserves
    cases hserves
  | cancel i _ _ => exact ⟨fun hc => (by cases hc), fun hc => (by cases hc)⟩
  | quitLoop i hq | join i _ hq =>
    have hno : s.cancelled ≠ false := by
      intro hc
      rw [h.quits hc i] at hq
      cases hq
    exact ⟨fun hc => absurd hc hno, fun hc => absurd hc hno⟩

/-- **Work items run in order, and at most once.**  In every run the items that have run, followed
by those that wait, are the items attached so far, in that order and without repetition; they are
those whose posts were not refused. -/
theorem executed_of_run {es : List (ThreadEvent ι κ)} {s : ContextThread ι κ}
    (h : Run step (fun _ _ => True) init es s) :
    s.executed ++ s.pending = es.filterMap attached ∧ (s.executed ++ s.pending).Nodup ∧
      ∀ k, k ∈ s.executed ++ s.pending ↔ s.posts k = .posted := by
  have hposted : Posted s := h.invariant posted_init fun _ _ _ hI _ hs => hI.step hs
  refine ⟨?_, hposted.nodup, hposted.mem_iff⟩
  have horder : ∀ {s₀ s₁ : ContextThread ι κ} {es}, Run step (fun _ _ => True) s₀ es s₁ →
      s₁.executed ++ s₁.pending = s₀.executed ++ s₀.pending ++ es.filterMap attached := by
    intro s₀ s₁ es h
    induction h with
    | nil => rw [List.filterMap_nil, List.append_nil]
    | cons _ hs _ ih =>
      rw [ih, executed_append_pending hs, List.append_assoc]
      congr 1
      cases hattached : attached _ with
      | none => rw [List.filterMap_cons_none hattached]; rfl
      | some k => rw [List.filterMap_cons_some hattached]; rfl
  exact horder h

/-- Two posts, and the worker up to the first of them. -/
def twoPosts : List (ThreadEvent Unit Bool) :=
  [.publish, .construct, .test, .enter, .testPost true, .attach true, .testPost false,
    .attach false, .iterate, .dispatch]

/-- Two items are attached and the first one runs. -/
theorem executed_of_run_twoPosts : ∃ s : ContextThread Unit Bool,
    run step init twoPosts = some s ∧ s.executed ++ s.pending = [true, false] := by
  obtain ⟨s, hs⟩ := Option.isSome_iff_exists.1
    (show (run step (init : ContextThread Unit Bool) twoPosts).isSome by decide)
  exact ⟨s, hs, (executed_of_run (.of_run (g := fun _ _ => true) (fun _ _ _ => trivial) hs)).1⟩

/-! ### Items that wait -/

/-- The item waits for an iteration that will not come. -/
structure Stranded (s : ContextThread ι κ) (k : κ) : Prop where
  waits : k ∉ s.executed
  items : k ∉ s.worker.items
  serves : ¬ Serves s

theorem Stranded.step (h : Stranded s k) (hs : s.step e = some s') : Stranded s' k := by
  obtain ⟨hwaits, hitems, hserves⟩ := h
  unfold Serves at hserves
  cases step_sound hs with
  | publish hw | endIteration hw =>
    refine ⟨hwaits, List.not_mem_nil, ?_⟩
    rwa [hw] at hserves
  | afterLoop _ | leave _ _ | testCancelled _ _ =>
    exact ⟨hwaits, List.not_mem_nil, Bool.false_ne_true⟩
  | construct _ _ | join _ _ _ | testPost _ _ _ | attach _ _ => exact ⟨hwaits, hitems, hserves⟩
  | cancel _ _ _ => exact ⟨hwaits, hitems, fun hs => hserves (Worker.serves_of_quit.1 hs)⟩
  | quitLoop _ _ => exact ⟨hwaits, hitems, fun hs => hserves (Worker.serves_of_quit.2 hs)⟩
  | test hw hc =>
    rw [hw, hc] at hserves
    exact absurd rfl hserves
  | enter hw =>
    rw [hw] at hserves
    exact absurd rfl hserves
  | iterate hw hr =>
    rw [hw, hr] at hserves
    exact absurd rfl hserves
  | dispatch l items hw =>
    rw [hw] at hitems hserves
    obtain ⟨hne, htail⟩ := not_or.1 (List.mem_cons.not.1 hitems)
    refine ⟨fun hmem => ?_, htail, hserves⟩
    rcases List.mem_append.1 hmem with hmem | hmem
    · exact hwaits hmem
    · exact hne (List.mem_singleton.1 hmem)

/-- How far the worker is from running the item. -/
def distance (s : ContextThread ι κ) (k : κ) : ℕ :=
  if k ∈ s.worker.items then s.worker.items.length
  else
    match s.worker with
    | .starting => s.sources.length + 5
    | .published => s.sources.length + 4
    | .entering => s.sources.length + 3
    | .polling => s.sources.length + 2
    | .dispatching items => s.sources.length + 3 + items.length
    | .leaving => 0
    | .finished => 0

/-- The worker runs the item, or gets closer to it. -/
theorem Awaits.exists_step (h : Awaits s k) :
    ∃ e s', OfWorker e ∧ s.step e = some s' ∧
      (k ∈ s'.executed ∨ (Awaits s' k ∧ s'.distance k < s.distance k)) := by
  have hsources := h.of_items_eq_nil
  cases hw : s.worker with
  | starting =>
    rw [hw] at hsources
    obtain ⟨hmem, hserves⟩ := hsources rfl
    refine ⟨.publish, { s with worker := .published }, trivial, by simp [step, hw],
      .inr ⟨.inr ⟨hmem, hserves⟩, ?_⟩⟩
    simp [distance, hw, Worker.items]
  | published =>
    rw [hw] at hsources
    obtain ⟨hmem, hserves⟩ := hsources rfl
    have hc : s.cancelled = false := by simpa [Worker.serves] using hserves
    refine ⟨.test, { s with worker := .entering }, trivial, by simp [step, hw, hc],
      .inr ⟨.inr ⟨hmem, rfl⟩, ?_⟩⟩
    simp [distance, hw, Worker.items]
  | entering =>
    rw [hw] at hsources
    refine ⟨.enter, { s with worker := .polling, running := true }, trivial, by simp [step, hw],
      .inr ⟨.inr ⟨(hsources rfl).1, rfl⟩, ?_⟩⟩
    simp [distance, hw, Worker.items]
  | polling =>
    rw [hw] at hsources
    obtain ⟨hmem, hserves⟩ := hsources rfl
    have hr : s.running = true := hserves
    refine ⟨.iterate, { s with worker := .dispatching s.sources, sources := [] }, trivial,
      by simp [step, hw, hr], .inr ⟨.inl hmem, ?_⟩⟩
    simp [distance, hw, Worker.items, hmem]
  | dispatching items =>
    cases items with
    | nil =>
      rw [hw] at hsources
      obtain ⟨hmem, hserves⟩ := hsources rfl
      refine ⟨.dispatch, { s with worker := .polling }, trivial, by simp [step, hw],
        .inr ⟨.inr ⟨hmem, hserves⟩, ?_⟩⟩
      simp [distance, hw, Worker.items]
    | cons l items =>
      refine ⟨.dispatch, { s with worker := .dispatching items, executed := s.executed ++ [l] },
        trivial, by simp [step, hw], ?_⟩
      by_cases hl : k = l
      · exact .inl (List.mem_append_right _ (List.mem_singleton.2 hl))
      · -- the item is behind this one, or waits for the next iteration
        refine .inr ⟨?_, ?_⟩
        · rcases h with hmem | ⟨hmem, hserves⟩
          · rw [hw] at hmem
            exact .inl ((List.mem_cons.1 hmem).resolve_left hl)
          · rw [Serves, hw] at hserves
            exact .inr ⟨hmem, hserves⟩
        · by_cases hmem : k ∈ items
          · simp [distance, hw, Worker.items, hmem]
          · simp [distance, hw, Worker.items, hmem, hl]
  | leaving =>
    rw [hw] at hsources
    cases (hsources rfl).2
  | finished =>
    rw [hw] at hsources
    cases (hsources rfl).2

/-- The worker runs an item that waits for it. -/
theorem Awaits.exists_run (h : Awaits s k) :
    ∃ es s', Run step (fun _ e => OfWorker e) s es s' ∧ k ∈ s'.executed :=
  exists_run_of_measure (I := fun s : ContextThread ι κ => Awaits s k) (distance · k)
    (fun _ hI => hI.exists_step) h

/-- A worker that has been told to leave its loop leaves it by itself. -/
theorem exists_run_finished (hentered : s.worker.hasEntered = true)
    (hquit : s.worker.inLoop = true → s.running = false) :
    ∃ es s', Run step (fun _ e => OfWorker e) s es s' ∧ s'.worker = .finished := by
  by_cases hfinished : s.worker = .finished
  · exact ⟨[], s, .nil s, hfinished⟩
  refine exists_run_of_measure
    (I := fun s : ContextThread ι κ => s.worker.hasEntered = true ∧ s.worker ≠ .finished ∧
      (s.worker.inLoop = true → s.running = false))
    (fun s => s.worker.toFinish) (fun s h => ?_) ⟨hentered, hfinished, hquit⟩
  obtain ⟨hentered, hfinished, hquit⟩ := h
  cases hw : s.worker with
  | polling =>
    have hr : s.running = false := hquit (by rw [hw]; rfl)
    refine ⟨.iterate, { s with worker := .leaving }, trivial, by simp [step, hw, hr],
      .inr ⟨⟨rfl, by rintro ⟨⟩, by rintro ⟨⟩⟩, ?_⟩⟩
    simp [Worker.toFinish]
  | dispatching items =>
    have hr : s.running = false := hquit (by rw [hw]; rfl)
    cases items with
    | nil =>
      refine ⟨.dispatch, { s with worker := .polling }, trivial, by simp [step, hw],
        .inr ⟨⟨rfl, by rintro ⟨⟩, fun _ => hr⟩, ?_⟩⟩
      simp [Worker.toFinish]
    | cons k items =>
      refine ⟨.dispatch, _, trivial, step_dispatch hw, .inr ⟨⟨rfl, by rintro ⟨⟩, fun _ => hr⟩, ?_⟩⟩
      simp [Worker.toFinish]
  | leaving =>
    exact ⟨.afterLoop, { s with worker := .finished }, trivial, by simp [step, hw], .inl rfl⟩
  | finished => exact absurd hw hfinished
  | starting | published | entering =>
    rw [hw] at hentered
    cases hentered

/-- **Which items still run.**  An item that has been attached and has not run can run in some
continuation exactly if the current iteration has it, or the loop will iterate again; the worker
then runs it without anybody's help. -/
theorem canRun_iff {es : List (ThreadEvent ι κ)} (hrun : Run step (fun _ _ => True) init es s)
    (hk : k ∈ s.pending) :
    ((∃ fs s', Run step (fun _ _ => True) s fs s' ∧ k ∈ s'.executed) ↔
      k ∈ s.worker.items ∨ Serves s) ∧
    ((k ∈ s.worker.items ∨ Serves s) →
      ∃ fs s', Run step (fun _ e => OfWorker e) s fs s' ∧ k ∈ s'.executed) := by
  have hposted : Posted s := hrun.invariant posted_init fun _ _ _ hI _ hs => hI.step hs
  have hworker : (k ∈ s.worker.items ∨ Serves s) →
      ∃ fs s', Run step (fun _ e => OfWorker e) s fs s' ∧ k ∈ s'.executed := by
    intro h
    refine Awaits.exists_run ?_
    rcases List.mem_append.1 hk with hitems | hsources
    · exact .inl hitems
    · exact h.imp_right fun hs => ⟨hsources, hs⟩
  refine ⟨⟨?_, fun h => ?_⟩, hworker⟩
  · rintro ⟨fs, s', hfs, hexecuted⟩
    by_contra hno
    obtain ⟨hitems, hserves⟩ := not_or.1 hno
    have hwaits : k ∉ s.executed := fun hmem =>
      (List.nodup_append.1 hposted.nodup).2.2 k hmem k hk rfl
    have hstranded : Stranded s' k := hfs.invariant (I := fun s => Stranded s k)
      ⟨hwaits, hitems, hserves⟩ fun _ _ _ hI _ hs => hI.step hs
    exact hstranded.waits hexecuted
  · obtain ⟨fs, s', hfs, hexecuted⟩ := hworker h
    exact ⟨fs, s', hfs.mono fun _ _ _ => trivial, hexecuted⟩

/-- The second of two items still runs after the first. -/
theorem canRun_twoPosts : ∃ s : ContextThread Unit Bool, run step init twoPosts = some s ∧
    ∃ fs s', Run step (fun _ e => OfWorker e) s fs s' ∧ false ∈ s'.executed := by
  obtain ⟨s, hs⟩ := Option.isSome_iff_exists.1
    (show (run step (init : ContextThread Unit Bool) twoPosts).isSome by decide)
  refine ⟨s, hs, (canRun_iff (.of_run (g := fun _ _ => true) (fun _ _ _ => trivial) hs)
    (k := false) ?_).2 (.inl ?_)⟩
  · cases hs
    decide
  · cases hs
    decide

end ContextThread

end UrlDispatcher
