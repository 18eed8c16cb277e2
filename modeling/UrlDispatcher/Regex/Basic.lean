import Mathlib.Data.List.Basic
import Mathlib.Data.List.Infix

/-!
# Backtracking regular expressions

The part of Perl-compatible regular expressions that consists of character classes, greedy
repetitions of a class, greedy optional groups, capturing groups and the anchors, with the
*leftmost-first* meaning: a pattern is tried at a state together with the continuation that must
still succeed (`Regex.exec`), and the first success in the order of preference counts.

* `Regex.search` : the leftmost match in a string, with the groups it captures; a pattern that
  begins with `^` matches at the start or not at all (`search_bol`), so `Regex.matchStart` is enough
  for it.
* `exec_sound` : a success is a success of the continuation at a later state.
* `execStar_of_longest` : a greedy repetition takes the longest run behind which the rest matches,
  and `exec_star_longest` : its longest run at all if the rest matches behind that.
* `exec_star_lit_last`, `exec_star_lit_none` : a repetition up to a character stops at the last
  occurrence behind which the rest matches, and fails if there is no occurrence.

The newline convention is that of GLib's `GRegex`: any Unicode newline sequence is one, so `.`
matches no newline character and `$` also matches before a newline sequence at the very end.
-/

/-- A regular expression.  Repetitions are greedy and over one character class. -/
inductive Regex
  /-- One character of a class. -/
  | chars (p : Char → Bool)
  /-- `p*` -/
  | star (p : Char → Bool)
  /-- One expression behind the other. -/
  | seq (r r' : Regex)
  /-- `(?:r)?` -/
  | opt (r : Regex)
  /-- The capturing group of that number. -/
  | capture (n : ℕ) (r : Regex)
  /-- `^` -/
  | bol
  /-- `$` -/
  | eol

namespace Regex

/-- A newline character. -/
def isNewline (c : Char) : Bool :=
  c = '\n' || c = '\r' || c = '\x0b' || c = '\x0c' || c = '\u0085' || c = '\u2028' || c = '\u2029'

/-- `.` -/
def dot (c : Char) : Bool := !isNewline c

/-- A literal character. -/
def lit (c : Char) : Regex := chars fun d => d = c

/-- A literal string in front of an expression. -/
def literal (w : List Char) (r : Regex) : Regex := w.foldr (fun c r => seq (lit c) r) r

/-- Where a match is: the characters consumed, those that are left, and the groups captured so far,
the last one first. -/
structure State where
  pos : ℕ
  rest : List Char
  groups : List (ℕ × List Char)

/-- The start of a string. -/
def State.start (s : List Char) : State := ⟨0, s, []⟩

/-- What a group has captured. -/
def State.group (st : State) (n : ℕ) : Option (List Char) := st.groups.lookup n

/-- `p*` in front of a continuation: one more character first, if possible. -/
def execStar {α : Type*} (p : Char → Bool) (groups : List (ℕ × List Char))
    (k : State → Option α) : ℕ → List Char → Option α
  | pos, [] => k ⟨pos, [], groups⟩
  | pos, c :: cs =>
    if p c then (execStar p groups k (pos + 1) cs).or (k ⟨pos, c :: cs, groups⟩)
    else k ⟨pos, c :: cs, groups⟩

/-- At the end, or before a newline sequence that ends the string. -/
def atEnd : List Char → Bool
  | [] => true
  | [c] => isNewline c
  | [c, d] => decide (c = '\r') && decide (d = '\n')
  | _ => false

/-- Match an expression and then the continuation, backtracking into the expression. -/
def exec {α : Type*} : Regex → State → (State → Option α) → Option α
  | chars p, st, k =>
    match st.rest with
    | c :: cs => if p c then k ⟨st.pos + 1, cs, st.groups⟩ else none
    | [] => none
  | star p, st, k => execStar p st.groups k st.pos st.rest
  | seq r r', st, k => exec r st fun st => exec r' st k
  | opt r, st, k => (exec r st k).or (k st)
  | capture n r, st, k =>
    exec r st fun st' =>
      k { st' with groups := (n, st.rest.take (st'.pos - st.pos)) :: st'.groups }
  | bol, st, k => if st.pos = 0 then k st else none
  | eol, st, k => if atEnd st.rest then k st else none

/-- The match at the start of a string. -/
def matchStart (r : Regex) (s : List Char) : Option State := exec r (.start s) some

/-- The leftmost match at the position `pos`, in front of `s`, or behind it. -/
def searchFrom (r : Regex) : ℕ → List Char → Option State
  | pos, [] => exec r ⟨pos, [], []⟩ some
  | pos, c :: s => (exec r ⟨pos, c :: s, []⟩ some).or (searchFrom r (pos + 1) s)

/-- The leftmost match. -/
def search (r : Regex) (s : List Char) : Option State := searchFrom r 0 s

/-! ### Single steps -/

section

variable {α : Type*} {k : State → Option α} {p : Char → Bool} {st : State} {pos : ℕ}
  {c d : Char} {cs : List Char} {g : List (ℕ × List Char)} {r r' : Regex} {n : ℕ}

@[simp] theorem exec_seq : exec (seq r r') st k = exec r st fun st => exec r' st k := rfl

@[simp] theorem exec_capture : exec (capture n r) st k = exec r st fun st' =>
    k { st' with groups := (n, st.rest.take (st'.pos - st.pos)) :: st'.groups } := rfl

@[simp] theorem exec_star : exec (star p) st k = execStar p st.groups k st.pos st.rest := rfl

theorem exec_opt : exec (opt r) st k = (exec r st k).or (k st) := rfl

@[simp] theorem exec_chars_cons : exec (chars p) ⟨pos, c :: cs, g⟩ k =
    if p c then k ⟨pos + 1, cs, g⟩ else none := rfl

@[simp] theorem exec_lit_nil : exec (lit d) ⟨pos, [], g⟩ k = none := rfl

@[simp] theorem exec_lit_cons : exec (lit d) ⟨pos, c :: cs, g⟩ k =
    if c = d then k ⟨pos + 1, cs, g⟩ else none := by
  simp [lit]

@[simp] theorem exec_bol_start {s : List Char} : exec bol (.start s) k = k (.start s) := rfl

theorem execStar_cons_of_pos {s : List Char} (h : p c = true) : execStar p g k pos (c :: s) =
    (execStar p g k (pos + 1) s).or (k ⟨pos, c :: s, g⟩) := by
  rw [execStar, if_pos h]

theorem exec_literal_cons {w : List Char} :
    exec (literal (c :: w) r) st k = exec (lit c) st fun st => exec (literal w r) st k := rfl

end

/-- Behind the start of the string nothing matches that begins with `^`. -/
theorem searchFrom_bol {r : Regex} {s : List Char} {pos : ℕ} (h : pos ≠ 0) :
    searchFrom (seq bol r) pos s = none := by
  induction s generalizing pos with
  | nil => exact if_neg h
  | cons c s ih =>
    have hnone : exec (seq bol r) ⟨pos, c :: s, []⟩ some = none := if_neg h
    rw [searchFrom, hnone, ih (Nat.succ_ne_zero pos), Option.or_none]

/-- A pattern that begins with `^` matches at the start or not at all. -/
theorem search_bol (r : Regex) (s : List Char) :
    search (seq bol r) s = matchStart (seq bol r) s := by
  cases s with
  | nil => rfl
  | cons c s => rw [search, searchFrom, searchFrom_bol Nat.one_ne_zero, Option.or_none]; rfl

section

variable {α : Type*} {k : State → Option α} {p : Char → Bool} {c : Char}
  {g : List (ℕ × List Char)}

/-- What a literal prefix matches is that prefix. -/
theorem exec_literal_eq_some {w : List Char} {r : Regex} {s : List Char} {pos : ℕ} {x : α}
    (h : exec (literal w r) ⟨pos, s, g⟩ k = some x) :
    ∃ t, s = w ++ t ∧ exec r ⟨pos + w.length, t, g⟩ k = some x := by
  induction w generalizing s pos with
  | nil => exact ⟨s, rfl, h⟩
  | cons c w ih =>
    rw [exec_literal_cons] at h
    cases s with
    | nil => cases h
    | cons d s =>
      rw [exec_lit_cons, Option.ite_none_right_eq_some] at h
      obtain ⟨rfl, h⟩ := h
      obtain ⟨t, rfl, ht⟩ := ih h
      refine ⟨t, rfl, ?_⟩
      rwa [List.length_cons, Nat.add_comm w.length, ← Nat.add_assoc]

/-- A literal prefix that the string does not have fails. -/
theorem exec_literal_eq_none {w : List Char} {r : Regex} {s : List Char} {pos : ℕ}
    (h : ¬ w <+: s) : exec (literal w r) ⟨pos, s, g⟩ k = none := by
  cases he : exec (literal w r) ⟨pos, s, g⟩ k with
  | none => rfl
  | some x =>
    obtain ⟨t, rfl, -⟩ := exec_literal_eq_some he
    exact absurd (List.prefix_append w t) h

/-- A literal prefix that the string has is consumed. -/
theorem exec_literal_append (w : List Char) {r : Regex} {t : List Char} {pos : ℕ} :
    exec (literal w r) ⟨pos, w ++ t, g⟩ k = exec r ⟨pos + w.length, t, g⟩ k := by
  induction w generalizing pos with
  | nil => rfl
  | cons c w ih =>
    rw [exec_literal_cons, List.cons_append, exec_lit_cons, if_pos rfl, ih, List.length_cons,
      Nat.add_comm w.length, Nat.add_assoc]

/-- What begins with `^` and a literal matches only strings that begin with the literal. -/
theorem prefix_of_matchStart {w : List Char} {r : Regex} {s : List Char} {m : State}
    (h : matchStart (seq bol (literal w r)) s = some m) : w <+: s := by
  rw [matchStart, exec_seq, exec_bol_start] at h
  obtain ⟨t, rfl, -⟩ := exec_literal_eq_some h
  exact List.prefix_append w t

/-- Two characters are at the end only as `\r\n`. -/
theorem eq_of_atEnd_cons_cons {c d : Char} {s : List Char} (h : atEnd (c :: d :: s) = true) :
    c = '\r' ∧ d = '\n' ∧ s = [] := by
  cases s with
  | nil =>
    rw [atEnd, Bool.and_eq_true, decide_eq_true_eq, decide_eq_true_eq] at h
    exact ⟨h.1, h.2, rfl⟩
  | cons e s => cases h

/-- What may stand behind the end are newline characters. -/
theorem forall_isNewline_of_atEnd {s : List Char} (h : atEnd s = true) :
    ∀ c ∈ s, isNewline c = true := by
  rcases s with _ | ⟨c, _ | ⟨d, s⟩⟩
  · simp
  · intro e he
    rw [List.mem_singleton.1 he]
    exact h
  · obtain ⟨rfl, rfl, rfl⟩ := eq_of_atEnd_cons_cons h
    simp [isNewline]

/-- Among characters that `.` matches the end is the end of the string. -/
theorem eq_nil_of_atEnd {s : List Char} (h : atEnd s = true) (hs : ∀ c ∈ s, dot c = true) :
    s = [] := by
  cases s with
  | nil => rfl
  | cons c s =>
    have hc := hs c List.mem_cons_self
    rw [dot, forall_isNewline_of_atEnd h c List.mem_cons_self] at hc
    cases hc

/-- What a repetition matches is a run of its class. -/
theorem execStar_sound {s : List Char} {pos : ℕ} {x : α} (h : execStar p g k pos s = some x) :
    ∃ a b, s = a ++ b ∧ (∀ c ∈ a, p c = true) ∧ k ⟨pos + a.length, b, g⟩ = some x := by
  induction s generalizing pos with
  | nil => exact ⟨[], [], rfl, by simp, h⟩
  | cons c s ih =>
    rw [execStar] at h
    split_ifs at h with hc
    · rcases Option.or_eq_some_iff.1 h with h | ⟨-, h⟩
      · obtain ⟨a, b, rfl, ha, hk⟩ := ih h
        refine ⟨c :: a, b, rfl, List.forall_mem_cons.2 ⟨hc, ha⟩, ?_⟩
        rwa [List.length_cons, Nat.add_comm a.length, ← Nat.add_assoc]
      · exact ⟨[], c :: s, rfl, by simp, h⟩
    · exact ⟨[], c :: s, rfl, by simp, h⟩

/-- **Backtracking.**  A repetition succeeds if the rest matches behind some run of its class. -/
theorem isSome_execStar {a b : List Char} {pos : ℕ} (ha : ∀ c ∈ a, p c = true)
    (hk : (k ⟨pos + a.length, b, g⟩).isSome = true) :
    (execStar p g k pos (a ++ b)).isSome = true := by
  induction a generalizing pos with
  | nil =>
    cases b with
    | nil => exact hk
    | cons c b =>
      rw [List.nil_append, execStar]
      split_ifs
      · rw [Option.isSome_or, Bool.or_eq_true]
        exact .inr hk
      · exact hk
  | cons c a ih =>
    rw [List.cons_append, execStar_cons_of_pos (ha c List.mem_cons_self), Option.isSome_or,
      Bool.or_eq_true]
    refine .inl (ih (fun d hd => ha d (List.mem_cons_of_mem _ hd)) ?_)
    rwa [Nat.add_assoc, Nat.add_comm 1]

/-- **Greedy.**  A repetition takes the longest run behind which the rest matches. -/
theorem execStar_of_longest {a b : List Char} {pos : ℕ} {x : α} (ha : ∀ c ∈ a, p c = true)
    (hk : k ⟨pos + a.length, b, g⟩ = some x)
    (hmax : ∀ e b', e ≠ [] → b = e ++ b' → (∀ c ∈ e, p c = true) →
      k ⟨pos + a.length + e.length, b', g⟩ = none) :
    execStar p g k pos (a ++ b) = some x := by
  induction a generalizing pos with
  | nil =>
    cases b with
    | nil => exact hk
    | cons c b =>
      rw [List.nil_append, execStar]
      split_ifs with hc
      · -- a longer run would be one behind which the rest does not match
        cases hlonger : execStar p g k (pos + 1) b with
        | none => exact hk
        | some y =>
          obtain ⟨e, b', rfl, he, hy⟩ := execStar_sound hlonger
          have hnone := hmax (c :: e) b' (List.cons_ne_nil c e) rfl
            (List.forall_mem_cons.2 ⟨hc, he⟩)
          rw [List.length_nil, Nat.add_zero, List.length_cons, Nat.add_comm e.length,
            ← Nat.add_assoc, hy] at hnone
          cases hnone
      · exact hk
  | cons c a ih =>
    have hc : p c = true := ha c List.mem_cons_self
    have htail : execStar p g k (pos + 1) (a ++ b) = some x := by
      refine ih (fun d hd => ha d (List.mem_cons_of_mem _ hd)) ?_ fun e b' he hb hp => ?_
      · rwa [Nat.add_assoc, Nat.add_comm 1]
      · have := hmax e b' he hb hp
        rwa [List.length_cons, Nat.add_comm a.length, ← Nat.add_assoc] at this
    rw [List.cons_append, execStar_cons_of_pos hc, htail]
    rfl

/-- **Greedy.**  A repetition takes its longest run if the rest matches behind it. -/
theorem exec_star_longest {a b : List Char} {pos : ℕ} {x : α} (ha : ∀ c ∈ a, p c = true)
    (hb : ∀ c ∈ b.head?, p c = false) (hk : k ⟨pos + a.length, b, g⟩ = some x) :
    execStar p g k pos (a ++ b) = some x := by
  refine execStar_of_longest ha hk fun e b' he heq hp => ?_
  -- a longer run would take the character at which this one stops
  obtain ⟨c, e, rfl⟩ := List.exists_cons_of_ne_nil he
  have hc := hb c (by rw [heq]; rfl)
  rw [hp c List.mem_cons_self] at hc
  cases hc

/-- A group that is one repetition captures its longest run if the rest matches behind it. -/
theorem exec_capture_star {a b : List Char} {n pos : ℕ} {x : α} (ha : ∀ c ∈ a, p c = true)
    (hb : ∀ c ∈ b.head?, p c = false) (hk : k ⟨pos + a.length, b, (n, a) :: g⟩ = some x) :
    exec (capture n (star p)) ⟨pos, a ++ b, g⟩ k = some x := by
  rw [exec_capture, exec_star]
  refine exec_star_longest ha hb ?_
  simpa using hk

/-- A repetition up to a character that does not occur fails. -/
theorem exec_star_lit_none {s : List Char} {pos : ℕ} (h : c ∉ s) :
    execStar p g (fun st => exec (lit c) st k) pos s = none := by
  induction s generalizing pos with
  | nil => rfl
  | cons d s ih =>
    obtain ⟨hd, hs⟩ := not_or.1 fun h' => h (List.mem_cons.2 h')
    simp [execStar, Ne.symm hd, ih hs]

/-- A repetition up to a character goes on to its last occurrence if the rest matches behind it. -/
theorem exec_star_lit_last {a b : List Char} {pos : ℕ} {x : α} (ha : ∀ d ∈ a, p d = true)
    (hb : c ∉ b) (hk : k ⟨pos + a.length + 1, b, g⟩ = some x) :
    execStar p g (fun st => exec (lit c) st k) pos (a ++ c :: b) = some x := by
  refine execStar_of_longest ha ?_ fun e b' he heq _ => ?_
  · rwa [exec_lit_cons, if_pos rfl]
  · -- beyond this occurrence there is none
    obtain ⟨d, e, rfl⟩ := List.exists_cons_of_ne_nil he
    obtain ⟨rfl, rfl⟩ := List.cons.inj heq
    cases b' with
    | nil => rfl
    | cons d b' =>
      rw [exec_lit_cons, if_neg]
      rintro rfl
      exact hb (by simp)

end

/-! ### One group between two literals -/

section

variable {p : Char → Bool} {w v : List Char} {n : ℕ}

/-- `^w(p*)v$` -/
def wrapped (w : List Char) (n : ℕ) (p : Char → Bool) (v : List Char) : Regex :=
  seq bol (literal w (seq (capture n (star p)) (literal v eol)))

/-- The group captures what stands between the literals, also where `v` is itself a run of the
class: the repetition gives back just one `v`. -/
theorem wrapped_append {a : List Char} (ha : ∀ c ∈ a, p c = true) :
    ∃ m, matchStart (wrapped w n p v) (w ++ (a ++ v)) = some m ∧ m.group n = some a := by
  refine ⟨⟨0 + w.length + a.length + v.length, [], [(n, a)]⟩, ?_, List.lookup_cons_self⟩
  rw [matchStart, wrapped, exec_seq, exec_bol_start, State.start, exec_literal_append, exec_seq,
    exec_capture, exec_star]
  refine execStar_of_longest ha ?_ fun e b he heq _ => ?_
  · have hend : exec (literal v eol) ⟨0 + w.length + a.length, v ++ [], [(n, a)]⟩ some =
        some ⟨0 + w.length + a.length + v.length, [], [(n, a)]⟩ := exec_literal_append v
    rw [List.append_nil] at hend
    simpa using hend
  · -- behind a longer run less than `v` is left
    refine exec_literal_eq_none fun hp => ?_
    have hlen : v.length ≤ b.length := hp.length_le
    have hpos := List.length_pos_of_ne_nil he
    rw [heq, List.length_append] at hlen
    omega

/-- What matches is the captured run between the literals, in front of a newline or nothing. -/
theorem wrapped_match {s : List Char} {m : State} (h : matchStart (wrapped w n p v) s = some m) :
    ∃ a t, s = w ++ (a ++ (v ++ t)) ∧ (∀ c ∈ a, p c = true) ∧ atEnd t = true ∧
      m.group n = some a := by
  rw [matchStart, wrapped, exec_seq, exec_bol_start] at h
  obtain ⟨s, rfl, hgroup⟩ := exec_literal_eq_some h
  rw [exec_seq, exec_capture, exec_star] at hgroup
  obtain ⟨a, b, rfl, ha, hv⟩ := execStar_sound hgroup
  obtain ⟨t, rfl, heol⟩ := exec_literal_eq_some hv
  rw [exec, Option.ite_none_right_eq_some] at heol
  obtain ⟨hend, heol⟩ := heol
  cases heol
  refine ⟨a, t, rfl, ha, hend, ?_⟩
  rw [State.group, List.lookup_cons_self]
  simp

/-- What matches and has no newline in it is the captured run between the literals. -/
theorem wrapped_sound {s : List Char} (hs : ∀ c ∈ s, dot c = true) {m : State}
    (h : matchStart (wrapped w n p v) s = some m) :
    ∃ a, s = w ++ (a ++ v) ∧ m.group n = some a := by
  obtain ⟨a, t, rfl, -, hend, hgroup⟩ := wrapped_match h
  obtain rfl : t = [] := eq_nil_of_atEnd hend fun c hc => hs c (by simp [hc])
  exact ⟨a, by simp, hgroup⟩

/-- Such a string matches. -/
theorem isSome_wrapped {a t : List Char} (ha : ∀ c ∈ a, p c = true) (ht : atEnd t = true) :
    (matchStart (wrapped w n p v) (w ++ (a ++ (v ++ t)))).isSome = true := by
  rw [matchStart, wrapped, exec_seq, exec_bol_start, State.start, exec_literal_append, exec_seq,
    exec_capture, exec_star]
  refine isSome_execStar ha ?_
  dsimp only
  rw [exec_literal_append, exec, if_pos ht, Option.isSome_some]

/-- What is captured is empty exactly where nothing stands between the literals, if the second one
does not end in a newline. -/
theorem wrapped_nil_iff {s : List Char} {u : List Char} {d : Char} (hv : v = u ++ [d])
    (hd : isNewline d = false) :
    (∃ m, matchStart (wrapped w n p v) s = some m ∧ m.group n = some []) ↔
      ∃ t, atEnd t = true ∧ s = w ++ (v ++ t) := by
  constructor
  · rintro ⟨m, hm, hgroup⟩
    obtain ⟨a, t, rfl, -, ht, ha⟩ := wrapped_match hm
    obtain rfl : a = [] := Option.some.inj (ha.symm.trans hgroup)
    exact ⟨t, ht, rfl⟩
  · rintro ⟨t, ht, rfl⟩
    have hsome := isSome_wrapped (w := w) (n := n) (p := p) (v := v) (a := [])
      (fun _ hc => absurd hc List.not_mem_nil) ht
    obtain ⟨m, hm⟩ := Option.isSome_iff_exists.1 hsome
    obtain ⟨a, t', he, -, -, ha⟩ := wrapped_match hm
    refine ⟨m, hm, ?_⟩
    rw [ha]
    have he : v ++ t = (a ++ v) ++ t' := by simpa using List.append_cancel_left he
    rcases List.append_eq_append_iff.1 he with ⟨x, hx, rfl⟩ | ⟨x, hx, -⟩
    · -- the last character of a longer match would be one of the newline
      rcases List.eq_nil_or_concat x with rfl | ⟨y, c, rfl⟩
      · rw [List.append_nil] at hx
        rw [List.append_left_eq_self.1 hx]
      · rw [hv, ← List.append_assoc, List.concat_eq_append, ← List.append_assoc] at hx
        have hdc : [d] = [c] := List.append_inj_right' hx rfl
        have hc := forall_isNewline_of_atEnd ht c (by simp)
        rw [← List.singleton_inj.1 hdc, hd] at hc
        cases hc
    · have hlen := congrArg List.length hx
      simp only [List.length_append] at hlen
      rw [List.eq_nil_of_length_eq_zero (l := a) (by omega)]

end

/-! ### Any success -/

/-- The expression captures nothing. -/
def captureFree : Regex → Bool
  | seq r r' => captureFree r && captureFree r'
  | opt r => captureFree r
  | capture _ _ => false
  | _ => true

/-- The numbers of the groups of the expression. -/
def captures : Regex → List ℕ
  | seq r r' => captures r ++ captures r'
  | opt r => captures r
  | capture n r => n :: captures r
  | _ => []

section

variable {α : Type*} {k : State → Option α} {st : State} {x : α}

/-- **Soundness.**  What succeeds is the continuation, at a state with less to match, with the same
groups if the expression has none, and in any case with what groups of other numbers have
captured. -/
theorem exec_sound {r : Regex} (h : exec r st k = some x) :
    ∃ st', st'.rest <:+ st.rest ∧ (r.captureFree = true → st'.groups = st.groups) ∧
      (∀ n ∉ r.captures, st'.group n = st.group n) ∧ k st' = some x := by
  induction r generalizing st k with
  | chars p =>
    obtain ⟨pos, s, g⟩ := st
    cases s with
    | nil => cases h
    | cons c s =>
      rw [exec_chars_cons, Option.ite_none_right_eq_some] at h
      exact ⟨⟨pos + 1, s, g⟩, List.suffix_cons c s, fun _ => rfl, fun _ _ => rfl, h.2⟩
  | star p =>
    obtain ⟨a, b, hs, -, hk⟩ := execStar_sound h
    exact ⟨⟨st.pos + a.length, b, st.groups⟩, ⟨a, hs.symm⟩, fun _ => rfl, fun _ _ => rfl, hk⟩
  | seq r r' ih ih' =>
    obtain ⟨st₁, hs₁, hg₁, hn₁, h₁⟩ := ih h
    obtain ⟨st₂, hs₂, hg₂, hn₂, h₂⟩ := ih' h₁
    refine ⟨st₂, hs₂.trans hs₁, fun hc => ?_, fun n hn => ?_, h₂⟩
    · rw [captureFree, Bool.and_eq_true] at hc
      rw [hg₂ hc.2, hg₁ hc.1]
    · rw [captures, List.mem_append, not_or] at hn
      rw [hn₂ n hn.2, hn₁ n hn.1]
  | opt r ih =>
    rcases Option.or_eq_some_iff.1 h with h | ⟨-, h⟩
    · obtain ⟨st', hs, hg, hn, hk⟩ := ih h
      exact ⟨st', hs, hg, hn, hk⟩
    · exact ⟨st, List.suffix_rfl, fun _ => rfl, fun _ _ => rfl, h⟩
  | capture n r ih =>
    obtain ⟨st', hs, -, hn, hk⟩ := ih h
    refine ⟨{ st' with groups := (n, st.rest.take (st'.pos - st.pos)) :: st'.groups }, hs,
      fun hc => Bool.noConfusion hc, fun m hm => ?_, hk⟩
    rw [captures, List.mem_cons, not_or] at hm
    rw [← hn m hm.2, State.group, List.lookup_cons, beq_false_of_ne hm.1]
    rfl
  | bol =>
    rw [exec, Option.ite_none_right_eq_some] at h
    exact ⟨st, List.suffix_rfl, fun _ => rfl, fun _ _ => rfl, h.2⟩
  | eol =>
    rw [exec, Option.ite_none_right_eq_some] at h
    exact ⟨st, List.suffix_rfl, fun _ => rfl, fun _ _ => rfl, h.2⟩

/-- An optional expression without groups does no harm to what succeeds everywhere. -/
theorem exec_opt_of_forall {r : Regex} {P : α → Prop} (hr : r.captureFree = true)
    (hk : ∀ pos s, s <:+ st.rest → ∃ y, k ⟨pos, s, st.groups⟩ = some y ∧ P y) :
    ∃ y, exec (opt r) st k = some y ∧ P y := by
  rw [exec_opt]
  cases h : exec r st k with
  | none => exact hk st.pos st.rest List.suffix_rfl
  | some x =>
    obtain ⟨⟨pos, s, g⟩, hs, hg, -, hx⟩ := exec_sound h
    obtain rfl : g = st.groups := hg hr
    obtain ⟨y, hy, hP⟩ := hk pos s hs
    rw [hx, Option.some.injEq] at hy
    exact ⟨x, rfl, hy ▸ hP⟩

end

end Regex
