import UrlDispatcher.Regex.Basic
import Mathlib.Data.List.DropRight

/-!
# Expressions for one line

An expression whose classes hold no newline character, and which ends in `$`, sees a string only up
to the first newline.  If a newline sequence stands there at the very end of the string, it matches
as it does without that sequence; if anything else stands there, it does not match
(`matchStart_line`).  So what such an expression captures has to be known for single lines only.
-/

namespace Regex

/-- Every class of the expression lies in `p`. -/
def Within (p : Char → Bool) : Regex → Prop
  | chars q | star q => ∀ c, q c = true → p c = true
  | seq r r' => Within p r ∧ Within p r'
  | opt r | capture _ r => Within p r
  | bol | eol => True

/-- The expression ends in `$`. -/
def Anchored : Regex → Prop
  | seq _ r => Anchored r
  | eol => True
  | _ => False

theorem within_literal {p : Char → Bool} {w : List Char} {r : Regex} (hw : ∀ c ∈ w, p c = true)
    (hr : Within p r) : Within p (literal w r) := by
  induction w with
  | nil => exact hr
  | cons d w ih =>
    refine ⟨fun c hc => ?_, ih fun c hc => hw c (List.mem_cons_of_mem d hc)⟩
    rw [of_decide_eq_true hc]
    exact hw d List.mem_cons_self

/-- `s` in front of what is left. -/
def State.append (st : State) (s : List Char) : State := { st with rest := st.rest ++ s }

section

variable {α : Type*} {p : Char → Bool} {k k' : State → Option α} {st : State} {x : α}
  {r : Regex} {t s : List Char}

/-- What is done with the result can be done at the end. -/
theorem exec_map {β : Type*} (f : α → β) :
    exec r st (fun m => (k m).map f) = (exec r st k).map f := by
  induction r generalizing st k with
  | chars q =>
    obtain ⟨pos, _ | ⟨c, cs⟩, g⟩ := st
    · rfl
    · simp only [exec_chars_cons]
      split_ifs <;> rfl
  | star q =>
    obtain ⟨pos, s, g⟩ := st
    simp only [exec_star]
    induction s generalizing pos with
    | nil => rfl
    | cons c s ih =>
      simp only [execStar, ih]
      split_ifs <;> simp [Option.map_or]
  | seq r r' ih ih' => simp only [exec_seq, ih', ih]
  | opt r ih => simp only [exec_opt, ih, Option.map_or]
  | capture n r ih => simp only [exec_capture, ih]
  | bol | eol =>
    simp only [exec]
    split_ifs <;> rfl

/-- What is consumed on the way to a success lies in the classes of the expression. -/
theorem exec_consumes (hr : r.Within p) (h : exec r st k = some x) :
    ∃ a st', st.rest = a ++ st'.rest ∧ (∀ c ∈ a, p c = true) ∧ k st' = some x := by
  induction r generalizing st k with
  | chars q =>
    obtain ⟨pos, _ | ⟨c, cs⟩, g⟩ := st
    · cases h
    · rw [exec_chars_cons, Option.ite_none_right_eq_some] at h
      exact ⟨[c], ⟨pos + 1, cs, g⟩, rfl, by simpa using hr c h.1, h.2⟩
  | star q =>
    obtain ⟨a, b, hs, ha, hk⟩ := execStar_sound h
    exact ⟨a, ⟨st.pos + a.length, b, st.groups⟩, hs, fun c hc => hr c (ha c hc), hk⟩
  | seq r r' ih ih' =>
    obtain ⟨a, st₁, hs, ha, h₁⟩ := ih hr.1 h
    obtain ⟨b, st₂, hs', hb, h₂⟩ := ih' hr.2 h₁
    refine ⟨a ++ b, st₂, by rw [hs, hs', List.append_assoc], fun c hc => ?_, h₂⟩
    exact (List.mem_append.1 hc).elim (ha c) (hb c)
  | opt r ih =>
    rcases Option.or_eq_some_iff.1 h with h | ⟨-, h⟩
    · exact ih hr h
    · exact ⟨[], st, rfl, by simp, h⟩
  | capture n r ih =>
    obtain ⟨a, st', hs, ha, hk⟩ := ih hr h
    exact ⟨a, { st' with groups := (n, st.rest.take (st'.pos - st.pos)) :: st'.groups }, hs, ha, hk⟩
  | bol | eol =>
    rw [exec, Option.ite_none_right_eq_some] at h
    exact ⟨[], st, rfl, by simp, h.2⟩

/-- An expression that ends in `$` leaves only what may stand behind the end. -/
theorem exec_anchored (hr : r.Within p) (ha : r.Anchored) (h : exec r st k = some x) :
    ∃ a b, st.rest = a ++ b ∧ (∀ c ∈ a, p c = true) ∧ atEnd b = true := by
  induction r generalizing st k with
  | seq r r' _ ih' =>
    obtain ⟨a, st', hs, hin, h'⟩ := exec_consumes hr.1 h
    obtain ⟨b, e, hs', hin', he⟩ := ih' hr.2 ha h'
    refine ⟨a ++ b, e, by rw [hs, hs', List.append_assoc], fun c hc => ?_, he⟩
    exact (List.mem_append.1 hc).elim (hin c) (hin' c)
  | eol =>
    rw [exec, Option.ite_none_right_eq_some] at h
    exact ⟨[], st.rest, rfl, by simp, h.1⟩
  | chars | star | opt | capture | bol => exact ha.elim

/-- `$` looks past a line only at what follows it. -/
theorem atEnd_append (ht : ∀ c ∈ t, dot c = true) (hs : atEnd s = true) :
    atEnd (t ++ s) = atEnd t := by
  cases t with
  | nil => exact hs
  | cons c t =>
    have hno : ∀ u, atEnd (c :: u) = false := fun u => by
      rw [← Bool.not_eq_true]
      intro hu
      have hc := ht c List.mem_cons_self
      rw [dot, forall_isNewline_of_atEnd hu c List.mem_cons_self] at hc
      cases hc
    rw [List.cons_append, hno, hno]

/-- A repetition stops at a newline in any case. -/
theorem execStar_line {q : Char → Bool} {g : List (ℕ × List Char)} {pos : ℕ}
    (hq : ∀ c, q c = true → dot c = true) (hs : ∀ c ∈ s.head?, dot c = false)
    (hk : ∀ a b, t = a ++ b →
      k ⟨pos + a.length, b ++ s, g⟩ = k' ⟨pos + a.length, b, g⟩) :
    execStar q g k pos (t ++ s) = execStar q g k' pos t := by
  induction t generalizing pos with
  | nil =>
    have hnil : k ⟨pos, s, g⟩ = k' ⟨pos, [], g⟩ := hk [] [] rfl
    cases s with
    | nil => exact hnil
    | cons c s =>
      have hc : ¬ q c = true := fun hc => by
        have := hq c hc
        rw [hs c rfl] at this
        cases this
      exact (if_neg hc).trans hnil
  | cons c t ih =>
    have hhere : k ⟨pos, c :: t ++ s, g⟩ = k' ⟨pos, c :: t, g⟩ := hk [] (c :: t) rfl
    have hlater : execStar q g k (pos + 1) (t ++ s) = execStar q g k' (pos + 1) t := by
      refine ih fun a b hab => ?_
      have h := hk (c :: a) b (by rw [hab, List.cons_append])
      rwa [List.length_cons, Nat.add_comm a.length, ← Nat.add_assoc] at h
    rw [List.cons_append, execStar, execStar, hlater]
    rw [List.cons_append] at hhere
    rw [hhere]

/-- What follows a line and may stand behind the end changes nothing. -/
theorem exec_line (hr : r.Within dot) (hend : atEnd s = true) (hst : ∀ c ∈ st.rest, dot c = true)
    (hk : ∀ st', st'.rest <:+ st.rest → st'.pos + st'.rest.length = st.pos + st.rest.length →
      k (st'.append s) = k' st') :
    exec r (st.append s) k = exec r st k' := by
  have hhead : ∀ c ∈ s.head?, dot c = false := fun c hc => by
    rw [dot, forall_isNewline_of_atEnd hend c (List.mem_of_mem_head? hc)]
    rfl
  induction r generalizing st k k' with
  | chars q =>
    obtain ⟨pos, _ | ⟨c, cs⟩, g⟩ := st
    · cases s with
      | nil => rfl
      | cons c s =>
        have hc : ¬ q c = true := fun hc => by
          have := hr c hc
          rw [hhead c rfl] at this
          cases this
        exact if_neg hc
    · refine if_congr Iff.rfl (hk ⟨pos + 1, cs, g⟩ (List.suffix_cons c cs) ?_) rfl
      simp only [List.length_cons]
      omega
  | star q =>
    refine execStar_line hr hhead fun a b hab =>
      hk ⟨st.pos + a.length, b, st.groups⟩ ⟨a, hab.symm⟩ ?_
    rw [hab, List.length_append, Nat.add_assoc]
  | seq r r' ih ih' =>
    refine ih hr.1 hst fun st₁ hs₁ hp₁ => ih' hr.2 (fun c hc => hst c (hs₁.subset hc)) ?_
    exact fun st₂ hs₂ hp₂ => hk st₂ (hs₂.trans hs₁) (hp₂.trans hp₁)
  | opt r ih =>
    rw [exec_opt, exec_opt, ih hr hst hk, hk st List.suffix_rfl rfl]
  | capture n r ih =>
    refine ih hr hst fun st' hs' hp' => ?_
    -- the group lies in the line
    have htake : (st.rest ++ s).take (st'.pos - st.pos) = st.rest.take (st'.pos - st.pos) := by
      have hlen := hs'.length_le
      exact List.take_append_of_le_length (by omega)
    have h := hk { st' with groups := (n, st.rest.take (st'.pos - st.pos)) :: st'.groups } hs' hp'
    rw [← htake] at h ⊢
    exact h
  | bol => exact if_congr Iff.rfl (hk st List.suffix_rfl rfl) rfl
  | eol =>
    rw [exec, exec, State.append, atEnd_append hst hend]
    exact if_congr Iff.rfl (hk st List.suffix_rfl rfl) rfl

end

/-- The first line of a string. -/
def line (u : List Char) : List Char := u.takeWhile dot

/-- What follows the first line. -/
def lineEnd (u : List Char) : List Char := u.dropWhile dot

/-- **One line counts.**  An expression without newline characters that ends in `$` captures from a
string what it captures from the first line, if only a newline sequence may stand behind that; else
it does not match. -/
theorem matchStart_line {r : Regex} (hr : r.Within dot) (ha : r.Anchored) (u : List Char) :
    matchStart r u =
      if atEnd (lineEnd u) then (matchStart r (line u)).map fun m => m.append (lineEnd u)
      else none := by
  have hline : ∀ c ∈ line u, dot c = true := fun c hc => List.mem_takeWhile_imp hc
  have hsplit : line u ++ lineEnd u = u := List.takeWhile_append_dropWhile
  split_ifs with hend
  · have h : exec r ((State.start (line u)).append (lineEnd u)) some =
        exec r (.start (line u)) fun m => some (m.append (lineEnd u)) :=
      exec_line hr hend hline fun _ _ _ => rfl
    have hstart : (State.start (line u)).append (lineEnd u) = .start u := by
      rw [State.start, State.append, hsplit, State.start]
    rw [hstart] at h
    rw [matchStart, h, matchStart, ← exec_map]
    rfl
  · cases h : matchStart r u with
    | none => rfl
    | some m =>
      obtain ⟨a, b, hs, ha', hb⟩ := exec_anchored hr ha h
      have hu : u = a ++ b := hs
      -- the line goes on to what stands behind the end
      have hrest : lineEnd u = b := by
        rw [lineEnd, hu, List.dropWhile_append_of_pos ha']
        cases b with
        | nil => rfl
        | cons c b =>
          rw [List.dropWhile_cons, dot, forall_isNewline_of_atEnd hb c List.mem_cons_self]
          rfl
      rw [hrest] at hend
      exact absurd hb hend

end Regex
