import UrlDispatcher.Db.Registry

/-!
# The longest domain suffix

A domain should be handled by a file that has registered its longest suffix (`LongestSuffixWins`).
The suffix test of `url_db_find_url` is a `LIKE` whose pattern is made of what the file has
registered, so that a `%` or `_` in there is a wildcard, and the order by `length` ranks such a row
with the others.

* `literal_subset_matching` : a row whose suffix is one literally always passes the test.
* `longestSuffixWins_iff` : the longest suffix wins exactly if no row that passes the test only
  through its wildcards is among the longest that pass, except for an AppID that has a longest
  literal suffix too.
* `longestSuffixWins_of_plain` : in particular where no wildcards are registered.
-/

namespace UrlDispatcher

open Sql GLib

/-- The row of a known file and a row of one of its entries. -/
abbrev JoinedRow := Row ConfigFile × Row Url

/-- The AppID of the file. -/
def rowAppid (r : JoinedRow) : Text := fileAppid r.1.val.name

/-- The length the answers are ordered by. -/
def suffixLength (r : JoinedRow) : ℕ := r.2.val.domainsuffix.length

/-- The row is one of the longest of the list. -/
def Longest (rows : List JoinedRow) (r : JoinedRow) : Prop :=
  r ∈ rows ∧ ∀ r' ∈ rows, suffixLength r' ≤ suffixLength r

instance (rows : List JoinedRow) : DecidablePred (Longest rows) := fun _ =>
  inferInstanceAs (Decidable (_ ∧ _))

/-- The rows of that protocol whose suffix is literally one of the domain, up to the case of ASCII
letters. -/
def Database.literal (db : Database) (protocol domain : Text) : List JoinedRow :=
  db.join.filter fun r =>
    decide (r.2.val.protocol = protocol) &&
      (r.2.val.domainsuffix.map Char.toLower).isSuffixOf (domain.map Char.toLower)

/-- The answer is `NULL` exactly if there is no such row, and otherwise the AppID of a longest
one. -/
structure LongestSuffixWins (plan : QueryPlan) (db : Database) (protocol : Text)
    (domain : Option Text) : Prop where
  null : urlDbFindUrl plan .done db protocol domain = none ↔
    db.literal protocol (domain.getD []) = []
  found : ∀ A, urlDbFindUrl plan .done db protocol domain = some A →
    ∃ r, Longest (db.literal protocol (domain.getD [])) r ∧ A = rowAppid r

/-- The row passes the test only through its wildcards, and none that passes is longer. -/
structure WildcardLongest (db : Database) (protocol domain : Text) (r : JoinedRow) : Prop where
  longest : Longest (db.matching protocol domain) r
  wildcard : r ∉ db.literal protocol domain

variable {db : Database} {p d : Text} {plan : QueryPlan}

/-- A literal suffix passes the test, whatever wildcards there are in it. -/
theorem literal_subset_matching : db.literal p d ⊆ db.matching p d := by
  intro r hr
  simp only [Database.literal, List.mem_filter, Bool.and_eq_true,
    List.isSuffixOf_iff_suffix] at hr
  simp only [Database.matching, List.mem_filter, Bool.and_eq_true]
  exact ⟨hr.1, hr.2.1, like_of_suffix hr.2.2⟩

/-- A row without wildcards that passes the test is a literal suffix. -/
theorem mem_literal_of_plain {r : JoinedRow} (hr : r ∈ db.matching p d)
    (hplain : ∀ c ∈ r.2.val.domainsuffix, c ∉ ['%', '_']) : r ∈ db.literal p d := by
  simp only [Database.matching, List.mem_filter, Bool.and_eq_true] at hr
  simp only [Database.literal, List.mem_filter, Bool.and_eq_true, List.isSuffixOf_iff_suffix]
  exact ⟨hr.1, hr.2.1, suffix_of_like hplain hr.2.2⟩

/-- The first row of an ordered answer is a longest one. -/
theorem longest_of_head? {rows : List JoinedRow} {r : JoinedRow}
    (h : (plan.orderBy rows).head? = some r) : Longest rows r := by
  have hmem := (plan.perm rows).mem_iff (a := r)
  refine ⟨hmem.1 (List.mem_of_mem_head? h), fun r' hr' => ?_⟩
  obtain ⟨rest, hrest⟩ := List.head?_eq_some_iff.1 h
  have hsorted := plan.sorted rows
  rw [hrest, List.pairwise_cons] at hsorted
  have hr' : r' ∈ plan.orderBy rows := (plan.perm rows).mem_iff.2 hr'
  rw [hrest] at hr'
  rcases List.mem_cons.1 hr' with rfl | hr'
  · exact Nat.le_refl _
  · exact hsorted.1 r' hr'

/-- The plan that puts the row `r` first where that is allowed. -/
def QueryPlan.preferring (r : JoinedRow) : QueryPlan where
  orderBy rows :=
    if Longest rows r then r :: QueryPlan.stable.orderBy (rows.erase r)
    else QueryPlan.stable.orderBy rows
  perm rows := by
    split_ifs with h
    · exact ((QueryPlan.stable.perm _).cons r).trans (List.perm_cons_erase h.1).symm
    · exact QueryPlan.stable.perm rows
  sorted rows := by
    split_ifs with h
    · refine List.pairwise_cons.2 ⟨fun r' hr' => ?_, QueryPlan.stable.sorted _⟩
      exact h.2 r' (List.mem_of_mem_erase ((QueryPlan.stable.perm _).mem_iff.1 hr'))
    · exact QueryPlan.stable.sorted rows

/-- Every longest row that passes the test is answered under some plan. -/
theorem urlDbFindUrl_preferring {r : JoinedRow} {o : Option Text}
    (h : Longest (db.matching p (o.getD [])) r) :
    urlDbFindUrl (.preferring r) .done db p o = some (rowAppid r) := by
  simp only [urlDbFindUrl, QueryPlan.preferring, if_pos h, List.head?_cons, Option.map_some]
  rfl

/-- The longest suffix wins where no wildcard gets in its way. -/
theorem longestSuffixWins_of_forall {o : Option Text}
    (h : ∀ r, WildcardLongest db p (o.getD []) r →
      ∃ l, Longest (db.literal p (o.getD [])) l ∧ rowAppid l = rowAppid r) (plan : QueryPlan) :
    LongestSuffixWins plan db p o := by
  -- the row answered is a literal suffix, or there is one with its AppID
  have hfound : ∀ A, urlDbFindUrl plan .done db p o = some A →
      ∃ r, Longest (db.literal p (o.getD [])) r ∧ A = rowAppid r := by
    intro A hA
    obtain ⟨r, hr, rfl⟩ := Option.map_eq_some_iff.1 hA
    have hlongest := longest_of_head? hr
    by_cases hlit : r ∈ db.literal p (o.getD [])
    · exact ⟨r, ⟨hlit, fun r' hr' => hlongest.2 r' (literal_subset_matching hr')⟩, rfl⟩
    · obtain ⟨l, hl, he⟩ := h r ⟨hlongest, hlit⟩
      exact ⟨l, hl, he.symm⟩
  refine ⟨⟨fun hnone => ?_, fun hnil => ?_⟩, hfound⟩
  · rw [urlDbFindUrl, Option.map_eq_none_iff, List.head?_eq_none_iff] at hnone
    have hmatching : db.matching p (o.getD []) = [] := by
      have := (plan.perm (db.matching p (o.getD []))).length_eq
      rw [hnone] at this
      exact List.length_eq_zero_iff.1 this.symm
    exact List.eq_nil_of_subset_nil (hmatching ▸ literal_subset_matching)
  · cases hA : urlDbFindUrl plan .done db p o with
    | none => rfl
    | some A =>
      obtain ⟨r, hr, -⟩ := hfound A hA
      rw [hnil] at hr
      cases hr.1

/-- Where no wildcards are registered for the protocol, the longest suffix wins. -/
theorem longestSuffixWins_of_plain {o : Option Text}
    (hplain : ∀ r ∈ db.join, r.2.val.protocol = p → ∀ c ∈ r.2.val.domainsuffix, c ∉ ['%', '_'])
    (plan : QueryPlan) : LongestSuffixWins plan db p o := by
  refine longestSuffixWins_of_forall (fun r hr => ?_) plan
  have hmem := hr.longest.1
  simp only [Database.matching, List.mem_filter, Bool.and_eq_true, decide_eq_true_eq] at hmem
  exact absurd (mem_literal_of_plain hr.longest.1 (hplain r hmem.1 hmem.2.1)) hr.wildcard

/-- **The longest suffix wins**, whatever plan is chosen, exactly if a row that passes the test only
through its wildcards is none of the longest that pass, unless its AppID has a longest literal
suffix too. -/
theorem longestSuffixWins_iff (db : Database) (p : Text) (o : Option Text) :
    (∀ plan, LongestSuffixWins plan db p o) ↔
      ∀ r, WildcardLongest db p (o.getD []) r →
        ∃ l, Longest (db.literal p (o.getD [])) l ∧ rowAppid l = rowAppid r := by
  refine ⟨fun h r hr => ?_, longestSuffixWins_of_forall⟩
  obtain ⟨l, hl, he⟩ := (h (.preferring r)).found _ (urlDbFindUrl_preferring hr.longest)
  exact ⟨l, hl, he.symm⟩

/-- The suffix `a_b.com` is found for the domain `axb.com`. -/
theorem not_longestSuffixWins_underscore :
    ¬ LongestSuffixWins .stable
      (entryDatabase "/d/foo.url-dispatcher".toList "http".toList "a_b.com".toList) "http".toList
      (some "axb.com".toList) := by
  intro h
  have hnone := h.null.2 (by decide)
  revert hnone
  decide

end UrlDispatcher
