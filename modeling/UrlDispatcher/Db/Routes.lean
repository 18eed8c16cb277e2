import UrlDispatcher.Db.Suffix

/-!
# What a lookup means

Abstractly a lookup asks the registry: among the entries of that protocol whose suffix the domain
matches it takes those with a longest suffix, and answers with the AppID of a file that has one
(`Registry.routes`).  Which one is left open.  `urlDbFindUrl_refines` says that the join of the two
tables answers just so: the rowids, the rows that belong to no file and the order of the tables
cannot be seen.
-/

namespace UrlDispatcher

open Sql

/-- A partial map from file names to what is registered for them. -/
abbrev Registry := Text → Option Registration

namespace Registry

/-- The files with an entry that matches, and its suffix. -/
def offers (R : Registry) (protocol domain : Text) : Set (Text × Text) :=
  {o | ∃ g, R o.1 = some g ∧ (protocol, o.2) ∈ g.entries ∧ like ('%' :: o.2) domain = true}

/-- The AppIDs of the files that offer a longest suffix. -/
def routes (R : Registry) (protocol domain : Text) : Set Text :=
  {A | ∃ o ∈ R.offers protocol domain, A = fileAppid o.1 ∧
    ∀ o' ∈ R.offers protocol domain, o'.2.length ≤ o.2.length}

end Registry

variable {db : Database} {p d n s : Text} {o : Option Text} {plan : QueryPlan}

/-- The rows that match are the offers of the registry. -/
theorem mem_offers_registry : (n, s) ∈ Registry.offers db.registry p d ↔
    ∃ r ∈ db.matching p d, r.1.val.name = n ∧ r.2.val.domainsuffix = s := by
  constructor
  · rintro ⟨g, hg, hs, hl⟩
    obtain ⟨c, hc, hn, -, he⟩ := Database.registry_eq_some.1 hg
    rw [← he] at hs
    obtain ⟨u, hu, hv⟩ := hs
    refine ⟨(c, u), mem_matching.2 ?_, hn, by rw [hv]⟩
    rw [hv]
    exact ⟨hc, hu, rfl, rfl, hl⟩
  · rintro ⟨⟨c, u⟩, hr, rfl, rfl⟩
    obtain ⟨hc, hu, hs, hp, hl⟩ := mem_matching.1 hr
    exact ⟨_, Database.registry_of_mem hc, ⟨u, hu, by rw [← hs, ← hp]⟩, hl⟩

/-- A longest row stands for a route, and each route for one. -/
theorem mem_routes_registry {A : Text} : A ∈ Registry.routes db.registry p d ↔
    ∃ r, Longest (db.matching p d) r ∧ A = rowAppid r := by
  constructor
  · rintro ⟨⟨n, s⟩, ho, rfl, hmax⟩
    obtain ⟨r, hr, rfl, rfl⟩ := mem_offers_registry.1 ho
    exact ⟨r, ⟨hr, fun r' hr' => hmax _ (mem_offers_registry.2 ⟨r', hr', rfl, rfl⟩)⟩, rfl⟩
  · rintro ⟨r, hr, rfl⟩
    refine ⟨_, mem_offers_registry.2 ⟨r, hr.1, rfl, rfl⟩, rfl, ?_⟩
    rintro ⟨n', s'⟩ ho'
    obtain ⟨r', hr', -, rfl⟩ := mem_offers_registry.1 ho'
    exact hr.2 r' hr'

/-- Every answer is a route. -/
theorem mem_routes_of_urlDbFindUrl {A : Text} (h : urlDbFindUrl plan .done db p o = some A) :
    A ∈ Registry.routes db.registry p (o.getD []) := by
  obtain ⟨r, hr, rfl⟩ := Option.map_eq_some_iff.1 h
  exact mem_routes_registry.2 ⟨r, longest_of_head? hr, rfl⟩

/-- Every route is an answer under some plan. -/
theorem exists_urlDbFindUrl {A : Text} (h : A ∈ Registry.routes db.registry p (o.getD [])) :
    ∃ plan, urlDbFindUrl plan .done db p o = some A := by
  obtain ⟨r, hr, rfl⟩ := mem_routes_registry.1 h
  exact ⟨.preferring r, urlDbFindUrl_preferring hr⟩

/-- There is no answer exactly if there is no route. -/
theorem urlDbFindUrl_eq_none_iff_routes :
    urlDbFindUrl plan .done db p o = none ↔ Registry.routes db.registry p (o.getD []) = ∅ := by
  constructor
  · intro h
    refine Set.eq_empty_of_forall_notMem fun A hA => ?_
    obtain ⟨⟨n, s⟩, ⟨g, hg, hs, hl⟩, -⟩ := hA
    have hno := urlDbFindUrl_eq_none_iff.1 h n g s hg hs
    rw [hl] at hno
    cases hno
  · intro h
    cases hA : urlDbFindUrl plan .done db p o with
    | none => rfl
    | some A => exact absurd (mem_routes_of_urlDbFindUrl hA) (h ▸ Set.notMem_empty A)

/-- **Lookups refine the registry.**  The answers to a lookup are the routes of the registry, each
of them under some plan, and `NULL` if there is none; so two databases with one registry cannot be
told apart by any lookup. -/
theorem urlDbFindUrl_refines (db : Database) (p : Text) (o : Option Text) :
    {A | ∃ plan, urlDbFindUrl plan .done db p o = some A} =
      Registry.routes db.registry p (o.getD []) ∧
    (∀ plan, urlDbFindUrl plan .done db p o = none ↔
      Registry.routes db.registry p (o.getD []) = ∅) ∧
    ∀ db' : Database, db'.registry = db.registry → ∀ plan, ∃ plan',
      urlDbFindUrl plan' .done db' p o = urlDbFindUrl plan .done db p o := by
  refine ⟨?_, fun _ => urlDbFindUrl_eq_none_iff_routes, fun db' he plan => ?_⟩
  · ext A
    exact ⟨fun ⟨_, h⟩ => mem_routes_of_urlDbFindUrl h, exists_urlDbFindUrl⟩
  · cases h : urlDbFindUrl plan .done db p o with
    | none =>
      refine ⟨plan, ?_⟩
      rw [urlDbFindUrl_eq_none_iff_routes, he]
      exact urlDbFindUrl_eq_none_iff_routes.1 h
    | some A =>
      have hA := mem_routes_of_urlDbFindUrl h
      rw [← he] at hA
      exact exists_urlDbFindUrl hA

end UrlDispatcher
