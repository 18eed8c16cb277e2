import UrlDispatcher.Dispatch.Generic

/-!
# The host decides the handler

URLs of the form `scheme://[userinfo@]host[:port]rest` are looked up by their scheme and their host,
except that the optional group `(?:.*@)?` of the generic expression is not confined to the
authority: an `@` in the path, the query or the fragment makes it look for the host behind that `@`.

* `HostUrl` : the URLs of that form.
* `looksUpHost_iff` : the host is what is looked up exactly when there is no `@` in the rest, or the
  host stands behind the last one as well.
-/

namespace UrlDispatcher

open Regex

/-- The parts of a URL. -/
structure UrlParts where
  scheme : Text
  userinfo : Option Text
  host : Text
  port : Option Text
  rest : Text

/-- What follows the host. -/
def UrlParts.behindHost (u : UrlParts) : Text :=
  (match u.port with
    | some port => ':' :: port
    | none => []) ++ u.rest

/-- What follows `://`. -/
def UrlParts.authority (u : UrlParts) : Text :=
  (match u.userinfo with
    | some info => info ++ ['@']
    | none => []) ++ (u.host ++ u.behindHost)

/-- The URL. -/
def UrlParts.text (u : UrlParts) : Text := u.scheme ++ ':' :: '/' :: '/' :: u.authority

/-- A URL `scheme://[userinfo@]host[:port]rest`. -/
structure HostUrl extends UrlParts where
  isScheme : IsScheme scheme
  ordinary : scheme ≠ "intent".toList ∧ scheme ≠ "appid".toList ∧ scheme ≠ "application".toList
  userinfo_plain : ∀ info ∈ userinfo, ∀ c ∈ info, c ∉ ['/', '?', '#', '@']
  host_chars : ∀ c ∈ host, hostChar c = true
  port_digits : ∀ digits ∈ port, ∀ c ∈ digits, c.isDigit = true
  rest_start : ∀ c ∈ rest.head?, c ∈ ['/', '?', '#']
  no_newline : ∀ c ∈ toUrlParts.text, dot c = true

/-- The function asks the database for the protocol and the domain, and for nothing else. -/
def LooksUp (url protocol domain : Text) : Prop :=
  ∀ triplet find, dispatcherUrlToAppid triplet find url =
    (find protocol (some domain)).map fun appid => ⟨appid, some url⟩

/-! ### What is looked up -/

/-- **What is looked up** for a URL of that form. -/
theorem HostUrl.looksUp (u : HostUrl) : LooksUp u.text u.scheme (authorityDomain u.authority) := by
  intro triplet find
  obtain ⟨hintent, happid, happlication⟩ := u.ordinary
  have hauth : ∀ c ∈ u.authority, dot c = true := fun c hc =>
    u.no_newline c (List.mem_append_right _ (by simp [hc]))
  obtain ⟨m, hm, h1, h2⟩ := genericre_authority u.isScheme hauth
  have hfetch : gMatchInfoFetch m 1 = u.scheme := by rw [gMatchInfoFetch, h1, Option.getD_some]
  have hgeneric := dispatcherUrlToAppid_generic (show matchStart genericre u.text = some m from hm)
    (hfetch ▸ happid) (hfetch ▸ happlication) triplet find
  rw [hgeneric, hfetch, if_neg hintent, gMatchInfoFetch, h2, Option.getD_some]

/-! ### The host -/

/-- The condition: no `@` in the rest, or the host behind the last one. -/
def HostUrl.KeepsHost (u : HostUrl) : Prop := '@' ∉ u.rest ∨ authorityDomain u.rest = u.host

theorem HostUrl.at_not_mem (u : HostUrl) (h : '@' ∉ u.rest) : '@' ∉ u.host ++ u.behindHost := by
  intro hmem
  rcases List.mem_append.1 hmem with hmem | hmem
  · have := u.host_chars _ hmem
    revert this
    decide
  · rcases List.mem_append.1 hmem with hmem | hmem
    · cases hp : u.port with
      | none => simp [hp] at hmem
      | some digits =>
        have hd := u.port_digits digits hp '@'
        simp only [hp, List.mem_cons] at hmem
        rcases hmem with hmem | hmem
        · revert hmem
          decide
        · have := hd hmem
          revert this
          decide
    · exact h hmem

/-- The host ends where what follows begins. -/
theorem HostUrl.takeWhile_host (u : HostUrl) :
    (u.host ++ u.behindHost).takeWhile hostChar = u.host := by
  have hstop : u.behindHost.takeWhile hostChar = [] := by
    unfold UrlParts.behindHost
    cases hp : u.port with
    | some digits => rfl
    | none =>
      cases hr : u.rest with
      | nil => rfl
      | cons c cs =>
        have hc := u.rest_start c (by rw [hr]; rfl)
        simp only [List.mem_cons, List.not_mem_nil, or_false] at hc
        rcases hc with rfl | rfl | rfl <;> rfl
  rw [List.takeWhile_append_of_pos u.host_chars, hstop, List.append_nil]

theorem HostUrl.authorityDomain_of_not_mem (u : HostUrl) (h : '@' ∉ u.rest) :
    authorityDomain u.authority = u.host := by
  have hat := u.at_not_mem h
  unfold UrlParts.authority authorityDomain
  cases u.userinfo with
  | none => rw [List.nil_append, afterLastAt_of_not_mem hat, u.takeWhile_host]
  | some info =>
    rw [List.append_assoc, List.singleton_append, afterLastAt_append info hat, u.takeWhile_host]

theorem HostUrl.authorityDomain_of_mem (u : HostUrl) (h : '@' ∈ u.rest) :
    authorityDomain u.authority = authorityDomain u.rest := by
  rw [UrlParts.authority, UrlParts.behindHost, ← List.append_assoc, ← List.append_assoc,
    authorityDomain, afterLastAt_append_of_mem _ h, authorityDomain]

theorem HostUrl.keepsHost_iff (u : HostUrl) :
    authorityDomain u.authority = u.host ↔ u.KeepsHost := by
  unfold HostUrl.KeepsHost
  by_cases h : '@' ∈ u.rest
  · rw [u.authorityDomain_of_mem h]
    simp [h]
  · simp [u.authorityDomain_of_not_mem h, h]

/-- What is looked up is determined by the function. -/
theorem LooksUp.unique {url p d d' : Text} (h : LooksUp url p d) (h' : LooksUp url p d') :
    d = d' := by
  have he := (h (fun _ _ _ => none) fun _ d => d).symm.trans (h' (fun _ _ _ => none) fun _ d => d)
  simpa using he

/-- The host is looked up exactly if the condition holds. -/
theorem HostUrl.looksUp_iff (u : HostUrl) : LooksUp u.text u.scheme u.host ↔ u.KeepsHost := by
  rw [← u.keepsHost_iff]
  constructor
  · intro h
    exact u.looksUp.unique h
  · intro h
    rw [← h]
    exact u.looksUp

/-- **The host decides the handler** exactly of the URLs without an `@` in the rest, or with the
host behind the last one; and any two of these with one scheme and one host have one handler. -/
theorem looksUpHost_iff (u : HostUrl) :
    (LooksUp u.text u.scheme u.host ↔ u.KeepsHost) ∧
    ∀ v : HostUrl, u.scheme = v.scheme → u.host = v.host → u.KeepsHost → v.KeepsHost →
      ∀ triplet plan st db,
        (dispatcherUrlToAppid triplet (urlDbFindUrl plan st db) u.text).map Resolved.appid =
          (dispatcherUrlToAppid triplet (urlDbFindUrl plan st db) v.text).map Resolved.appid := by
  refine ⟨u.looksUp_iff, fun v hscheme hhost hu hv triplet plan st db => ?_⟩
  rw [u.looksUp_iff.2 hu, v.looksUp_iff.2 hv, hscheme, hhost]
  simp only [Option.map_map]
  rfl

/-- `http://user@foo.com:80/index.html` -/
def plainUrl : HostUrl where
  scheme := "http".toList
  userinfo := some "user".toList
  host := "foo.com".toList
  port := some "80".toList
  rest := "/index.html".toList
  isScheme := ⟨'h', "ttp".toList, rfl, rfl, List.all_eq_true.1 rfl⟩
  ordinary := by decide
  userinfo_plain := by
    rintro _ ⟨⟩
    exact fun c hc => of_decide_eq_true
      (List.all_eq_true (p := fun c => decide (c ∉ ['/', '?', '#', '@'])).1 rfl c hc)
  host_chars := List.all_eq_true.1 rfl
  port_digits := by
    rintro _ ⟨⟩
    exact List.all_eq_true.1 rfl
  rest_start := by
    rintro _ ⟨⟩
    decide
  no_newline := List.all_eq_true.1 rfl

theorem looksUpHost_plainUrl : LooksUp plainUrl.text plainUrl.scheme plainUrl.host :=
  (looksUpHost_iff plainUrl).1.2 (.inl (by decide))

/-- `http://foo.com/@evil.com` -/
def pathUrl : HostUrl where
  scheme := "http".toList
  userinfo := none
  host := "foo.com".toList
  port := none
  rest := "/@evil.com".toList
  isScheme := ⟨'h', "ttp".toList, rfl, rfl, List.all_eq_true.1 rfl⟩
  ordinary := by decide
  userinfo_plain := by rintro _ ⟨⟩
  host_chars := List.all_eq_true.1 rfl
  port_digits := by rintro _ ⟨⟩
  rest_start := by
    rintro _ ⟨⟩
    decide
  no_newline := List.all_eq_true.1 rfl

/-- The host of the path is looked up instead. -/
theorem not_looksUpHost_pathUrl : ¬ LooksUp pathUrl.text pathUrl.scheme pathUrl.host := by
  intro h
  have he := h (fun _ _ _ => none) fun _ d => d
  revert he
  decide

end UrlDispatcher
