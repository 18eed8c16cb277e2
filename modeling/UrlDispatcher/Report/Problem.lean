import UrlDispatcher.Dispatch.Service
import UrlDispatcher.Update.Entries

/-!
# Problem reports

`report_recoverable_problem` writes the signature and the properties of a problem to the reporter,
with a NUL between any two of them.  It takes the properties as an array that ends at the first
`NULL`, keys and values in turn, so a value that is `NULL` ends the report behind its key.

* `splitOn_report` : the reporter reads the signature and the properties before the first `NULL`.
* `Problem.decodes_iff` : a report says what its call site reports exactly if no value is `NULL`.
-/

namespace UrlDispatcher

open Sql GLib

/-! ### Writing a report -/

/-- The character that ends a C string. -/
def nul : Char := '\x00'

/-- A C string has none of it before its end. -/
def IsCString (s : Text) : Prop := nul ∉ s

instance : DecidablePred IsCString := fun s => inferInstanceAs (Decidable (nul ∉ s))

/-- `write_string` -/
def writeString (out string : Text) : Text := out ++ string

/-- `write_null` -/
def writeNull (out : Text) : Text := out ++ [nul]

/-- The loop over the properties, up to the first `NULL`. -/
def writeProperties (first : Bool) (out : Text) : List (Option Text) → Text
  | [] => out
  | none :: _ => out
  | some property :: properties =>
    writeProperties false (writeString (if first then out else writeNull out) property) properties

/-- What is written to the reporter. -/
def writeReport (signature : Option Text) (additional : Option (List (Option Text))) : Text :=
  let (first, out) :=
    match signature with
    | some signature =>
      (false, writeString (writeNull (writeString [] "DuplicateSignature".toList)) signature)
    | none => (true, [])
  match additional with
  | some properties => writeProperties first out properties
  | none => out

/-- The environment of `report_recoverable_problem`. -/
structure Reporter where
  /-- `URL_DISPATCHER_DISABLE_RECOVERABLE_ERROR` is set. -/
  disabled : Bool
  /-- The reporter has been started, with a pipe to its standard input. -/
  started : Bool

/-- A report that has been filed. -/
structure Report where
  argv : List Text
  /-- The end of the reporter is waited for. -/
  wait : Bool
  /-- What the reporter reads, `none` if it could not be started. -/
  stdin : Option Text

/-- `%d` -/
def printfInt (z : ℤ) : Text := (toString z).toList

/-- `report_recoverable_problem` -/
def reportRecoverableProblem (env : Reporter) (signature : Option Text) (reportPid : ℤ)
    (wait : Bool) (additional : Option (List (Option Text))) : Option Report :=
  if env.disabled then none
  else some {
    argv := "/usr/share/apport/recoverable_problem".toList ::
      if reportPid ≠ 0 then ["-p".toList, printfInt reportPid] else []
    wait := wait && env.started
    stdin := if env.started then some (writeReport signature additional) else none }

/-- The properties before the first `NULL`. -/
def untilNull : List (Option Text) → List Text
  | [] => []
  | none :: _ => []
  | some property :: properties => property :: untilNull properties

theorem writeProperties_false (out : Text) (properties : List (Option Text)) :
    writeProperties false out properties =
      out ++ (untilNull properties).flatMap fun property => nul :: property := by
  induction properties generalizing out with
  | nil => simp [writeProperties, untilNull]
  | cons property properties ih =>
    cases property with
    | none => simp [writeProperties, untilNull]
    | some property =>
      rw [writeProperties, ih]
      simp [writeString, writeNull, untilNull]

theorem intercalate_cons (s : Text) (ss : List Text) :
    [nul].intercalate (s :: ss) = s ++ ss.flatMap fun property => nul :: property := by
  induction ss generalizing s with
  | nil => simp
  | cons s' ss ih =>
    rw [List.intercalate_cons_cons, ih, List.flatMap_cons]
    simp

/-- **The reporter reads** the signature and the properties before the first `NULL`. -/
theorem splitOn_report {signature : Text} {properties : List (Option Text)}
    (hs : IsCString signature) (hp : ∀ property ∈ untilNull properties, IsCString property) :
    (writeReport (some signature) (some properties)).splitOn nul =
      "DuplicateSignature".toList :: signature :: untilNull properties := by
  have hwrite : writeReport (some signature) (some properties) =
      [nul].intercalate ("DuplicateSignature".toList :: signature :: untilNull properties) := by
    rw [intercalate_cons, List.flatMap_cons, writeReport, writeProperties_false]
    simp [writeString, writeNull]
  rw [hwrite]
  refine List.splitOn_intercalate nul ?_ (List.cons_ne_nil _ _)
  intro s hmem
  rcases List.mem_cons.1 hmem with rfl | hmem
  · decide
  · rcases List.mem_cons.1 hmem with rfl | hmem
    · exact hs
    · exact hp s hmem

/-! ### The call sites -/

/-- A problem, by the call site that reports it. -/
inductive Problem
  /-- `recoverable_problem_file` -/
  | badUrl (pid : ℤ) (badurl : Option Text)
  /-- `each_url` -/
  | insertError (filename protocol : Text) (suffix : Option Text)
  /-- `check_file_outofdate` -/
  | fileupdateError (filename : Text)
  /-- `remove_file` -/
  | removeFileError (filename : Text)
  /-- `main`, when the database cannot be closed -/
  | closeError (closeStatus : ℤ)

namespace Problem

/-- The signature. -/
def signature : Problem → Text
  | badUrl _ _ => "url-dispatcher-bad-url".toList
  | insertError _ _ _ => "url-dispatcher-update-sqlite-insert-error".toList
  | fileupdateError _ => "url-dispatcher-update-sqlite-fileupdate-error".toList
  | removeFileError _ => "url-dispatcher-update-remove-file-error".toList
  | closeError _ => "url-dispatcher-sqlite-close-error".toList

/-- The array `additional`. -/
def additional : Problem → List (Option Text)
  | badUrl _ badurl => [some "BadURL".toList, badurl, none]
  | insertError filename protocol suffix =>
    [some "Filename".toList, some filename, some "Protocol".toList, some protocol,
      some "Suffix".toList, suffix, none]
  | fileupdateError filename =>
    [some "Filename".toList, some filename, none, none, none, none, none]
  | removeFileError filename => [some "Filename".toList, some filename, none]
  | closeError closeStatus => [some "SQLiteStatus".toList, some (printfInt closeStatus), none]

/-- The call of `report_recoverable_problem`. -/
def report (env : Reporter) (p : Problem) : Option Report :=
  match p with
  | badUrl pid _ =>
    reportRecoverableProblem env (some p.signature) pid false (some p.additional)
  | _ => reportRecoverableProblem env (some p.signature) 0 true (some p.additional)

/-- The keys the call site names, each with its value. -/
def named : Problem → List (Text × Option Text)
  | badUrl _ badurl => [("BadURL".toList, badurl)]
  | insertError filename protocol suffix =>
    [("Filename".toList, some filename), ("Protocol".toList, some protocol),
      ("Suffix".toList, suffix)]
  | fileupdateError filename => [("Filename".toList, some filename)]
  | removeFileError filename => [("Filename".toList, some filename)]
  | closeError closeStatus => [("SQLiteStatus".toList, some (printfInt closeStatus))]

/-- The values are C strings. -/
def CStrings (p : Problem) : Prop := ∀ f ∈ p.named, ∀ value, f.2 = some value → IsCString value

/-- Split at NUL, the bytes are the signature behind its key, and each key behind it with its
value. -/
def Decodes (p : Problem) (bytes : Text) : Prop :=
  ∃ fields : List (Text × Text),
    bytes.splitOn nul =
      "DuplicateSignature".toList :: p.signature :: fields.flatMap (fun f => [f.1, f.2]) ∧
    List.Forall₂ (fun f n => f.1 = n.1 ∧ ∀ value, n.2 = some value → f.2 = value) fields p.named

variable {p : Problem}

theorem isCString_signature (p : Problem) : IsCString p.signature := by
  cases p with
  | badUrl _ _ => exact show IsCString "url-dispatcher-bad-url".toList by decide
  | insertError _ _ _ =>
    exact show IsCString "url-dispatcher-update-sqlite-insert-error".toList by decide
  | fileupdateError _ =>
    exact show IsCString "url-dispatcher-update-sqlite-fileupdate-error".toList by decide
  | removeFileError _ =>
    exact show IsCString "url-dispatcher-update-remove-file-error".toList by decide
  | closeError _ => exact show IsCString "url-dispatcher-sqlite-close-error".toList by decide

theorem isCString_key (p : Problem) : ∀ f ∈ p.named, IsCString f.1 := by
  have hfilename : IsCString "Filename".toList := by decide
  cases p with
  | badUrl _ _ => exact List.forall_mem_singleton.2 (show IsCString "BadURL".toList by decide)
  | insertError _ _ _ =>
    refine List.forall_mem_cons.2 ⟨hfilename, List.forall_mem_cons.2 ⟨?_, ?_⟩⟩
    · exact show IsCString "Protocol".toList by decide
    · exact List.forall_mem_singleton.2 (show IsCString "Suffix".toList by decide)
  | fileupdateError _ => exact List.forall_mem_singleton.2 hfilename
  | removeFileError _ => exact List.forall_mem_singleton.2 hfilename
  | closeError _ =>
    exact List.forall_mem_singleton.2 (show IsCString "SQLiteStatus".toList by decide)

/-- What the reporter reads of keys and values: all of them, or the last one without its value. -/
def readable : List (Text × Option Text) → List Text
  | [] => []
  | (key, none) :: _ => [key]
  | (key, some value) :: fields => key :: value :: readable fields

theorem untilNull_additional (p : Problem) : untilNull p.additional = readable p.named := by
  cases p with
  | badUrl _ badurl => cases badurl <;> rfl
  | insertError _ _ suffix => cases suffix <;> rfl
  | fileupdateError _ => rfl
  | removeFileError _ => rfl
  | closeError _ => rfl

theorem isCString_of_mem_readable {fields : List (Text × Option Text)}
    (hkey : ∀ f ∈ fields, IsCString f.1)
    (hvalue : ∀ f ∈ fields, ∀ value, f.2 = some value → IsCString value) :
    ∀ s ∈ readable fields, IsCString s := by
  induction fields with
  | nil => simp [readable]
  | cons f fields ih =>
    rw [List.forall_mem_cons] at hkey hvalue
    obtain ⟨key, value⟩ := f
    cases value with
    | none => simpa [readable] using hkey.1
    | some value =>
      rw [readable, List.forall_mem_cons, List.forall_mem_cons]
      exact ⟨hkey.1, hvalue.1 value rfl, ih hkey.2 hvalue.2⟩

/-- What is read has a value for every key exactly if none is missing. -/
theorem exists_fields_iff {named : List (Text × Option Text)} :
    (∃ fields : List (Text × Text), readable named = fields.flatMap (fun f => [f.1, f.2]) ∧
      List.Forall₂ (fun f n => f.1 = n.1 ∧ ∀ value, n.2 = some value → f.2 = value) fields named) ↔
      ∀ n ∈ named, n.2 ≠ none := by
  induction named with
  | nil => simp [readable]
  | cons n named ih =>
    obtain ⟨key, value⟩ := n
    rw [List.forall_mem_cons, ← ih]
    constructor
    · rintro ⟨fields, hread, hfields⟩
      cases hfields with
      | @cons f _ fields _ hf htail =>
        cases value with
        | none =>
          -- the key that is left is one string, and the fields are at least two
          have hlen := congrArg List.length hread
          simp [readable] at hlen
        | some value =>
          rw [readable, List.flatMap_cons] at hread
          simp only [List.cons_append, List.nil_append, List.cons.injEq] at hread
          exact ⟨Option.some_ne_none _, fields, hread.2.2, htail⟩
    · rintro ⟨hvalue, fields, hread, hfields⟩
      obtain ⟨value, rfl⟩ := Option.ne_none_iff_exists'.1 hvalue
      refine ⟨(key, value) :: fields, by rw [readable, hread]; rfl, .cons ⟨rfl, ?_⟩ hfields⟩
      rintro _ ⟨⟩
      rfl

/-- What is written is the report of the signature and the array. -/
theorem stdin_of_report {env : Reporter} {r : Report} {bytes : Text}
    (h : p.report env = some r) (hb : r.stdin = some bytes) :
    bytes = writeReport (some p.signature) (some p.additional) := by
  have hstdin : ∀ {pid wait}, reportRecoverableProblem env (some p.signature) pid wait
      (some p.additional) = some r →
      bytes = writeReport (some p.signature) (some p.additional) := by
    intro pid wait hr
    rw [reportRecoverableProblem, Option.ite_none_left_eq_some] at hr
    obtain ⟨-, hr⟩ := hr
    cases hr
    rw [Option.ite_none_right_eq_some, Option.some.injEq] at hb
    exact hb.2.symm
  cases p <;> exact hstdin h

/-- **A report decodes exactly if** no value is missing. -/
theorem decodes_iff (h : p.CStrings) :
    p.Decodes (writeReport (some p.signature) (some p.additional)) ↔ ∀ f ∈ p.named, f.2 ≠ none := by
  rw [Decodes, splitOn_report p.isCString_signature, untilNull_additional, ← exists_fields_iff]
  · simp
  · rw [untilNull_additional]
    exact isCString_of_mem_readable p.isCString_key h

end Problem

end UrlDispatcher
