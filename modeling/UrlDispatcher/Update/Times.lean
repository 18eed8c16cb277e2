import UrlDispatcher.Update.Rerun

/-!
# Times as they are stored

The second of a modification time is a `glong`, and its column in `configfiles` is a `bigint`.  It
gets there through `sqlite3_bind_int` and comes back through `sqlite3_column_int`, which both take a
C `int`.

* `timeSurvives_iff` : a time is read as it was set, and makes the file count as up to date, exactly
  if it fits 32 bits.
* `upToDate_checkFileOutofdate` : a time that is too late makes the file count as out of date
  forever.
-/

namespace UrlDispatcher

open Sql GLib

/-- A call of `url_db_set_file_motification_time`. -/
structure SetTime where
  status : Status
  filename : Text
  tvSec : ℤ

/-- The calls one after the other. -/
def setTimes (db : Database) (calls : List SetTime) : Database :=
  calls.foldl (fun db c => (urlDbSetFileMotificationTime c.status db c.filename c.tvSec).1) db

/-- The second `t` survives being set for the file `n`, with the calls `others` in between. -/
structure TimeSurvives (db : Database) (n : Text) (t : ℤ) (others : List SetTime) : Prop where
  /-- What has been set is read. -/
  read : urlDbGetFileMotificationTime .done
    (setTimes (urlDbSetFileMotificationTime .done db n t).1 others) n = some t
  /-- A file with that time which has been checked counts as up to date. -/
  checked : ∀ fs : FileSys, fs.filetime n = t →
    (checkFileOutofdate fs (setTimes (checkFileOutofdate fs db n).1 others) n).2 = false

variable {db : Database} {n : Text} {t : ℤ} {others : List SetTime} {fs : FileSys}

theorem narrow_bounds (t : ℤ) : -2 ^ 31 ≤ narrow t ∧ narrow t < 2 ^ 31 := by
  have hle := Int.le_bmod (x := t) (m := 0x100000000) (by decide)
  have hlt := Int.bmod_lt (x := t) (m := 0x100000000) (by decide)
  unfold narrow
  omega

/-- The times that are kept are those of 32 bits. -/
theorem narrow_eq_self_iff : narrow t = t ↔ -2 ^ 31 ≤ t ∧ t < 2 ^ 31 :=
  ⟨fun h => h ▸ narrow_bounds t, narrow_of_fits⟩

/-- Setting the times of other files leaves the file alone. -/
theorem registry_setTimes (h : ∀ c ∈ others, c.filename ≠ n) (db : Database) :
    (setTimes db others).registry n = db.registry n := by
  induction others generalizing db with
  | nil => rfl
  | cons c others ih =>
    have hset : (urlDbSetFileMotificationTime c.status db c.filename c.tvSec).1.registry n =
        db.registry n := by
      cases c.status with
      | error => rfl
      | done =>
        have hne : n ≠ c.filename := (h c List.mem_cons_self).symm
        rw [urlDbSetFileMotificationTime, Database.registry_setTimestamp, Function.update_of_ne hne]
    rw [setTimes, List.foldl_cons, ← setTimes, ih fun c' hc' => h c' (List.mem_cons_of_mem c hc'),
      hset]

/-- What is read is what two conversions leave of what was set. -/
theorem get_setTimes (h : ∀ c ∈ others, c.filename ≠ n) :
    urlDbGetFileMotificationTime .done
      (setTimes (urlDbSetFileMotificationTime .done db n t).1 others) n = some (narrow t) := by
  rw [urlDbGetFileMotificationTime_done, registry_setTimes h, urlDbSetFileMotificationTime,
    Database.registry_setTimestamp, Function.update_self, Option.map_some, narrow_narrow]

theorem checkFileOutofdate_snd :
    (checkFileOutofdate fs db n).2 = !upToDate .done db n (fs.filetime n) := by
  unfold checkFileOutofdate
  split_ifs with h
  · rw [h]
    rfl
  · rw [Bool.not_eq_true] at h
    rw [h]
    rfl

theorem le_narrow (h : t < 2 ^ 31) : t ≤ narrow t := by
  by_cases ht : -2 ^ 31 ≤ t
  · rw [narrow_of_fits ⟨ht, h⟩]
  · have hb := (narrow_bounds t).1
    omega

/-- A file that has been checked counts as up to date, unless its time is too late to be stored; a
time that is too early becomes a later one. -/
theorem upToDate_checkFileOutofdate :
    upToDate .done (checkFileOutofdate fs db n).1 n (fs.filetime n) = true ↔
      fs.filetime n < 2 ^ 31 := by
  constructor
  · intro hu
    obtain ⟨g, -, hle⟩ := upToDate_iff.1 hu
    exact hle.trans_lt (narrow_bounds g.stamp).2
  · intro h
    unfold checkFileOutofdate
    split_ifs with hu
    · exact hu
    · refine upToDate_iff.2 ⟨⟨narrow (fs.filetime n), db.leftover⟩, ?_, ?_⟩
      · rw [urlDbSetFileMotificationTime, Database.registry_setTimestamp, Function.update_self]
      · rw [narrow_narrow]
        exact le_narrow h

/-- **A time survives exactly if it fits** a 32-bit `int`, whatever is in the database and whichever
other files are set in between. -/
theorem timeSurvives_iff (db : Database) (n : Text) (t : ℤ) (others : List SetTime)
    (h : ∀ c ∈ others, c.filename ≠ n) :
    TimeSurvives db n t others ↔ -2 ^ 31 ≤ t ∧ t < 2 ^ 31 := by
  rw [← narrow_eq_self_iff]
  constructor
  · intro hs
    exact Option.some.inj ((get_setTimes h).symm.trans hs.read)
  · intro hfit
    refine ⟨by rw [get_setTimes h, hfit], ?_⟩
    rintro fs rfl
    rw [checkFileOutofdate_snd, upToDate_congr (registry_setTimes h _),
      upToDate_checkFileOutofdate.2 (narrow_eq_self_iff.1 hfit).2]
    rfl

/-- A time of today, with another file set in between. -/
theorem timeSurvives_today :
    TimeSurvives Database.empty "/d/a.url-dispatcher".toList 1700000000
      [⟨.done, "/d/b.url-dispatcher".toList, 5⟩] :=
  (timeSurvives_iff _ _ _ _ (by simp)).2 (by decide)

/-- The first second of 2038 that does not fit is read as a negative one. -/
theorem not_timeSurvives_2038 :
    ¬ ∀ (db : Database) (n : Text) (t : ℤ) (others : List SetTime), -2 ^ 63 ≤ t → t < 2 ^ 63 →
      (∀ c ∈ others, c.filename ≠ n) → TimeSurvives db n t others := by
  intro hall
  have h := hall Database.empty "/d/a.url-dispatcher".toList (2 ^ 31) [] (by decide) (by decide)
    (fun _ hc => absurd hc List.not_mem_nil)
  have hread := h.read
  revert hread
  decide

end UrlDispatcher
