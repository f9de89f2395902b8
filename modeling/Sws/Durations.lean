import Mathlib.Data.List.Infix
import Sws.Database.Draining
import Sws.Database.Entries
import Sws.Files
import Sws.Rounding
import Sws.Sql.Cells

/-! The two functions that store how long a track is: `db::update_duration` with a song, and
`player::duratin`. -/
namespace Sws.Durations

open Database Sql

/-- What GStreamer answers about a file: whether there is a playbin, and the length in nanoseconds. -/
structure Gst where
  playbin : Bool
  length : Option Int64

/-- A `gint64` made a `double`. -/
def ofInt64 (n : Int64) : Int := n.toInt.sign * roundTo 53 n.toInt.natAbs

/-- A whole number as a `double`. -/
def whole (n : Int) : Double := ⟨n * 1000000⟩

/-- The address that `db::update_duration` gives to the playbin. -/
def uri (path : Text) : Text := if text "://" <:+: path then path else "file://" ++ path

/-- `db::update_duration` with a song: the texts it pushes, and the song. Its statement has the address
in the place of the path. -/
def updateSongDuration (files : Files) (gst : Gst) (s : Song) : Option (List Text × Song) := do
  let present ← files.present s.path
  if ¬ present then return ([], s)
  else if ¬ s.found then return ([], s)
  else if ¬ gst.playbin then return ([], s)
  else
    let len := gst.length.getD 0
    let p := uri s.path
    let duration := whole (ofInt64 (len / 1000000000))
    return ([updateDuration p duration], { s with duration := duration })

/-- `player::duratin`: the texts it pushes, and what it returns. The length that the duration of the current
track is compared with, and that is stored, is in nanoseconds. -/
def duratin (currentPath : Text) (currentDuration : Raw) (reported : Option Int64) :
    List Text × Double :=
  match reported with
  | some dur =>
    (if currentDuration ≠ .number (ofInt64 dur) then [updateDuration currentPath (whole (ofInt64 dur))]
      else [],
      whole (ofInt64 (dur / 1000000000)))
  | none => ([], whole 0)

/-! ### Lengths -/

/-- The length in whole seconds. -/
def seconds (len : Int64) : Int := len.toInt.tdiv 1000000000

section Lengths

variable (len : Int64)

theorem nat_abs_seconds : (seconds len).natAbs = len.toInt.natAbs / 1000000000 := Int.natAbs_tdiv _ _

/-- Whole seconds are few enough to be a `double`. -/
theorem of_int64_quotient : ofInt64 (len / 1000000000) = seconds len := by
  have low := len.le_toInt
  have high := len.toInt_lt
  have quotient : (len / 1000000000).toInt = seconds len := by
    exact Int64.toInt_div_of_ne_right _ _ (by decide)
  have small : (seconds len).natAbs < 2 ^ 53 := by
    rw [nat_abs_seconds]
    omega
  rw [ofInt64, quotient, round_to_of_lt small, Int.sign_mul_natAbs]

/-- Only a length of nothing is the same number of nanoseconds and of seconds. -/
theorem of_int64_eq_seconds_iff : ofInt64 len = seconds len ↔ len = 0 := by
  constructor
  · intro same
    by_contra other
    have some_ : 0 < len.toInt.natAbs := by
      apply Int.natAbs_pos.mpr
      intro zero
      exact other (Int64.toInt_inj.mp zero)
    have more : len.toInt.natAbs < 2 * roundTo 53 len.toInt.natAbs := lt_two_mul_round_to (by decide) some_
    have sizes := congrArg Int.natAbs same
    rw [ofInt64, nat_abs_seconds, Int.natAbs_mul, Int.natAbs_sign_of_ne_zero (by omega)] at sizes
    omega
  · rintro rfl
    rfl

end Lengths

/-! ### Recording -/

/-- The catalog with this duration in the rows of the path, and as it was in the others. -/
def record (db : Db) (path : Text) (d : Double) : Db :=
  (db.lookup "db_catalog").elim db fun t => db.put { t with
    rows := t.rows.map fun r => if t.cell r "path" = .text path then r.set 7 (.real d.millionths) else r }

/-- The rows of the path have this duration. -/
def Recorded (t : Table) (path : Text) (d : Double) : Prop :=
  ∀ r ∈ t.rows, t.cell r "path" = .text path → t.cell r "duration" = .real d.millionths

instance (t : Table) (path : Text) (d : Double) : Decidable (Recorded t path d) :=
  inferInstanceAs (Decidable (∀ r ∈ t.rows, _))

section Recording

variable {db : Db} {t : Table} {path p : Text} {d e : Double}

theorem whole_inj {m n : Int} : whole m = whole n ↔ m = n := by
  simp only [whole, Double.mk.injEq]
  omega

theorem record_eq (found : db.lookup "db_catalog" = some t) : record db path d = db.put { t with
    rows := t.rows.map fun r =>
      if t.cell r "path" = .text path then r.set 7 (.real d.millionths) else r } := by
  rw [record, found]
  rfl

theorem nul_mem_update_duration : nul ∈ updateDuration path d ↔ nul ∈ path := by
  have head : nul ∉ text "UPDATE db_catalog SET duration = " := clean_text rfl
  have clause : nul ∉ text " WHERE path='" := clean_text rfl
  have tail : nul ∉ text "';" := clean_text rfl
  have escaped : nul ∈ escape path ↔ nul ∈ path := not_iff_not.mp clean_escape
  simp only [updateDuration, List.mem_append, head, clause, tail, nul_not_mem_double, escaped, false_or,
    or_false]

/-- What the statement of either function does. -/
theorem exec_update_duration (found : db.lookup "db_catalog" = some t) (declared : Declared .catalog t)
    (clean : nul ∉ path) (d : Double) :
    exec db (updateDuration path d) = some (record db path d, true) := by
  have whole : nul ∉ updateDuration path d := mt nul_mem_update_duration.mp clean
  have ran := update_duration_eq found declared path d.millionths
  simp only [selects_path, decide_eq_true_eq] at ran
  rw [(update_duration_denotes path d).exec_eq, if_neg whole, ran, ← record_eq found]
  rfl

theorem exec_all_update (found : db.lookup "db_catalog" = some t) (declared : Declared .catalog t)
    (clean : nul ∉ path) (d : Double) : execAll db [updateDuration path d] = some (record db path d) :=
  exec_all_cons (exec_update_duration found declared clean d) rfl

/-- Two records are the same if they are the same in every row. -/
theorem put_rows_inj (found : db.lookup "db_catalog" = some t) {f g : Row → Row} :
    db.put { t with rows := t.rows.map f } = db.put { t with rows := t.rows.map g } ↔
      ∀ r ∈ t.rows, f r = g r := by
  constructor
  · intro same
    have looked (f : Row → Row) : (db.put { t with rows := t.rows.map f }).lookup "db_catalog" =
        some { t with rows := t.rows.map f } :=
      Db.lookup_put_self (u := { t with rows := t.rows.map f }) found (Db.fold_name_of_lookup (t := t) found)
    have tables := (looked f).symm.trans ((congrArg (Db.lookup · _) same).trans (looked g))
    exact List.map_inj_left.mp (congrArg Table.rows (Option.some.inj tables))
  · intro each
    rw [List.map_congr_left each]

theorem set_duration_inj (declared : Declared .catalog t) (full : t.Full) {r : Row} (held : r ∈ t.rows)
    {v w : Value} : r.set 7 v = r.set 7 w ↔ v = w := by
  have length : 7 < r.length := by
    rw [full r held, declared.columns]
    decide
  constructor
  · intro same
    have cells := congrArg (·[7]?) same
    simpa [length] using cells
  · rintro rfl
    rfl

theorem cell_duration (declared : Declared .catalog t) (r : Row) :
    t.cell r "duration" = r[7]?.getD .null := by
  obtain ⟨name, columns, key, rows⟩ := t
  cases declared.columns
  rfl

theorem set_duration_self (declared : Declared .catalog t) (full : t.Full) {r : Row} (held : r ∈ t.rows)
    {v : Value} : r.set 7 v = r ↔ t.cell r "duration" = v := by
  have length : 7 < r.length := by
    rw [full r held, declared.columns]
    decide
  have own : r.set 7 (t.cell r "duration") = r := by
    rw [cell_duration declared, List.getElem?_eq_getElem length, Option.getD_some, List.set_getElem_self]
  constructor
  · intro same
    exact ((set_duration_inj declared full held).mp (same.trans own.symm)).symm
  · rintro rfl
    exact own

/-- Nothing changes if the rows have the duration. -/
theorem record_self_iff (found : db.lookup "db_catalog" = some t) (declared : Declared .catalog t)
    (full : t.Full) : db = record db path d ↔ Recorded t path d := by
  have unchanged : db.put { t with rows := t.rows.map id } = db := by
    rw [List.map_id, Db.put_of_lookup found]
  rw [record_eq found, eq_comm]
  nth_rewrite 2 [← unchanged]
  rw [put_rows_inj found]
  apply forall₂_congr
  intro r held
  split_ifs with own
  · simp [own, set_duration_self declared full held]
  · simp [own]

/-- Two durations of a path that is there make a difference. -/
theorem record_inj (found : db.lookup "db_catalog" = some t) (declared : Declared .catalog t)
    (full : t.Full) (there : ∃ r ∈ t.rows, t.cell r "path" = .text path) :
    record db path d = record db path e ↔ d = e := by
  constructor
  · intro same
    obtain ⟨r, held, own⟩ := there
    rw [record_eq found, record_eq found, put_rows_inj found] at same
    have cells := same r held
    rw [if_pos own, if_pos own, set_duration_inj declared full held, Value.real.injEq] at cells
    obtain ⟨millionths⟩ := d
    exact congrArg Double.mk cells
  · rintro rfl
    rfl

/-- The rows of another path are the right ones only if nothing is to be done. -/
theorem record_other_iff (found : db.lookup "db_catalog" = some t) (declared : Declared .catalog t)
    (full : t.Full) (other : p ≠ path) :
    record db p d = record db path d ↔ Recorded t path d ∧ Recorded t p d := by
  rw [record_eq found, record_eq found, put_rows_inj found, Recorded, Recorded, ← forall₂_and]
  apply forall₂_congr
  intro r held
  have apart : ¬ (t.cell r "path" = .text p ∧ t.cell r "path" = .text path) := by
    rintro ⟨first, second⟩
    exact other (Value.text.inj (first.symm.trans second))
  by_cases own : t.cell r "path" = .text path
  · have not_p : t.cell r "path" ≠ .text p := fun same => apart ⟨same, own⟩
    rw [if_neg not_p, if_pos own, eq_comm, set_duration_self declared full held]
    exact ⟨fun same => ⟨fun _ => same, fun there => absurd there not_p⟩, fun both => both.1 own⟩
  · rw [if_neg own]
    split_ifs with same
    · rw [set_duration_self declared full held]
      exact ⟨fun done => ⟨fun there => absurd there own, fun _ => done⟩, fun both => both.2 same⟩
    · simp [own, same]

end Recording

/-! ### The two functions -/

section Functions

variable {db : Db} {t : Table} {files : Files} {gst : Gst} {s : Song} {len : Int64} {member : Raw}

theorem clean_uri {path : Text} (clean : nul ∉ path) : nul ∉ uri path := by
  unfold uri
  split_ifs
  · exact clean
  · exact clean_append (clean_text rfl) clean

theorem song_duration_eq (present : files.present s.path = some true) (known : s.found = true)
    (playbin : gst.playbin = true) (reported : gst.length = some len) :
    (updateSongDuration files gst s).map Prod.fst = some [updateDuration (uri s.path) (whole (seconds len))] := by
  simp [updateSongDuration, present, known, playbin, reported, of_int64_quotient]

/-- `db::update_duration` stores the seconds in the rows of the address. -/
theorem song_recorded_iff (found : db.lookup "db_catalog" = some t) (declared : Declared .catalog t)
    (full : t.Full) (clean : nul ∉ s.path) (present : files.present s.path = some true) (known : s.found = true)
    (playbin : gst.playbin = true) (reported : gst.length = some len) :
    ((updateSongDuration files gst s).map Prod.fst).bind (execAll db) = some (record db s.path (whole (seconds len))) ↔
      text "://" <:+: s.path ∨
        Recorded t s.path (whole (seconds len)) ∧ Recorded t (uri s.path) (whole (seconds len)) := by
  rw [song_duration_eq present known playbin reported, Option.bind_some,
    exec_all_update found declared (clean_uri clean), Option.some.injEq]
  by_cases address : text "://" <:+: s.path
  · have own : uri s.path = s.path := if_pos address
    rw [own]
    exact iff_of_true rfl (.inl address)
  · have other : uri s.path ≠ s.path := by
      intro same
      rw [uri, if_neg address] at same
      have longer := congrArg List.length same
      rw [List.length_append] at longer
      have some_ : 0 < (text "file://").length := by decide
      omega
    rw [record_other_iff found declared full other]
    exact ⟨.inr, fun either => either.resolve_left address⟩

/-- `player::duratin` stores the nanoseconds, if they are not the number the track has. -/
theorem played_recorded_iff (found : db.lookup "db_catalog" = some t) (declared : Declared .catalog t)
    (full : t.Full) {path : Text} (clean : nul ∉ path) (there : ∃ r ∈ t.rows, t.cell r "path" = .text path) :
    execAll db (duratin path member (some len)).1 = some (record db path (whole (seconds len))) ↔
      if member = .number (ofInt64 len) then Recorded t path (whole (seconds len)) else len = 0 := by
  by_cases same : member = .number (ofInt64 len)
  · have texts : (duratin path member (some len)).1 = [] := by simp [duratin, same]
    rw [texts, execAll, Option.some.injEq, record_self_iff found declared full, if_pos same]
  · have texts : (duratin path member (some len)).1 = [updateDuration path (whole (ofInt64 len))] := by
      simp [duratin, same]
    rw [texts, exec_all_update found declared clean, Option.some.injEq, record_inj found declared full there, whole_inj,
      of_int64_eq_seconds_iff, if_neg same]

/-- **Durations.** Both functions store the length in whole seconds in the rows of the track's path, and
in no others, exactly when: the path is an address already, or nothing is to be done for it and for its
address; and the length is nothing, or is compared with itself while nothing is to be done. -/
theorem durations_recorded_iff (found : db.lookup "db_catalog" = some t) (declared : Declared .catalog t)
    (full : t.Full) (clean : nul ∉ s.path) (there : ∃ r ∈ t.rows, t.cell r "path" = .text s.path)
    (present : files.present s.path = some true) (known : s.found = true) (playbin : gst.playbin = true)
    (reported : gst.length = some len) (member : Raw) :
    (((updateSongDuration files gst s).map Prod.fst).bind (execAll db) = some (record db s.path (whole (seconds len))) ∧
      execAll db (duratin s.path member (some len)).1 = some (record db s.path (whole (seconds len)))) ↔
    (text "://" <:+: s.path ∨
        Recorded t s.path (whole (seconds len)) ∧ Recorded t (uri s.path) (whole (seconds len))) ∧
      if member = .number (ofInt64 len) then Recorded t s.path (whole (seconds len)) else len = 0 :=
  and_congr (song_recorded_iff found declared full clean present known playbin reported)
    (played_recorded_iff found declared full clean there)

end Functions

/-- A catalog with one path that has only been seen. -/
def seenCatalog : Table := { emptyCatalog with rows := [pathRow "/a.mp3"] }

def seen : Db := Db.empty.create seenCatalog

theorem found_seen : seen.lookup "db_catalog" = some seenCatalog := rfl

theorem full_seen : seenCatalog.Full := List.forall_mem_singleton.mpr rfl

/-- Every file is there, and is a song. -/
def there : Files where
  present _ := some true
  regular _ := some true
  lines _ := []
  mime _ := some "audio/mpeg"
  hash _ := "900150983cd24fb0d6963f7d28e17f72"

/-- A track without length. -/
theorem nothing_recorded :
    ((updateSongDuration there ⟨true, some 0⟩ { path := "/a.mp3", found := true }).map Prod.fst).bind (execAll seen) =
        some (record seen "/a.mp3" (whole 0)) ∧
      execAll seen (duratin "/a.mp3" (.number 1) (some 0)).1 = some (record seen "/a.mp3" (whole 0)) := by
  have reported : (⟨true, some 0⟩ : Gst).length = some 0 := rfl
  refine (durations_recorded_iff found_seen ⟨rfl, rfl⟩ full_seen (by decide) ⟨_, .head _, rfl⟩ rfl rfl rfl reported
    (.number 1)).mpr ⟨.inr ⟨?_, ?_⟩, ?_⟩
  · decide
  · decide
  · decide

/-- A track of three minutes. -/
theorem three_minutes_not_recorded : ¬ ∀ (db : Db) (t : Table) (files : Files) (gst : Gst) (s : Song)
    (len : Int64) (member : Raw), db.lookup "db_catalog" = some t → Declared .catalog t → t.Full →
    nul ∉ s.path → (∃ r ∈ t.rows, t.cell r "path" = .text s.path) → files.present s.path = some true →
    s.found = true → gst.playbin = true → gst.length = some len →
    ((updateSongDuration files gst s).map Prod.fst).bind (execAll db) = some (record db s.path (whole (seconds len))) ∧
      execAll db (duratin s.path member (some len)).1 = some (record db s.path (whole (seconds len))) := by
  intro all
  have clean : nul ∉ text "/a.mp3" := by decide
  have both := all seen _ there ⟨true, some 180000000000⟩ { path := "/a.mp3", found := true } 180000000000
    (.number 0) found_seen ⟨rfl, rfl⟩ full_seen clean ⟨_, .head _, rfl⟩ rfl rfl rfl rfl
  have reported : (⟨true, some 180000000000⟩ : Gst).length = some 180000000000 := rfl
  have seconds := (song_recorded_iff found_seen ⟨rfl, rfl⟩ full_seen clean rfl rfl rfl reported).mp both.1
  exact absurd seconds (by decide)

end Sws.Durations
