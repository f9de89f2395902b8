import Sws.Database.Draining
import Sws.Database.Entries
import Sws.Sql.Provenance

/-! The rows that the statements of the program leave in the catalog. -/
namespace Sws.Database

open Sql

/-- The catalog has these rows, none with a NUL in its texts. -/
def Stocked (db : Db) (entries : List Entry) : Prop :=
  ∃ t, db.lookup "db_catalog" = some t ∧ Declared .catalog t ∧ t.rows = entries.map Entry.row ∧
    ∀ e ∈ entries, e.Clean

section Stock

variable {db after : Db} {t : Table} {entries : List Entry} {stmt : Stmt} {q v : Text}

/-- No text that a statement puts into a table has a NUL. -/
theorem clean_value (one : single? q = some stmt) (held : .text v ∈ stmt.values) : nul ∉ v := by
  intro cut
  obtain ⟨ts, split, parsed⟩ := single_eq_some one
  have among : ts ∈ statements (lex (cStr q)) := by simp [split]
  obtain ⟨before, behind, shape⟩ :=
    quotes_of_lex (token_of_statements among (string_of_parse parsed held))
  have there : nul ∈ cStr q := by simp [shape, mem_doubled, cut]
  exact nul_not_mem_c_str q there

theorem stocked_put (found : db.lookup "db_catalog" = some t) (declared : Declared .catalog t)
    (clean : ∀ e ∈ entries, e.Clean) : Stocked (db.put { t with rows := entries.map Entry.row }) entries :=
  ⟨_, Db.lookup_put_self found (Db.fold_name_of_lookup (t := t) found), ⟨declared.columns, declared.key⟩, rfl, clean⟩

/-- A row more. -/
theorem stocked_append (stocked : Stocked db entries) (found : db.lookup "db_catalog" = some t) {e : Entry}
    (clean : e.Clean) : Stocked (db.put { t with rows := t.rows ++ [e.row] }) (entries ++ [e]) := by
  obtain ⟨t', found', declared, stored, all⟩ := stocked
  cases found.symm.trans found'
  have rows : t.rows ++ [e.row] = (entries ++ [e]).map Entry.row := by simp [stored]
  rw [rows]
  exact stocked_put found declared (List.forall_mem_append.mpr ⟨all, List.forall_mem_singleton.mpr clean⟩)

/-- The rows of a path with another duration. -/
theorem stocked_update (stocked : Stocked db entries) (found : db.lookup "db_catalog" = some t)
    (path : Text) (millionths : Int) :
    let filter : List Condition := [{ operand := .column "path", value := .text path }]
    Stocked (db.put { t with
        rows := t.rows.map fun r => if t.selects filter r then r.set 7 (.real millionths) else r })
      (entries.map fun e => if e.path = path then { e with duration := millionths } else e) := by
  obtain ⟨t', found', declared, stored, clean⟩ := stocked
  cases found.symm.trans found'
  intro filter
  have rows : (t.rows.map fun r => if t.selects filter r then r.set 7 (.real millionths) else r) =
      (entries.map fun e => if e.path = path then { e with duration := millionths } else e).map Entry.row := by
    rw [stored, List.map_map, List.map_map]
    apply List.map_congr_left
    intro e _
    simp only [Function.comp_apply, filter, selects_path, e.cell_path declared, Value.text.injEq, decide_eq_true_eq]
    split_ifs <;> rfl
  rw [rows]
  apply stocked_put found declared
  rw [List.forall_mem_map]
  intro e held
  split_ifs
  · exact ⟨(clean e held).path, (clean e held).title, (clean e held).album, (clean e held).artist,
      (clean e held).spotifyId, (clean e held).hash⟩
  · exact clean e held

/-- A known statement leaves the catalog as rows of this kind. -/
theorem stocked_execute (stocked : Stocked db entries) (known : Known stmt)
    (clean : ∀ v, .text v ∈ stmt.values → nul ∉ v) (ran : execute db stmt = .ok after) :
    ∃ entries', Stocked after entries' := by
  have there := stocked
  obtain ⟨t, found, declared, stored, all⟩ := there
  obtain ⟨path, rfl, rfl⟩ | ⟨s, rfl, rfl⟩ | ⟨path, millionths, rfl, rfl⟩ | ⟨-, same⟩ :=
    known_catalog known found declared ran
  · have texts : Entry.Clean { path := path } :=
      ⟨clean path (by simp [Stmt.values]), List.not_mem_nil, List.not_mem_nil, List.not_mem_nil,
        List.not_mem_nil, clean_text rfl⟩
    exact ⟨_, stocked_append stocked found texts⟩
  · have texts : (Entry.ofSong s).Clean := by
      refine ⟨clean _ ?_, clean _ ?_, clean _ ?_, clean _ ?_, clean _ ?_, clean _ ?_⟩ <;>
        simp [Stmt.values, Song.values, Entry.ofSong]
    exact ⟨_, stocked_append stocked found texts⟩
  · exact ⟨_, stocked_update stocked found path millionths⟩
  · exact ⟨entries, t, same, declared, stored, all⟩

theorem stocked_exec {ok : Bool} (stocked : Stocked db entries) (denotes : Denotes q stmt) (known : Known stmt)
    (ran : exec db q = some (after, ok)) : ∃ entries', Stocked after entries' := by
  rcases denotes.exec_cases ran with rfl | ⟨whole, done⟩
  · exact ⟨entries, stocked⟩
  · exact stocked_execute stocked known (fun v => clean_value (denotes.whole whole)) done

/-- **Catalogs of the program.** Whatever calls are executed, the catalog's rows stay of this kind. -/
theorem stocked_run {calls : List Call} (stocked : Stocked db entries) (plain : ∀ c ∈ calls, c.Plain)
    (ran : execAll db (calls.flatMap Call.texts) = some after) : ∃ entries', Stocked after entries' := by
  refine exec_all_preserves (P := fun db => ∃ entries, Stocked db entries)
    (fun q member before next ok executed held => ?_) ran ⟨entries, stocked⟩
  obtain ⟨stmt, denotes, kind⟩ := known_texts plain q member
  obtain ⟨entries', stocked'⟩ := held
  exact stocked_exec stocked' denotes kind executed

/-- The constructor leaves the catalog empty where there was none. -/
theorem stocked_created (absent : db.lookup "db_catalog" = none) :
    exec db createCatalog = some (db.create emptyCatalog, true) ∧ Stocked (db.create emptyCatalog) [] := by
  rw [exec_create_catalog, absent]
  exact ⟨rfl, emptyCatalog, Db.lookup_create_self absent rfl, declared_empty_catalog, rfl, List.forall_mem_nil _⟩

end Stock

end Sws.Database
