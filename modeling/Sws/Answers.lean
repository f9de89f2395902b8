import Sws.Requests

/-! What the reading functions of `db` answer from a file that holds a library. -/
namespace Sws

open Database Sql Import Editing Pairing

/-! ### Two more readers -/

/-- The text in the first row, and none where there is no row. -/
def firstText (rows : Except Fault (List Row)) : Option Text :=
  match rows with
  | .ok (r :: _) => r.head?.bind columnText
  | .ok [] | .error .rejected => some ""
  | .error .unmodelled => none

/-- `db::get_playlist_source`. -/
def getPlaylistSource (scan : Scan) (db : Db) (name : Text) : Option Text :=
  firstText (query scan db (getPlaylistSourceQuery name))

/-- The query of `db::artists`. -/
def artistsQuery : Text := "SELECT DISTINCT artist from db_catalog ORDER BY ARTIST;"

/-- `db::artists`. -/
def artists (scan : Scan) (db : Db) : Option (List Text) := firstColumn (distinctQuery scan db artistsQuery)

/-- What `select_track` returns where it finds no row. -/
def unknownSong (duration : Double) : Song :=
  { path := "", trackNo := -1, duration := duration, md5 := "-1", found := false }

/-! ### The answers of a library -/

/-- Every reader answers what the library says; where the library says it of several entries, of one of
them. -/
structure Answers (scan : Scan) (db : Db) (l : Library) : Prop where
  track : ∀ path duration, nul ∉ path →
    (∃ e ∈ l.entries, e.path = path ∧ selectTrack scan duration db path = some (db, e.song duration)) ∨
      (∀ e ∈ l.entries, e.path ≠ path) ∧ selectTrack scan duration db path = some (db, unknownSong duration)
  playlist : ∀ n, Ordinary n → ∃ paths, selectPlaylist scan db n = some paths ∧ paths.Nodup ∧
    paths.toFinset = (l.playlists (fold n)).elim ∅ Prod.snd
  current : ∀ n, nul ∉ n → getPlaylistCurrent scan db n = some ((l.register n).elim 0 Prod.snd)
  source : ∀ n, nul ∉ n → getPlaylistSource scan db n = some ((l.register n).elim (text "") Prod.fst)
  tables : ∃ names, tables scan db = some names ∧ names.Nodup ∧ ∀ n, n ∈ names ↔ n = text "db_catalog" ∨
    n.head? ≠ some '_' ∧ fold n ≠ text "db_catalog" ∧ ∃ held, l.playlists (fold n) = some (n, held)
  artists : ∃ names, artists scan db = some names ∧ names.Nodup ∧
    (∀ a, a ∈ names ↔ ∃ e ∈ l.entries, e.artist = a) ∧ names.Pairwise fun s t => precedes s t = true
  influences : ∃ pairs : List (Text × Text),
    Influences.influences scan db = some (pairs.map fun p => (p.1, p.1)) ∧ pairs.Nodup ∧
    pairs.toFinset = l.influences ∧ (pairs.map (·.1)).Pairwise fun s t => precedes s t = true

section Readers

variable {scan : Scan} {db : Db} {l : Library} {t : Table} {name path n : Text} {stored : List Entry}

/-! #### Tracks -/

/-- Without a row for the path, `select_track` finds nothing. -/
theorem select_track_absent (found : db.lookup "db_catalog" = some t) (declared : Declared .catalog t)
    (absent : ∀ r ∈ t.rows, t.cell r "path" ≠ .text path) (duration : Double) :
    selectTrack scan duration db path = some (db, unknownSong duration) := by
  have created : exec db createCatalog = some (db, true) := by
    rw [exec_create_catalog, found]
    rfl
  have none : query scan db (selectTrackQuery path) = .ok [] ∨
      query scan db (selectTrackQuery path) = .error .rejected := by
    rw [(select_track_denotes _).query_eq]
    by_cases cut : nul ∈ selectTrackQuery path
    · exact .inr (if_pos cut)
    · have no_rows : (scan.rows (trackStmt path) t).filter
          (t.selects [{ operand := .column "path", value := .text path }]) = [] := by
        refine List.filter_eq_nil_iff.mpr fun r visited => ?_
        rw [selects_path, decide_eq_true_eq]
        exact absent r (Scan.mem_rows.mp visited)
      refine .inl ?_
      rw [if_neg cut, select_track_eq scan found declared]
      exact congrArg (fun rows => Except.ok (List.map _ rows)) no_rows
  rw [selectTrack, created]
  rcases none with empty | refused
  · simp only [Option.bind_eq_bind, Option.bind_some, empty]
    rfl
  · simp only [Option.bind_eq_bind, Option.bind_some, refused]
    rfl

theorem track_answer (holds : Represents db l) (clean : nul ∉ path) (duration : Double) :
    (∃ e ∈ l.entries, e.path = path ∧ selectTrack scan duration db path = some (db, e.song duration)) ∨
      (∀ e ∈ l.entries, e.path ≠ path) ∧ selectTrack scan duration db path = some (db, unknownSong duration) := by
  obtain ⟨t, stored, found, -, declared, rows, entries⟩ := holds.catalog
  have members (e : Entry) : e ∈ l.entries ↔ e ∈ stored := by rw [← entries, Multiset.mem_coe]
  cases first : (metRows scan t path).head? with
  | none =>
    have absent : ∀ r ∈ t.rows, t.cell r "path" ≠ .text path := by
      intro r held own
      have met : r ∈ metRows scan t path := mem_met_rows.mpr ⟨held, own⟩
      rw [List.head?_eq_none_iff.mp first] at met
      cases met
    refine .inr ⟨fun e member own => ?_, select_track_absent found declared absent duration⟩
    have row : e.row ∈ t.rows := rows ▸ List.mem_map_of_mem ((members e).mp member)
    exact absent _ row (by rw [e.cell_path declared, own])
  | some r =>
    obtain ⟨held, own⟩ := mem_met_rows.mp (List.mem_of_mem_head? first)
    rw [rows] at held
    obtain ⟨e, member, rfl⟩ := List.mem_map.mp held
    rw [e.cell_path declared] at own
    refine .inl ⟨e, (members e).mpr member, Value.text.inj own, ?_⟩
    exact select_of_finds ⟨t, found, declared, first⟩ clean duration

/-! #### Playlists -/

theorem playlist_answer (scan : Scan) (holds : Represents db l) (ordinary : Ordinary n) :
    ∃ paths, selectPlaylist scan db n = some paths ∧ paths.Nodup ∧
      paths.toFinset = (l.playlists (fold n)).elim ∅ Prod.snd := by
  have shelved := shelved_of_holds holds ordinary
  have found : ∃ table : Option (List Text), Stands db n table ∧
      (table.getD []).toFinset = (l.playlists (fold n)).elim ∅ Prod.snd := by
    cases at_ : l.playlists (fold n) with
    | none =>
      rw [at_] at shelved
      exact ⟨none, shelved, rfl⟩
    | some p =>
      rw [at_] at shelved
      obtain ⟨paths, contains, held⟩ := shelved
      exact ⟨some paths, ⟨p.1, contains⟩, held⟩
  obtain ⟨table, stands, same⟩ := found
  obtain ⟨paths, selected, apart, members⟩ := select_stands ordinary.usable stands scan
  refine ⟨paths, selected, apart, ?_⟩
  rw [← same]
  ext p
  rw [List.mem_toFinset, List.mem_toFinset, members]

/-! #### The register -/

theorem get_playlist_source_denotes (name : Text) : Denotes (getPlaylistSourceQuery name)
    (.select false ["source"] "_playlist" [{ operand := .column "name", value := .text name }]) :=
  .of_tokens (reads_get_playlist_source name) rfl (by simp) rfl

/-- A query about the row of a name in the register. -/
theorem register_query_eq (scan : Scan) (name : Text) (found : db.lookup "_playlist" = some t)
    (declared : Declared .register t) {c : Text} (known : (t.index? c).isSome) :
    ∃ rows : List Row, select scan db (.select false [c] "_playlist"
        [{ operand := .column "name", value := .text name }]) = .ok (rows.map fun r => [t.cell r c]) ∧
      rows.Perm (ownRows t name) := by
  have admitted : [({ operand := .column "name", value := .text name } : Condition)].forM t.admits =
      .ok () := by
    obtain ⟨_, columns, key, rows⟩ := t
    cases declared.columns
    rfl
  have selected : t.selects [{ operand := .column "name", value := .text name }] =
      fun r => decide (t.cell r "name" = .text name) := by
    funext r
    by_cases same : t.cell r "name" = .text name <;> simp [Table.selects, Table.holds, same]
  have answer := @select_eq _ _ false _ _ _ scan ((source_eq (by decide)).trans found)
    (show (([c] : List Text).any fun d => (t.index? d).isNone) = false by simpa using known) admitted
  refine ⟨_, answer, ?_⟩
  rw [selected]
  exact (scan.perm _ t).filter _

theorem current_answer (holds : Represents db l) (clean : nul ∉ n) :
    getPlaylistCurrent scan db n = some ((l.register n).elim 0 Prod.snd) := by
  obtain ⟨t, found, declared, rows⟩ := holds.register
  have known : (t.index? "current").isSome := by
    obtain ⟨_, columns, key, rows⟩ := t
    cases declared.columns
    rfl
  obtain ⟨visited, answer, perm⟩ := register_query_eq scan n found declared known
  rw [getPlaylistCurrent, (get_playlist_current_denotes n).query_eq,
    if_neg (mt nul_mem_get_playlist_current_query.mp clean), answer]
  rw [rows n] at perm
  cases at_ : l.register n with
  | none =>
    rw [at_] at perm
    obtain rfl : visited = [] := perm.eq_nil
    rfl
  | some p =>
    rw [at_] at perm
    obtain rfl : visited = [registerRow n p] := List.perm_singleton.mp perm
    have cell : t.cell (registerRow n p) "current" = .int p.2 := by
      obtain ⟨_, columns, key, rows⟩ := t
      cases declared.columns
      rfl
    simp [firstInt, cell, columnInt]

theorem source_answer (holds : Represents db l) (clean : nul ∉ n) :
    getPlaylistSource scan db n = some ((l.register n).elim (text "") Prod.fst) := by
  obtain ⟨t, found, declared, rows⟩ := holds.register
  have known : (t.index? "source").isSome := by
    obtain ⟨_, columns, key, rows⟩ := t
    cases declared.columns
    rfl
  have whole : nul ∉ getPlaylistSourceQuery n := by
    have before : nul ∉ text "SELECT source from _playlist WHERE name='" := clean_text rfl
    have behind : nul ∉ text "';" := clean_text rfl
    simp [getPlaylistSourceQuery, escape_eq_doubled, mem_doubled, before, behind, clean]
  obtain ⟨visited, answer, perm⟩ := register_query_eq scan n found declared known
  rw [getPlaylistSource, (get_playlist_source_denotes n).query_eq, if_neg whole, answer]
  rw [rows n] at perm
  cases at_ : l.register n with
  | none =>
    rw [at_] at perm
    obtain rfl : visited = [] := perm.eq_nil
    rfl
  | some p =>
    rw [at_] at perm
    obtain rfl : visited = [registerRow n p] := List.perm_singleton.mp perm
    have cell : t.cell (registerRow n p) "source" = .text p.1 := by
      obtain ⟨_, columns, key, rows⟩ := t
      cases declared.columns
      rfl
    simp [firstText, cell, columnText]

/-! #### Names -/

/-- No name of the program's own is listed but the catalog's. -/
theorem shown_iff (holds : Represents db l) : n ∈ shownTables db ↔ n = text "db_catalog" ∨
    n.head? ≠ some '_' ∧ fold n ≠ text "db_catalog" ∧ ∃ held, l.playlists (fold n) = some (n, held) := by
  obtain ⟨c, -, catalog, named, -⟩ := holds.catalog
  rw [mem_shown_tables]
  constructor
  · rintro ⟨shown, t, held, rfl⟩
    have found : db.lookup t.name = some t := Db.lookup_of_mem held rfl
    by_cases own : fold t.name = fold (text "db_catalog")
    · have there : db.lookup "db_catalog" = some t := (Db.lookup_congr own.symm).trans found
      exact .inl (Option.some.inj (there.symm.trans catalog) ▸ named)
    · have influences : fold t.name ≠ fold (text "_influences") := fun same =>
        shown ((head_congr same).mpr (by decide))
      have register : fold t.name ≠ fold (text "_playlist") := fun same => shown ((head_congr same).mpr (by decide))
      have shelved := holds.playlists t.name ⟨own, influences, register⟩
      cases at_ : l.playlists (fold t.name) with
      | none =>
        rw [at_] at shelved
        cases found.symm.trans shelved
      | some p =>
        rw [at_] at shelved
        obtain ⟨paths, ⟨u, found', listing⟩, -⟩ := shelved
        obtain rfl := Option.some.inj (found.symm.trans found')
        exact .inr ⟨shown, own, p.2, by rw [listing.name]⟩
  · rintro (rfl | ⟨shown, own, held, at_⟩)
    · exact ⟨by decide, c, Db.mem_of_lookup catalog, named⟩
    · have influences : fold n ≠ fold (text "_influences") := fun same => shown ((head_congr same).mpr (by decide))
      have register : fold n ≠ fold (text "_playlist") := fun same => shown ((head_congr same).mpr (by decide))
      have shelved := holds.playlists n ⟨own, influences, register⟩
      rw [at_] at shelved
      obtain ⟨paths, ⟨t, found, listing⟩, -⟩ := shelved
      exact ⟨shown, t, Db.mem_of_lookup found, listing.name⟩

theorem tables_answer (scan : Scan) (holds : Represents db l) :
    ∃ names, tables scan db = some names ∧ names.Nodup ∧ ∀ n, n ∈ names ↔ n = text "db_catalog" ∨
      n.head? ≠ some '_' ∧ fold n ≠ text "db_catalog" ∧ ∃ held, l.playlists (fold n) = some (n, held) := by
  obtain ⟨names, listed, perm⟩ := tables_perm scan db
  refine ⟨names, listed, perm.nodup_iff.mpr (nodup_shown_tables db), fun n => ?_⟩
  rw [perm.mem_iff, shown_iff holds]

/-! #### Artists -/

theorem artists_query_eq : distinctQuery scan db artistsQuery =
    selectDistinct scan db "ARTIST" (.select true ["artist"] "db_catalog" []) := by
  have tokens : statements (lex (cStr artistsQuery)) =
      [[.keyword .select, .keyword .distinct, .id "artist", .keyword .from, .id "db_catalog", .reserved "ORDER",
        .id "BY", .id "ARTIST"], []] :=
    text_eval (f := fun q => statements (lex (cStr q))) (by rfl)
  unfold distinctQuery
  rw [tokens]
  rfl

theorem artist_cell (declared : Declared .catalog t) (e : Entry) : t.cell e.row "artist" = .text e.artist := by
  obtain ⟨name, columns, key, rows⟩ := t
  cases declared.columns
  rfl

theorem artists_answer (scan : Scan) (holds : Represents db l) : ∃ names, artists scan db = some names ∧ names.Nodup ∧
    (∀ a, a ∈ names ↔ ∃ e ∈ l.entries, e.artist = a) ∧ names.Pairwise fun s t => precedes s t = true := by
  obtain ⟨t, stored, found, -, declared, rows, entries⟩ := holds.catalog
  have known : ((["artist"] : List Text).any fun c => (t.index? c).isNone) = false := by
    obtain ⟨name, columns, key, rows⟩ := t
    cases declared.columns
    rfl
  let visited := scan.rows (.select true ["artist"] "db_catalog" []) t
  let distinct := (visited.map fun r => [t.cell r "artist"]).eraseDups
  let sorted := distinct.mergeSort fun r s => (r.headD .null).precedes (s.headD .null)
  have answer : select scan db (.select true ["artist"] "db_catalog" []) = .ok distinct := by
    have all : visited.filter (t.selects []) = visited := List.filter_eq_self.mpr fun _ _ => rfl
    rw [select_eq scan ((source_eq (by decide)).trans found) known rfl]
    exact congrArg (fun rows => Except.ok (List.eraseDups (List.map _ rows))) all
  have members (r : Row) : r ∈ sorted ↔ ∃ e ∈ stored, r = [.text e.artist] := by
    simp [sorted, distinct, visited, List.mem_mergeSort, List.mem_eraseDups, Scan.mem_rows, rows,
      artist_cell declared, eq_comm]
  obtain ⟨names, shape⟩ := path_rows_of_texts fun r member =>
    let ⟨e, _, same⟩ := (members r).mp member
    ⟨e.artist, same⟩
  have ascends : sorted.Pairwise fun r s => (r.headD .null).precedes (s.headD .null) = true := by
    refine List.pairwise_mergeSort ?_ ?_ _
    · intro r s u
      exact Value.precedes_trans
    · intro r s
      exact Value.precedes_total _ _
  refine ⟨names, ?_, ?_, fun a => ?_, ?_⟩
  · rw [artists, artists_query_eq, selectDistinct, if_pos (by decide), answer]
    exact (congrArg (fun rows => firstColumn (.ok rows)) shape).trans (first_column_rows names)
  · have apart : sorted.Nodup := (List.mergeSort_perm _ _).nodup_iff.mpr (nodup_erase_dups _)
    rw [shape] at apart
    exact apart.of_map _
  · rw [← mem_path_rows, ← shape, members, ← entries]
    simp only [List.singleton_inj, Value.text.injEq, Multiset.mem_coe, eq_comm]
  · rw [shape, pathRows, List.pairwise_map] at ascends
    exact ascends

/-- **The answers.** Everything the reading functions return from a file is what the library says that
the file holds. -/
theorem answers_of_holds (scan : Scan) (holds : Represents db l) : Answers scan db l where
  track := fun _ duration clean => track_answer holds clean duration
  playlist := fun _ ordinary => playlist_answer scan holds ordinary
  current := fun _ clean => current_answer holds clean
  source := fun _ clean => source_answer holds clean
  tables := tables_answer scan holds
  artists := artists_answer scan holds
  influences := by
    obtain ⟨t, held, found, declared, rows, apart, pairs⟩ := holds.influences
    obtain ⟨order, read, perm, ascends⟩ := Influences.influences_eq scan found declared rows
    refine ⟨order, read, perm.nodup_iff.mpr apart, ?_, ascends⟩
    rw [← pairs]
    exact List.toFinset_eq_of_perm _ _ perm

end Readers

/-! ### Lives and names -/

/-- The change is about the playlist of this name, or about its row in the register. -/
def Change.Concerns (n : Text) : Change → Prop
  | .playlist name _ => fold name = fold n
  | .register name _ => name = n
  | _ => False

/-- The request is about the playlist of this name. -/
def Request.Concerns (n : Text) : Request → Prop
  | .addPath name _ | .addPaths name _ | .removePath name _ | .removePaths name _ | .removePlaylist name =>
    fold name = fold n
  | .insertPlaylist name _ | .setPlaylistCurrent name _ => name = n
  | _ => False

instance (n : Text) (r : Request) : Decidable (r.Concerns n) := by
  cases r <;> unfold Request.Concerns <;> infer_instance

/-- The two libraries have the same playlist of this name, and the same row for it. -/
structure Library.Agree (n : Text) (l m : Library) : Prop where
  playlist : l.playlists (fold n) = m.playlists (fold n)
  row : l.register n = m.register n

section Names

variable {n : Text} {l m : Library} {c : Change} {db : Db} {first second requests : List Request}

theorem Library.Agree.trans {k : Library} (left : Library.Agree n k l) (right : Library.Agree n l m) :
    Library.Agree n k m := ⟨left.playlist.trans right.playlist, left.row.trans right.row⟩

theorem Library.Agree.apply (agree : Library.Agree n l m) (c : Change) : Library.Agree n (l.apply c) (m.apply c) := by
  cases c with
  | none | catalog | influence => exact ⟨agree.playlist, agree.row⟩
  | playlist name change =>
    refine ⟨?_, agree.row⟩
    by_cases same : fold n = fold name
    · simp [Library.apply, ← same, agree.playlist]
    · simp [Library.apply, Function.update_of_ne same, agree.playlist]
  | register name change =>
    refine ⟨agree.playlist, ?_⟩
    by_cases same : n = name
    · subst same
      simp [Library.apply, agree.row]
    · simp [Library.apply, Function.update_of_ne same, agree.row]

theorem Library.Agree.foldl (agree : Library.Agree n l m) (changes : List Change) :
    Library.Agree n (changes.foldl Library.apply l) (changes.foldl Library.apply m) := by
  induction changes generalizing l m with
  | nil => exact agree
  | cons c changes ih => exact ih (agree.apply c)

theorem Library.agree_of_elsewhere {changes : List Change} (elsewhere : ∀ c ∈ changes, ¬ c.Concerns n) :
    Library.Agree n (changes.foldl Library.apply l) l := by
  induction changes generalizing l with
  | nil => exact ⟨rfl, rfl⟩
  | cons c changes ih =>
    obtain ⟨own, others⟩ := List.forall_mem_cons.mp elsewhere
    refine (ih others).trans ?_
    cases c with
    | none | catalog | influence => exact ⟨rfl, rfl⟩
    | playlist name change => exact ⟨Function.update_of_ne (Ne.symm own) _ _, rfl⟩
    | register name change => exact ⟨rfl, Function.update_of_ne (Ne.symm own) _ _⟩

theorem not_concerns_whole {strings : List Text} (elsewhere : ¬ c.Concerns n) :
    ¬ (Request.whole strings c).Concerns n := by
  unfold Request.whole
  split_ifs
  · exact id
  · exact elsewhere

theorem Request.changes_elsewhere {r : Request} (elsewhere : ¬ r.Concerns n) : ∀ c ∈ r.changes, ¬ c.Concerns n := by
  have one {c : Change} (own : ¬ c.Concerns n) : ∀ d ∈ [c], ¬ d.Concerns n := List.forall_mem_singleton.mpr own
  cases r with
  | insertPath | insertTrack | insertInfluence | removeTrack | updateDuration => exact one (not_concerns_whole id)
  | addPath | insertPlaylist | setPlaylistCurrent | removePath => exact one (not_concerns_whole elsewhere)
  | updateTrack => exact one id
  | removePlaylist => exact one elsewhere
  | addPaths name paths =>
    cases paths with
    | nil => exact List.forall_mem_nil _
    | cons path paths => exact List.forall_mem_cons.mpr ⟨elsewhere, one (not_concerns_whole elsewhere)⟩
  | removePaths name paths => exact List.forall_mem_map.mpr fun path _ => not_concerns_whole elsewhere

/-- Requests about other names leave the playlist alone. -/
theorem Library.agree_filter (requests : List Request) (l : Library) :
    Library.Agree n ((requests.flatMap Request.changes).foldl Library.apply l)
      (((requests.filter (·.Concerns n)).flatMap Request.changes).foldl Library.apply l) := by
  induction requests generalizing l with
  | nil => exact ⟨rfl, rfl⟩
  | cons r requests ih =>
    rw [List.flatMap_cons, List.foldl_append]
    by_cases own : r.Concerns n
    · rw [List.filter_cons_of_pos (by simpa using own), List.flatMap_cons, List.foldl_append]
      exact ih _
    · rw [List.filter_cons_of_neg (by simpa using own)]
      exact (ih _).trans ((Library.agree_of_elsewhere (Request.changes_elsewhere own)).foldl _)

/-- **Playlists are isolated.** After two queues that agree in the requests about one name, whatever else
is in them, the paths read under the name, its position and its source are the same. -/
theorem playlists_isolated (plain : ∀ r ∈ first, r.Plain) (plain' : ∀ r ∈ second, r.Plain)
    (same : first.filter (·.Concerns n) = second.filter (·.Concerns n)) (ordinary : Ordinary n)
    (holds : Represents db l) :
    ∃ after after', execAll db (first.flatMap Request.texts) = some after ∧
      execAll db (second.flatMap Request.texts) = some after' ∧ ∀ scan scan',
        getPlaylistCurrent scan after n = getPlaylistCurrent scan' after' n ∧
        getPlaylistSource scan after n = getPlaylistSource scan' after' n ∧
        ∃ paths paths', selectPlaylist scan after n = some paths ∧ selectPlaylist scan' after' n = some paths' ∧
          paths.Perm paths' := by
  obtain ⟨after, ran, now⟩ := exec_all_means (requests_mean plain) holds
  obtain ⟨after', ran', now'⟩ := exec_all_means (requests_mean plain') holds
  have whole := Library.agree_filter (n := n) first l
  have whole' := Library.agree_filter (n := n) second l
  rw [same] at whole
  have clean := ordinary.usable.clean
  refine ⟨after, after', ran, ran', fun scan scan' => ⟨?_, ?_, ?_⟩⟩
  · rw [current_answer now clean, current_answer now' clean, whole.row, whole'.row]
  · rw [source_answer now clean, source_answer now' clean, whole.row, whole'.row]
  · obtain ⟨paths, read, apart, members⟩ := playlist_answer scan now ordinary
    obtain ⟨paths', read', apart', members'⟩ := playlist_answer scan' now' ordinary
    refine ⟨paths, paths', read, read', ?_⟩
    rw [whole.playlist, ← whole'.playlist, ← members'] at members
    exact List.perm_of_nodup_nodup_toFinset_eq apart apart' members

/-- A playlist filled with and without others around it. -/
theorem mix_isolated : ∃ after after',
    execAll (created 3) ([(.addPaths "Mix" ["a.mp3"] : Request)].flatMap Request.texts) = some after ∧
      execAll (created 3) ([.insertPath "b.mp3", .addPaths "Mix" ["a.mp3"], (.removePlaylist "Old" : Request)].flatMap
        Request.texts) = some after' ∧ ∀ scan scan',
        getPlaylistCurrent scan after "Mix" = getPlaylistCurrent scan' after' "Mix" ∧
        getPlaylistSource scan after "Mix" = getPlaylistSource scan' after' "Mix" ∧
        ∃ paths paths', selectPlaylist scan after "Mix" = some paths ∧
          selectPlaylist scan' after' "Mix" = some paths' ∧ paths.Perm paths' := by
  have mix : Ordinary "Mix" := ⟨by decide, by decide, by decide⟩
  have old : Ordinary "Old" := ⟨by decide, by decide, by decide⟩
  refine playlists_isolated ?_ ?_ (by decide) mix created_represents
  · exact List.forall_mem_singleton.mpr mix
  · simp only [List.forall_mem_cons]
    exact ⟨trivial, mix, old, List.forall_mem_nil _⟩

end Names

end Sws
