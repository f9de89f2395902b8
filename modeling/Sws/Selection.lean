import Mathlib
import Sws.Player

/-! The three places that say which playlist is selected: the iterator `it` into the table names, the
assigned playlist and the configured name. -/
namespace Sws.Player

/-- Iterator, playlist and configuration name the same playlist. -/
def Agreed (s : State) : Prop :=
  s.playlistTables[s.it]? = some s.currentPlaylist.name ∧ s.config = s.currentPlaylist.name

/-- Whether an operation moves `it`. -/
def Op.Moves : Op → Prop
  | .playlistUp | .playlistDown => True
  | _ => False

/-- A choice of a playlist, by name only of one that exists. -/
def Op.Chooses (playlists : List Playlist) : Op → Prop
  | .playlistUp | .playlistDown => True
  | .setCurrentPlaylist name => ∃ p ∈ playlists, p.name = name
  | _ => False

def Op.shift : Op → Int
  | .playlistUp => -1
  | .playlistDown => 1
  | _ => 0

/-- The index of `it` after a sequence of operations, among `n` table names. -/
def position (n : Nat) (ops : List Op) : Nat := ((ops.map Op.shift).sum % n).toNat

/-- `playlist_down` plays the playlist after the current one, the first after the last, and
`playlist_up` then plays the current one again. -/
def Cycles (stale : Stale) (s : State) : Prop :=
  ∀ t, playlistDown stale s = some t →
    (∃ i, s.playlistTables[i]? = some s.currentPlaylist.name ∧
      s.playlistTables[(i + 1) % s.playlistTables.length]? = some t.currentPlaylist.name) ∧
    ∀ u, playlistUp stale t = some u → u.currentPlaylist.name = s.currentPlaylist.name

/-! ### One choice -/

/-- `it` denotes a table, and every table is a playlist. -/
structure Tabled (s : State) : Prop where
  within : s.it < s.playlistTables.length
  known : ∀ name ∈ s.playlistTables, ∃ p ∈ s.playlists, p.name = name

/-- What a choice leaves alone, and how it moves `it`. -/
structure Shifted (s t : State) (op : Op) : Prop where
  tables : t.playlistTables = s.playlistTables
  playlists : t.playlists = s.playlists
  within : t.it < s.playlistTables.length
  place : (t.it : Int) ≡ s.it + op.shift [ZMOD s.playlistTables.length]

variable {stale : Stale} {s t : State}

theorem Shifted.tabled {op : Op} (shifted : Shifted s t op) (tabled : Tabled s) : Tabled t := by
  refine ⟨shifted.tables ▸ shifted.within, ?_⟩
  rw [shifted.tables, shifted.playlists]
  exact tabled.known

theorem kept_of_play (played : play s = some t) :
    t.it = s.it ∧ t.playlistTables = s.playlistTables ∧ t.playlists = s.playlists ∧
      t.currentPlaylist = s.currentPlaylist ∧ t.config = s.config := by
  obtain ⟨i, path, -, -, rfl⟩ := play_eq_some_iff.mp played
  exact ⟨rfl, rfl, rfl, rfl, rfl⟩

theorem chosen_by_loop (stale : Stale) (name : Text) (playlists : List Playlist) (s : State) :
    let t := playlists.foldl (fun s p => if p.name = name then assign stale s p else s) s
    t.it = s.it ∧ t.playlistTables = s.playlistTables ∧ t.playlists = s.playlists ∧
      t.config = s.config ∧
      ((∃ p ∈ playlists, p.name = name) ∨ s.currentPlaylist.name = name →
        t.currentPlaylist.name = name) := by
  induction playlists generalizing s with
  | nil => simp
  | cons p playlists ih =>
    rw [List.foldl_cons]
    by_cases same : p.name = name
    · obtain ⟨it, tables, lists, config, current⟩ := ih (assign stale s p)
      rw [if_pos same]
      exact ⟨it, tables, lists, config, fun _ => current (.inr same)⟩
    · obtain ⟨it, tables, lists, config, current⟩ := ih s
      rw [if_neg same]
      refine ⟨it, tables, lists, config, fun known => current ?_⟩
      simpa [List.exists_mem_cons_iff, same] using known

/-- The tail of `playlist_up` and `playlist_down` makes the three agree on the name `it` moved to. -/
theorem agreed_of_select {i : Nat} (tabled : Tabled s)
    (selected : select stale { s with it := i } = some t) :
    t.it = i ∧ t.playlistTables = s.playlistTables ∧ t.playlists = s.playlists ∧ Agreed t := by
  obtain ⟨name, p, at_, found, played⟩ := select_eq_some_iff.mp selected
  obtain ⟨q, again, -, same⟩ := named_of_mem (tabled.known name (List.mem_of_getElem? at_))
  cases again.symm.trans found
  obtain ⟨it, tables, playlists, current, config⟩ := kept_of_play played
  refine ⟨it, tables, playlists, ?_, ?_⟩
  · rw [tables, it, current]
    exact at_.trans (congrArg some same.symm)
  · rw [config, current]
    rfl

theorem playlist_up_of_tabled (tabled : Tabled s) (taken : playlistUp stale s = some t) :
    Shifted s t .playlistUp ∧ Agreed t := by
  have within := tabled.within
  unfold playlistUp at taken
  split at taken
  · cases taken
  case h_2 i index =>
    obtain ⟨it, tables, playlists, agreed⟩ := agreed_of_select tabled taken
    refine ⟨⟨tables, playlists, ?_, ?_⟩, agreed⟩
    · rw [it]
      split at index <;> omega
    · rw [it, Int.modEq_iff_dvd, Op.shift]
      split at index
      · exact ⟨-1, by omega⟩
      · exact ⟨0, by omega⟩

theorem playlist_down_of_tabled (tabled : Tabled s) (taken : playlistDown stale s = some t) :
    Shifted s t .playlistDown ∧ Agreed t := by
  have within := tabled.within
  unfold playlistDown at taken
  rw [if_neg (Nat.not_le.mpr within)] at taken
  obtain ⟨it, tables, playlists, agreed⟩ := agreed_of_select tabled taken
  refine ⟨⟨tables, playlists, ?_, ?_⟩, agreed⟩
  · rw [it]
    split <;> omega
  · rw [it, Int.modEq_iff_dvd, Op.shift]
    split
    · exact ⟨1, by omega⟩
    · exact ⟨0, by omega⟩

/-- A choice by name leaves `it` and the configuration where they are. -/
theorem set_current_of_tabled {name : Text} (tabled : Tabled s)
    (held : ∃ p ∈ s.playlists, p.name = name)
    (taken : setCurrentPlaylist stale s name = some t) :
    Shifted s t (.setCurrentPlaylist name) ∧ t.it = s.it ∧ t.config = s.config ∧
      t.currentPlaylist.name = name := by
  obtain ⟨it, tables, playlists, current, config⟩ := kept_of_play taken
  obtain ⟨loopIt, loopTables, loopPlaylists, loopConfig, loopCurrent⟩ :=
    chosen_by_loop stale name s.playlists s
  have place : t.it = s.it := it.trans loopIt
  refine ⟨⟨tables.trans loopTables, playlists.trans loopPlaylists, ?_, ?_⟩, place,
    config.trans loopConfig, current ▸ loopCurrent (.inl held)⟩
  · exact place ▸ tabled.within
  · simp [place, Op.shift]

/-! ### A sequence of choices -/

/-- The state after a sequence of choices, told by the sequence alone. -/
structure Chosen (playlists : List Playlist) (tables : List Text) (stored : Text) (ops : List Op)
    (s : State) : Prop where
  sameTables : s.playlistTables = tables
  samePlaylists : s.playlists = playlists
  within : s.it < tables.length
  place : (s.it : Int) ≡ (ops.map Op.shift).sum [ZMOD tables.length]
  /-- The latest move has stored the name it moved to. -/
  moved : (∃ op ∈ ops, op.Moves) → tables[s.it]? = some s.config
  unmoved : (¬ ∃ op ∈ ops, op.Moves) → s.config = stored
  /-- The latest choice decides what is played. -/
  current : match ops.getLast? with
    | none => s.currentPlaylist.name = stored
    | some (.setCurrentPlaylist name) => s.currentPlaylist.name = name
    | some _ => tables[s.it]? = some s.currentPlaylist.name

variable {playlists : List Playlist} {tables : List Text} {stored : Text} {ops : List Op}

theorem Chosen.tabled (known : ∀ name ∈ tables, ∃ p ∈ playlists, p.name = name)
    (chosen : Chosen playlists tables stored ops s) : Tabled s := by
  refine ⟨chosen.sameTables.symm ▸ chosen.within, ?_⟩
  rw [chosen.sameTables, chosen.samePlaylists]
  exact known

theorem chosen_construct {getPlaylistCurrent : Text → Int} {isPlaying isPaused : Bool}
    (known : ∀ name ∈ tables, ∃ p ∈ playlists, p.name = name) (listed : stored ∈ tables)
    (constructed : construct playlists tables stored getPlaylistCurrent isPlaying isPaused = some s) :
    Chosen playlists tables stored [] s := by
  simp only [construct, Option.bind_eq_bind, Option.bind_eq_some_iff, Option.pure_def,
    Option.some.injEq] at constructed
  obtain ⟨current, found, rfl⟩ := constructed
  obtain ⟨p, again, -, same⟩ := named_of_mem (known stored listed)
  cases again.symm.trans found
  exact ⟨rfl, rfl, List.length_pos_of_mem listed, by simp, by simp, fun _ => rfl, same⟩

/-- After a move the three agree, whatever came before. -/
theorem Chosen.move {op : Op} (chosen : Chosen playlists tables stored ops s) (moves : op.Moves)
    (shifted : Shifted s t op) (agreed : Agreed t) :
    Chosen playlists tables stored (ops ++ [op]) t := by
  obtain ⟨at_, config⟩ := agreed
  have same : t.playlistTables = tables := shifted.tables.trans chosen.sameTables
  rw [same] at at_
  refine ⟨same, shifted.playlists.trans chosen.samePlaylists, chosen.sameTables ▸ shifted.within, ?_,
    fun _ => config ▸ at_, fun none => absurd ⟨op, by simp, moves⟩ none, ?_⟩
  · rw [List.map_append, List.sum_append]
    simpa using (chosen.sameTables ▸ shifted.place).trans (chosen.place.add_right op.shift)
  · rw [List.getLast?_concat]
    cases op with
    | playlistUp => exact at_
    | playlistDown => exact at_
    | _ => cases moves

theorem Chosen.set {name : Text} (chosen : Chosen playlists tables stored ops s)
    (shifted : Shifted s t (.setCurrentPlaylist name)) (place : t.it = s.it)
    (config : t.config = s.config) (current : t.currentPlaylist.name = name) :
    Chosen playlists tables stored (ops ++ [.setCurrentPlaylist name]) t := by
  have others : (∃ op ∈ ops ++ [.setCurrentPlaylist name], op.Moves) ↔ ∃ op ∈ ops, op.Moves := by
    simp [Op.Moves, or_and_right, exists_or]
  refine ⟨shifted.tables.trans chosen.sameTables, shifted.playlists.trans chosen.samePlaylists,
    chosen.sameTables ▸ shifted.within, ?_, ?_, ?_, ?_⟩
  · rw [List.map_append, List.sum_append]
    simpa using (chosen.sameTables ▸ shifted.place).trans (chosen.place.add_right (Op.shift _))
  · rw [others, place, config]
    exact chosen.moved
  · rw [others, config]
    exact chosen.unmoved
  · rw [List.getLast?_concat]
    exact current

theorem chosen_step {op : Op} (known : ∀ name ∈ tables, ∃ p ∈ playlists, p.name = name)
    (chosen : Chosen playlists tables stored ops s) (chooses : op.Chooses playlists)
    (taken : step stale s op = some t) : Chosen playlists tables stored (ops ++ [op]) t := by
  have tabled := chosen.tabled known
  cases op with
  | playlistUp =>
    obtain ⟨shifted, agreed⟩ := playlist_up_of_tabled tabled taken
    exact chosen.move trivial shifted agreed
  | playlistDown =>
    obtain ⟨shifted, agreed⟩ := playlist_down_of_tabled tabled taken
    exact chosen.move trivial shifted agreed
  | setCurrentPlaylist name =>
    rw [← chosen.samePlaylists] at chooses
    obtain ⟨shifted, place, config, current⟩ := set_current_of_tabled tabled chooses taken
    exact chosen.set shifted place config current
  | _ => cases chooses

theorem chosen_run (known : ∀ name ∈ tables, ∃ p ∈ playlists, p.name = name)
    (chooses : ∀ op ∈ ops, op.Chooses playlists) (started : Chosen playlists tables stored [] s)
    (reached : (step stale).run s ops = some t) : Chosen playlists tables stored ops t := by
  induction ops using List.reverseRecOn generalizing t with
  | nil =>
    cases reached
    exact started
  | append_singleton ops op ih =>
    obtain ⟨u, first, last⟩ := Steps.run_append_iff.mp reached
    obtain ⟨v, taken, done⟩ := Steps.run_cons_iff.mp last
    cases done
    have chosen := ih (fun o member => chooses o (List.mem_append_left _ member)) first
    exact chosen_step known chosen (chooses op (by simp)) taken

theorem Chosen.position_eq (chosen : Chosen playlists tables stored ops s) :
    s.it = position tables.length ops := by
  have reduced : (s.it : Int) % tables.length = s.it :=
    Int.emod_eq_of_lt (Int.natCast_nonneg _) (Int.ofNat_lt.mpr chosen.within)
  unfold position
  rw [← chosen.place, reduced, Int.toNat_natCast]

/-- A sequence without a move leaves `it` at the first table. -/
theorem position_of_unmoved {n : Nat} (unmoved : ¬ ∃ op ∈ ops, op.Moves) : position n ops = 0 := by
  have still : (ops.map Op.shift).sum = 0 := by
    apply List.sum_eq_zero
    intro x member
    obtain ⟨op, held, rfl⟩ := List.mem_map.mp member
    cases op with
    | playlistUp => exact absurd ⟨_, held, trivial⟩ unmoved
    | playlistDown => exact absurd ⟨_, held, trivial⟩ unmoved
    | _ => rfl
  simp [position, still]

theorem Chosen.agreed_iff (chosen : Chosen playlists tables stored ops s)
    (chooses : ∀ op ∈ ops, op.Chooses playlists) :
    Agreed s ↔
      ((∃ op ∈ ops, op.Moves) ∨ tables.head? = some stored) ∧
      ∀ name, ops.getLast? = some (.setCurrentPlaylist name) →
        tables[position tables.length ops]? = some name := by
  have current := chosen.current
  unfold Agreed
  rw [chosen.sameTables, chosen.position_eq]
  constructor
  · rintro ⟨at_, config⟩
    refine ⟨?_, fun name last => ?_⟩
    · by_cases moves : ∃ op ∈ ops, op.Moves
      · exact .inl moves
      · rw [← chosen.unmoved moves, config, ← at_, position_of_unmoved moves]
        exact .inr List.head?_eq_getElem?
    · simp only [last] at current
      rw [at_, current]
  · rintro ⟨config, last⟩
    have configured : tables[position tables.length ops]? = some s.config := by
      by_cases moves : ∃ op ∈ ops, op.Moves
      · exact chosen.position_eq ▸ chosen.moved moves
      · rw [position_of_unmoved moves, chosen.unmoved moves, ← List.head?_eq_getElem?]
        exact config.resolve_left moves
    have at_ : tables[position tables.length ops]? = some s.currentPlaylist.name := by
      cases latest : ops.getLast? with
      | none =>
        rw [List.getLast?_eq_none_iff] at latest
        subst latest
        rw [configured, chosen.unmoved (by simp)]
        simp only [List.getLast?_nil] at current
        rw [current]
      | some op =>
        have member : op ∈ ops := List.mem_of_getLast? latest
        simp only [latest] at current
        cases op with
        | setCurrentPlaylist name => exact (last name latest).trans (congrArg some current.symm)
        | playlistUp => exact chosen.position_eq ▸ current
        | playlistDown => exact chosen.position_eq ▸ current
        | _ => cases chooses _ member
    exact ⟨at_, Option.some.inj (configured.symm.trans at_)⟩

theorem cycles_of_agreed (tabled : Tabled s) (agreed : Agreed s) : Cycles stale s := by
  intro t down
  obtain ⟨shifted, landed⟩ := playlist_down_of_tabled tabled down
  have length := tabled.within
  have next : t.it = (s.it + 1) % s.playlistTables.length := by
    have place := shifted.place
    have reduced : (t.it : Int) % s.playlistTables.length = t.it :=
      Int.emod_eq_of_lt (Int.natCast_nonneg _) (Int.ofNat_lt.mpr shifted.within)
    rw [Int.ModEq, reduced, Op.shift] at place
    exact_mod_cast place
  refine ⟨⟨s.it, agreed.1, ?_⟩, fun u up => ?_⟩
  · rw [← next, ← shifted.tables]
    exact landed.1
  · obtain ⟨back, returned⟩ := playlist_up_of_tabled (shifted.tabled tabled) up
    have place : (u.it : Int) ≡ s.it [ZMOD s.playlistTables.length] := by
      have both := (shifted.tables ▸ back.place).trans (shifted.place.add_right (-1))
      simpa [Op.shift] using both
    have home : u.it = s.it := by
      have inside : u.it < s.playlistTables.length := shifted.tables ▸ back.within
      exact Nat.ModEq.eq_of_lt_of_lt (Int.natCast_modEq_iff.mp place) inside length
    have named := returned.1
    rw [home, back.tables, shifted.tables, agreed.1] at named
    exact (Option.some.inj named).symm

/-- **Three copies of one selection.** After a sequence of choices the iterator, the playlist and the
configuration agree, and `playlist_down` and `playlist_up` move between neighbours, exactly when the
sequence moves `it` or the stored playlist is the first table, and a choice by name at the end names
the table `it` denotes. -/
theorem selection_agrees_iff (stale : Stale) {getPlaylistCurrent : Text → Int}
    {isPlaying isPaused : Bool}
    (known : ∀ name ∈ tables, ∃ p ∈ playlists, p.name = name) (listed : stored ∈ tables)
    (constructed : construct playlists tables stored getPlaylistCurrent isPlaying isPaused = some s)
    (chooses : ∀ op ∈ ops, op.Chooses playlists) (reached : (step stale).run s ops = some t) :
    (Agreed t ∧ Cycles stale t) ↔
      ((∃ op ∈ ops, op.Moves) ∨ tables.head? = some stored) ∧
      ∀ name, ops.getLast? = some (.setCurrentPlaylist name) →
        tables[position tables.length ops]? = some name := by
  have chosen := chosen_run known chooses (chosen_construct known listed constructed) reached
  rw [← chosen.agreed_iff chooses]
  exact and_iff_left_of_imp (cycles_of_agreed (chosen.tabled known))

/-- Down to the second of two playlists, the first by name, and up to it. -/
theorem selection_agrees_after_up :
    ∃ s t, construct [⟨['a'], [['x']]⟩, ⟨['b'], [['y']]⟩] [['a'], ['b']] ['b'] (fun _ => 0) false
        false = some s ∧
      (step inPlace).run s [.playlistDown, .setCurrentPlaylist ['a'], .playlistUp] = some t ∧
      Agreed t := by
  obtain ⟨s, constructed, t, reached⟩ : ∃ s, construct [⟨['a'], [['x']]⟩, ⟨['b'], [['y']]⟩]
      [['a'], ['b']] ['b'] (fun _ => 0) false false = some s ∧ ∃ t, (step inPlace).run s
        [.playlistDown, .setCurrentPlaylist ['a'], .playlistUp] = some t := ⟨_, rfl, _, rfl⟩
  refine ⟨s, t, constructed, reached, ?_⟩
  apply And.left
  apply (selection_agrees_iff inPlace (by decide) (by decide) constructed
    (by simp [Op.Chooses]) reached).mpr
  exact ⟨.inl ⟨.playlistUp, by decide, trivial⟩, by simp⟩

/-- The second table is configured; the iterator denotes the first. -/
theorem constructed_selection_disagrees :
    ¬ ∀ (playlists : List Playlist) (tables : List Text) (stored : Text) (s t : State) (ops : List Op),
      (∀ name ∈ tables, ∃ p ∈ playlists, p.name = name) → stored ∈ tables →
      construct playlists tables stored (fun _ => 0) false false = some s →
      (∀ op ∈ ops, op.Chooses playlists) → (step inPlace).run s ops = some t → Agreed t := by
  intro all
  have agreed := all [⟨['a'], [['x']]⟩, ⟨['b'], [['y']]⟩] [['a'], ['b']] ['b'] _ _ [] (by decide)
    (by decide) rfl (by simp) rfl
  exact absurd agreed.1 (by decide)

end Sws.Player
