import Sws.Commands
import Sws.Loading

/-! A websocket message from its payload on. The JSON library reads the payload as a C string, and it
asserts what it is given: only an object may be asked for a member, and only to an object may one be
added. -/
namespace Sws.Messages

open Commands Joystick Player

/-- What the JSON library makes of texts and values. -/
structure Rapidjson where
  /-- The value of a text, if it is JSON. -/
  parse : Text → Option Json
  /-- What `Writer::Key` and `Writer::String` put. -/
  string : Text → Text
  /-- What `Writer::Double` puts; nothing for what is no number. -/
  double : Raw → Text

/-- `current_track`, as far as its text goes. -/
structure Current where
  members : Loading.Members
  rating : Raw

/-- `track::json`. -/
def trackJson (lib : Rapidjson) (c : Current) : Text :=
  let m := c.members
  let pairs : List (Text × Text) := [
    ("Id", lib.string (cStr m.path)), ("Path", lib.string (cStr m.path)),
    ("Title", lib.string (cStr m.title)), ("TrackNo", decimal m.trackNo.toNat),
    ("Album", lib.string (cStr m.album)), ("Year", decimal m.year.toNat),
    ("Artist", lib.string (cStr m.artist)), ("Favorite", if m.favorite then "true" else "false"),
    ("Rating", lib.double c.rating), ("Duration", lib.double m.duration),
    ("SporitfyId", lib.string m.spotifyId)]
  let texts := pairs.map fun pair => lib.string pair.1 ++ ":" ++ pair.2
  "\x7b" ++ (text ",").intercalate texts ++ "\x7d"

/-- How a call ends: in an assertion of the library, in undefined behavior of the player, or with the
player left in a state. -/
inductive Outcome
  | asserts
  | undefined
  | left (s : State)

namespace Outcome

def ofOption : Option State → Outcome
  | none => .undefined
  | some s => if s.Defined then .left s else .undefined

def state? : Outcome → Option State
  | .left s => some s
  | .asserts | .undefined => none

theorem state_of_option (o : Option State) : (ofOption o).state? = o.filter (·.Defined) := by
  cases o with
  | none => rfl
  | some s => by_cases defined : s.Defined <;> simp [ofOption, state?, Option.filter, defined]

theorem of_option_eq_left_iff {o : Option State} {s : State} :
    ofOption o = .left s ↔ o = some s ∧ s.Defined := by
  cases o with
  | none => simp [ofOption]
  | some t =>
    by_cases defined : t.Defined
    · simp only [ofOption, if_pos defined, left.injEq, Option.some.injEq]
      exact ⟨fun same => ⟨same, same ▸ defined⟩, fun both => both.1⟩
    · simp only [ofOption, if_neg defined, reduceCtorEq, Option.some.injEq, false_iff, not_and]
      exact fun same => same ▸ defined

end Outcome

/-- The answer to a payload that is no JSON: `player::json` parses the text of the current track and
adds a member to the value, before it looks for the neighbours. -/
def reply (lib : Rapidjson) (s : State) (c : Current) : Outcome :=
  match lib.parse (cStr (trackJson lib c)) with
  | some (.object _) => .ofOption (json s)
  | _ => .asserts

/-- `wsocket::onMessage`. The answer to `Position` leaves the player as it is. -/
def onMessage (lib : Rapidjson) (stale : Stale) (s : State) (c : Current) (payload : Text) : Outcome :=
  let d := lib.parse (cStr payload)
  if payload.length = 0 ∨ d.isNone then reply lib s c
  else
    match d with
    | some (.object members) => .ofOption (
      match members.lookup (text "Action") with
      | some (.string action) =>
        match actions.lookup (cStr action) with
        | some t => command stale s t
        | none => some s
      | _ => some s)
    | _ => .asserts

/-! ### What a message asks for -/

/-- The actions that the switch of `onMessage` has a case for. -/
def handled : List ActionType :=
  [.play, .stop, .pause, .next, .previous, .playlistDown, .playlistUp]

/-- The payload is a JSON object whose member `Action` is a string that names a handled action. -/
def Names (lib : Rapidjson) (payload : Text) : Prop :=
  ∃ members action t, lib.parse payload = some (.object members) ∧
    members.lookup (text "Action") = some (.string action) ∧ actions.lookup action = some t ∧ t ∈ handled

/-- The members name the action as far as a C string goes. -/
def Orders (members : List (Text × Json)) (action : Text) (t : ActionType) : Prop :=
  members.lookup (text "Action") = some (.string action) ∧ actions.lookup (cStr action) = some t ∧
    t ∈ handled

/-- `it_track` denotes a track of the current playlist. -/
def Placed (s : State) : Prop :=
  ∃ i path, s.itTrack.position = some i ∧ s.currentPlaylist.tracks[i]? = some path

/-- The text of the current track is a JSON object. -/
def Described (lib : Rapidjson) (c : Current) : Prop :=
  ∃ members, lib.parse (cStr (trackJson lib c)) = some (.object members)

/-- The current track is in a state in which the action may use it: the start of a track assigns to it, and a
`stop` destroys it if it has a path. -/
def Usable (s : State) : ActionType → Prop
  | .stop => s.lifetime = .alive ∨ s.lifetime = .destroyed ∧ s.currentTrack = ""
  | .pause => s.lifetime ≠ .misused
  | _ => s.lifetime = .alive

/-- A stop would change nothing. -/
def Stopped (s : State) : Prop := s.pipeline = .null ∧ s.currentTrack = [] ∧ s.isPlaying = false

/-- The call ends, and it changes the player for a message that names a handled action only. -/
def Respects (lib : Rapidjson) (stale : Stale) (s : State) (c : Current) (payload : Text) : Prop :=
  ∃ t, onMessage lib stale s c payload = .left t ∧ (t ≠ s → Names lib payload)

section Cases

variable {lib : Rapidjson} {stale : Stale} {s t : State} {c : Current} {payload action : Text}
  {members : List (Text × Json)} {a : ActionType}

theorem json_eq_some_iff : json s = some t ↔ s.lifetime = .alive ∧ Placed s ∧ t = s := by
  by_cases living : s.lifetime = .alive
  case neg => simp [json, living]
  rw [and_iff_right living]
  constructor
  · intro answered
    simp only [json, living, ne_eq, not_true_eq_false, ↓reduceIte, Option.bind_eq_bind,
      Option.bind_eq_some_iff, Option.pure_def, Option.some.injEq] at answered
    obtain ⟨next, read, -, -, rfl⟩ := answered
    simp only [peakNext, Option.bind_eq_bind, Option.bind_eq_some_iff] at read
    obtain ⟨i, at_, path, held, -⟩ := read
    exact ⟨⟨i, path, at_, held⟩, rfl⟩
  · rintro ⟨⟨i, path, at_, held⟩, rfl⟩
    have member : path ∈ t.currentPlaylist.tracks := List.mem_of_getElem? held
    have within : indexOf t.currentPlaylist.tracks path < t.currentPlaylist.tracks.length := by
      rw [indexOf, if_pos member]
      exact List.idxOf_lt_length_of_mem member
    have nonempty : t.currentPlaylist.tracks ≠ [] := List.ne_nil_of_mem member
    have after : ∃ path, peakNext t = some path := by
      simp only [peakNext, at_, held, Option.bind_eq_bind, Option.bind_some]
      split_ifs with last
      · exact ⟨_, List.head?_eq_some_head nonempty⟩
      · exact ⟨_, List.getElem?_eq_getElem (by omega)⟩
    have before : ∃ path, peakPrevious t = some path := by
      simp only [peakPrevious, at_, held, Option.bind_eq_bind, Option.bind_some]
      split
      · exact ⟨_, List.getLast?_eq_some_getLast nonempty⟩
      · exact ⟨_, List.getElem?_eq_getElem (by omega)⟩
    obtain ⟨next, read⟩ := after
    obtain ⟨previous, found⟩ := before
    simp [json, living, read, found]

/-- The answer changes nothing. -/
theorem reply_eq_left_iff :
    reply lib s c = .left t ↔ Described lib c ∧ s.lifetime = .alive ∧ Placed s ∧ t = s := by
  unfold reply Described
  split
  next members parsed =>
    simp only [parsed, Outcome.of_option_eq_left_iff, json_eq_some_iff, Option.some.injEq, Json.object.injEq,
      exists_eq', true_and]
    refine ⟨And.left, fun answered => ⟨answered, ?_⟩⟩
    obtain ⟨living, -, rfl⟩ := answered
    exact fun misused => Lifetime.noConfusion (living.symm.trans misused)
  next other =>
    constructor
    · intro ended
      cases ended
    · rintro ⟨⟨members, parsed⟩, -⟩
      exact (other members parsed).elim

/-- What a handled action does is defined where the current track may be used so. -/
theorem defined_iff_usable (member : a ∈ handled) (taken : command stale s a = some t) :
    t.Defined ↔ Usable s a := by
  have started (op : Op) (running : op ≠ .pause) (going : op ≠ .stop) (taken : step stale s op = some t) :
      t.Defined ↔ s.lifetime = .alive := by
    obtain ⟨u, played, -, -, same⟩ := played_of_step taken running going
    obtain ⟨i, path, -, -, rfl⟩ := play_eq_some_iff.mp played
    cases now : s.lifetime <;> simp [State.Defined, same, now, Lifetime.assigned]
  cases a with
  | play => exact started .play Op.noConfusion Op.noConfusion taken
  | next => exact started .next Op.noConfusion Op.noConfusion taken
  | previous => exact started .previous Op.noConfusion Op.noConfusion taken
  | playlistUp => exact started .playlistUp Op.noConfusion Op.noConfusion taken
  | playlistDown => exact started .playlistDown Op.noConfusion Op.noConfusion taken
  | pause =>
    cases taken
    unfold pause
    split <;> exact Iff.rfl
  | stop =>
    cases taken
    by_cases path : s.currentTrack = "" <;> cases now : s.lifetime <;>
      simp [State.Defined, stop, Usable, path, now, Lifetime.ended]
  | _ => simp [handled] at member

/-- A handled action that changes nothing stops a player that is stopped. -/
theorem stopped_of_unchanged (member : a ∈ handled) (same : command stale s a = some s) :
    a = .stop ∧ Stopped s := by
  have started (op : Op) (running : op ≠ .pause) (going : op ≠ .stop) (taken : step stale s op = some s) :
      False := by
    obtain ⟨u, played, -, plays, -⟩ := played_of_step taken running going
    obtain ⟨i, path, -, -, shape⟩ := play_eq_some_iff.mp played
    have lengths := congrArg (·.plays.length) shape
    simp [plays] at lengths
  cases a with
  | play => exact (started .play Op.noConfusion Op.noConfusion same).elim
  | next => exact (started .next Op.noConfusion Op.noConfusion same).elim
  | previous => exact (started .previous Op.noConfusion Op.noConfusion same).elim
  | playlistUp => exact (started .playlistUp Op.noConfusion Op.noConfusion same).elim
  | playlistDown => exact (started .playlistDown Op.noConfusion Op.noConfusion same).elim
  | pause =>
    have flags := congrArg State.isPaused (Option.some.inj same)
    cases already : s.isPaused <;> simp [pause, already] at flags
  | stop =>
    have stopped := Option.some.inj same
    exact ⟨rfl, (congrArg State.pipeline stopped).symm, (congrArg State.currentTrack stopped).symm,
      (congrArg State.isPlaying stopped).symm⟩
  | _ => simp [handled] at member

theorem Usable.defined (usable : Usable s a) : s.Defined := by
  intro misused
  cases a <;> simp [Usable, misused] at usable

theorem command_of_not_handled (other : a ∉ handled) : command stale s a = some s := by
  cases a <;> first | rfl | simp [handled] at other

/-! ### The branches of the call -/

theorem on_message_unparsed (malformed : payload = [] ∨ lib.parse (cStr payload) = none) :
    onMessage lib stale s c payload = reply lib s c := by
  refine if_pos ?_
  rcases malformed with empty | unparsed
  · exact .inl (List.length_eq_zero_iff.mpr empty)
  · exact .inr (by rw [unparsed, Option.isNone_none])

theorem on_message_parsed {j : Json} (nonempty : payload ≠ []) (parsed : lib.parse (cStr payload) = some j) :
    ¬ (payload.length = 0 ∨ (lib.parse (cStr payload)).isNone) := by
  simp [parsed, nonempty]

/-- The value is asked for a member whether or not it is an object. -/
theorem on_message_other {j : Json} (nonempty : payload ≠ []) (parsed : lib.parse (cStr payload) = some j)
    (other : ∀ members, j ≠ .object members) : onMessage lib stale s c payload = .asserts := by
  rw [onMessage, if_neg (on_message_parsed nonempty parsed), parsed]
  cases j with
  | object members => exact absurd rfl (other members)
  | _ => rfl

theorem on_message_orders (nonempty : payload ≠ [])
    (parsed : lib.parse (cStr payload) = some (.object members)) (orders : Orders members action a) :
    onMessage lib stale s c payload = .ofOption (command stale s a) := by
  obtain ⟨string, named, -⟩ := orders
  rw [onMessage, if_neg (on_message_parsed nonempty parsed), parsed]
  simp only [string, named]

theorem on_message_quiet (nonempty : payload ≠ [])
    (parsed : lib.parse (cStr payload) = some (.object members))
    (quiet : ∀ action a, ¬ Orders members action a) :
    onMessage lib stale s c payload = .ofOption (some s) := by
  rw [onMessage, if_neg (on_message_parsed nonempty parsed), parsed]
  dsimp only
  congr 1
  split
  next action string =>
    split
    next a named =>
      have other : a ∉ handled := fun member => quiet action a ⟨string, named, member⟩
      exact command_of_not_handled other
    next => rfl
  next => rfl

/-- No action has a NUL in its name. -/
theorem nul_not_mem_name (named : actions.lookup action = some a) : nul ∉ action := by
  obtain ⟨before, after, split, -⟩ := List.lookup_eq_some_iff.mp named
  have all : ∀ pair ∈ actions, nul ∉ pair.1 := by decide
  exact all (action, a) (split ▸ List.mem_append_right _ List.mem_cons_self)

/-- The library reads up to the first NUL, and so does the comparison with the names. -/
theorem names_iff (clean : ∀ t, nul ∈ t → lib.parse t = none)
    (parsed : lib.parse (cStr payload) = some (.object members)) (orders : Orders members action a) :
    Names lib payload ↔ nul ∉ payload ∧ nul ∉ action := by
  obtain ⟨string, named, member⟩ := orders
  constructor
  · rintro ⟨members', action', b, parsed', string', named', -⟩
    have whole : nul ∉ payload := by
      intro cut
      rw [clean payload cut] at parsed'
      cases parsed'
    rw [c_str_of_no_nul whole, parsed'] at parsed
    cases parsed
    rw [string'] at string
    cases string
    exact ⟨whole, nul_not_mem_name named'⟩
  · rintro ⟨whole, spelt⟩
    rw [c_str_of_no_nul whole] at parsed
    rw [c_str_of_no_nul spelt] at named
    exact ⟨members, action, a, parsed, string, named, member⟩

/-- With a current track whose text is an object, the call is the one on the parsed message. -/
theorem on_message_state (described : Described lib c) :
    (onMessage lib stale s c payload).state? =
      (Commands.onMessage stale s (if payload = [] then none else lib.parse (cStr payload))).filter
        (·.Defined) := by
  have answered : (reply lib s c).state? = (json s).filter (·.Defined) := by
    obtain ⟨members, parsed⟩ := described
    rw [reply, parsed, Outcome.state_of_option]
  by_cases nonempty : payload = []
  · rw [on_message_unparsed (.inl nonempty), if_pos nonempty, answered]
    rfl
  · rw [if_neg nonempty]
    cases parsed : lib.parse (cStr payload) with
    | none =>
      rw [on_message_unparsed (.inr parsed), answered]
      rfl
    | some j =>
      rw [onMessage, if_neg (on_message_parsed nonempty parsed), parsed]
      cases j with
      | object members => exact Outcome.state_of_option _
      | _ => rfl

end Cases

/-! ### Which messages are dealt with -/

/-- The payload is answered where there is something to answer with; or it is an object, and if that
names a handled action, the player can do it, its current track may be used so, and neither the payload nor
the name has a NUL, or the action is to stop a player that is stopped. -/
inductive Proper (lib : Rapidjson) (stale : Stale) (s : State) (c : Current) (payload : Text) : Prop
  | unparsed (malformed : payload = [] ∨ lib.parse (cStr payload) = none) (described : Described lib c)
      (living : s.lifetime = .alive) (placed : Placed s)
  | object (members : List (Text × Json)) (nonempty : payload ≠ [])
      (parsed : lib.parse (cStr payload) = some (.object members)) (defined : s.Defined)
      (orders : ∀ action a, Orders members action a → (command stale s a).isSome = true ∧
        Usable s a ∧ ((nul ∉ payload ∧ nul ∉ action) ∨ (a = .stop ∧ Stopped s)))

section Messages

variable {lib : Rapidjson} {stale : Stale} {s : State} {c : Current} {payload : Text}

theorem respects_of_proper (clean : ∀ t, nul ∈ t → lib.parse t = none)
    (proper : Proper lib stale s c payload) : Respects lib stale s c payload := by
  cases proper with
  | unparsed malformed described living placed =>
    refine ⟨s, ?_, fun changed => absurd rfl changed⟩
    rw [on_message_unparsed malformed]
    exact reply_eq_left_iff.mpr ⟨described, living, placed, rfl⟩
  | object members nonempty parsed defined orders =>
    by_cases quiet : ∀ action a, ¬ Orders members action a
    · refine ⟨s, ?_, fun changed => absurd rfl changed⟩
      rw [on_message_quiet nonempty parsed quiet]
      exact Outcome.of_option_eq_left_iff.mpr ⟨rfl, defined⟩
    · obtain ⟨action, a, ordered⟩ : ∃ action a, Orders members action a := by simpa using quiet
      obtain ⟨able, usable, meant⟩ := orders action a ordered
      obtain ⟨t, taken⟩ := Option.isSome_iff_exists.mp able
      refine ⟨t, ?_, fun changed => ?_⟩
      · rw [on_message_orders nonempty parsed ordered, Outcome.of_option_eq_left_iff]
        exact ⟨taken, (defined_iff_usable ordered.2.2 taken).mpr usable⟩
      · rcases meant with whole | ⟨rfl, null, empty, silent⟩
        · exact (names_iff clean parsed ordered).mpr whole
        · have same : stop s = s := by
            rw [stop, if_pos (show s.currentTrack = text "" from empty), ← null, ← silent,
              show text "" = s.currentTrack from empty.symm]
          exact absurd ((Option.some.inj taken).symm.trans same) changed

theorem proper_of_respects (clean : ∀ t, nul ∈ t → lib.parse t = none)
    (respects : Respects lib stale s c payload) : Proper lib stale s c payload := by
  obtain ⟨t, ended, meant⟩ := respects
  by_cases malformed : payload = [] ∨ lib.parse (cStr payload) = none
  · rw [on_message_unparsed malformed] at ended
    obtain ⟨described, living, placed, -⟩ := reply_eq_left_iff.mp ended
    exact .unparsed malformed described living placed
  · obtain ⟨nonempty, readable⟩ := not_or.mp malformed
    obtain ⟨j, parsed⟩ := Option.ne_none_iff_exists'.mp readable
    by_cases other : ∀ members, j ≠ .object members
    · rw [on_message_other nonempty parsed other] at ended
      cases ended
    · obtain ⟨members, rfl⟩ : ∃ members, j = .object members := by simpa using other
      by_cases quiet : ∀ action a, ¬ Orders members action a
      · rw [on_message_quiet nonempty parsed quiet, Outcome.of_option_eq_left_iff] at ended
        obtain ⟨same, defined⟩ := ended
        exact .object members nonempty parsed (Option.some.inj same ▸ defined)
          fun action a ordered => absurd ordered (quiet action a)
      obtain ⟨action, a, ordered⟩ : ∃ action a, Orders members action a := by simpa using quiet
      have before : s.Defined := by
        rw [on_message_orders nonempty parsed ordered, Outcome.of_option_eq_left_iff] at ended
        exact ((defined_iff_usable ordered.2.2 ended.1).mp ended.2).defined
      refine .object members nonempty parsed before fun action a ordered => ?_
      rw [on_message_orders nonempty parsed ordered, Outcome.of_option_eq_left_iff] at ended
      obtain ⟨taken, defined⟩ := ended
      refine ⟨by rw [taken, Option.isSome_some], (defined_iff_usable ordered.2.2 taken).mp defined, ?_⟩
      by_cases same : t = s
      · subst same
        exact .inr (stopped_of_unchanged ordered.2.2 taken)
      · exact .inl ((names_iff clean parsed ordered).mp (meant same))

end Messages

def pausing : Text := "\x7b\"Action\":\"pause\"\x7d"

/-- The library on an empty array and on one command. -/
def small : Rapidjson where
  parse := fun t =>
    if t = text "[]" then some (.array [])
    else if t = pausing then some (.object [("Action", .string "pause")])
    else none
  string := fun t => ['"'] ++ t ++ ['"']
  double := fun _ => "0.0"

theorem clean_small (t : Text) (cut : nul ∈ t) : small.parse t = none := by
  simp only [small]
  split_ifs with array object
  · subst array
    exact absurd cut (by decide)
  · subst object
    exact absurd cut (by decide)
  · rfl

/-- A player without tracks. -/
def silent : State where
  playlists := []
  playlistTables := []
  it := 0
  currentPlaylist := ⟨"", []⟩
  itTrack := ⟨none, true⟩
  currentTrack := ""
  lifetime := .alive
  isPlaying := false
  isPaused := false
  pipeline := .null
  config := ""
  plays := []

def noTrack : Current := ⟨Loading.Members.fresh ⟨0, 0, false, .number 0⟩, .number 0⟩

end Sws.Messages
