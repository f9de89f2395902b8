import Mathlib.Data.List.Induction
import Mathlib.Tactic.IntervalCases
import Sws.Joystick.Saving
import Sws.Transition

/-! `settings.conf` over the lives of many processes. Each `put` saves all settings, and a process may
be killed between any two saves. -/
namespace Sws.Settings

open Joystick.Config (Json)

/-- `config::root`. -/
def root (home prog : Text) : Text := home ++ text "/." ++ prog ++ text "/"

/-- What the constructor of `config` puts where there is no file. -/
def defaults (home prog : Text) : List (Text × Text) :=
  [("root", root home prog), ("db_file", root home prog ++ prog ++ text ".sqlite"), ("confirm", "true"),
    ("music_root", "/media/"), ("current_playlist", "db_catalog")]

/-- `config::get<string>`; none where it throws. -/
def get (settings : Ptree) (key : Text) : Option Text := (settings.find key).map Ptree.data

/-- The settings that are read before the player is constructed: in `db::db`, in
`player::file_watcher` and in `player::player`. -/
def required : List Text := ["db_file", "music_root", "current_playlist"]

/-- A process between two saves. -/
structure Process where
  settings : Ptree
  /-- What the constructor of `config` has yet to put. -/
  ahead : List (Text × Text)
  /-- The player is constructed. -/
  started : Bool

structure State where
  /-- `settings.conf`, if it exists. -/
  file : Option Text
  process : Option Process
  /-- Every put of every process, in order. -/
  log : List (Text × Text)

def initial : State := { file := none, process := none, log := [] }

inductive Action
  /-- A process begins to construct `config`. -/
  | launch
  /-- The next put of the constructor. -/
  | construct
  /-- The player is constructed. -/
  | start
  /-- `config::put` of a key without a dot; a dot separates the levels of the tree. -/
  | put (key value : Text)
  /-- `config::save_config_settings`, as in the destructor of the player. -/
  | save
  | kill

/-- `config::put`. -/
def put (json : Json) (s : State) (p : Process) (key value : Text) : State where
  file := some (json.write (p.settings.put key value))
  process := some { p with settings := p.settings.put key value }
  log := s.log ++ [(key, value)]

/-- A file that cannot be read ends the process, and so does a setting that is missing. -/
def step (json : Json) (home prog : Text) : Steps State Action
  | s, .launch =>
    match s.process, s.file with
    | some _, _ => none
    | none, none => some { s with process := some ⟨.leaf "", defaults home prog, false⟩ }
    | none, some contents => some { s with process := (json.read contents).map fun t => ⟨t, [], false⟩ }
  | s, .construct => do
    let p ← s.process
    match p.ahead with
    | [] => none
    -- After the last put the constructor saves once more, and the file stays as it is.
    | (key, value) :: rest => return put json s { p with ahead := rest } key value
  | s, .start => do
    let p ← s.process
    if p.ahead = [] then
      if ∀ key ∈ required, (get p.settings key).isSome then return { s with process := some { p with started := true } }
      else return { s with process := none }
    else none
  | s, .put key value => do
    let p ← s.process
    if p.started ∧ '.' ∉ key then return put json s p key value else none
  | s, .save => do
    let p ← s.process
    if p.started then return { s with file := some (json.write p.settings) } else none
  | s, .kill => s.process.map fun _ => { s with process := none }

def Action.constructs : Action → Bool
  | .construct => true
  | _ => false

def Action.given : Action → Option (Text × Text)
  | .put key value => some (key, value)
  | _ => none

/-- What these actions put: the settings of the constructor, one at each of its steps, then what the program
gives. -/
def puts (home prog : Text) (actions : List Action) : List (Text × Text) :=
  (defaults home prog).take (actions.countP Action.constructs) ++ actions.filterMap Action.given

/-- The tree that an action writes to the file. -/
def written (s : State) : Action → Option Ptree
  | .construct => do
    let p ← s.process
    let (key, value) ← p.ahead.head?
    return p.settings.put key value
  | .put key value => s.process.map fun p => p.settings.put key value
  | .save => s.process.map Process.settings
  | _ => none

/-- What the action writes is read as it was. -/
def Readable (json : Json) (s : State) (a : Action) : Prop := ∀ tree ∈ written s a, json.Keeps tree

/-- The value put last. -/
def latest (log : List (Text × Text)) (key : Text) : Option Text :=
  log.foldl (fun held e => if e.1 = key then some e.2 else held) none

section Puts

variable {settings : Ptree} {log : List (Text × Text)} {key value : Text}

theorem get_put (k : Text) : get (settings.put key value) k = if key = k then some value else get settings k := by
  have children : (settings.put key value).children =
      setFirst key (fun old => .node value old.children) (.leaf value) settings.children := rfl
  rw [get, Ptree.find, children, lookup_set_first]
  by_cases same : key = k
  · subst same
    rw [if_pos (beq_self_eq_true _), if_pos rfl]
    cases settings.children.lookup key <;> rfl
  · rw [if_neg (mt eq_of_beq (Ne.symm same)), if_neg same]
    rfl

theorem latest_concat (k : Text) :
    latest (log ++ [(key, value)]) k = if key = k then some value else latest log k := by
  rw [latest, List.foldl_append]
  rfl

theorem latest_is_some_iff : (latest log key).isSome ↔ key ∈ log.map Prod.fst := by
  induction log using List.reverseRecOn with
  | nil => simp [latest]
  | append_singleton log e ih =>
    rw [latest_concat, List.map_append, List.mem_append, ← ih]
    split_ifs with same
    · simp [same]
    · simp [Ne.symm same]

end Puts

/-! ### What the file holds -/

/-- The settings are the values put last. -/
def Agrees (settings : Ptree) (log : List (Text × Text)) : Prop := ∀ key, get settings key = latest log key

/-- The file holds the values put last, and before the first put there is none. -/
def Current (json : Json) (file : Option Text) (log : List (Text × Text)) : Prop :=
  (file = none ∧ log = []) ∨
    log ≠ [] ∧ ∃ contents t, file = some contents ∧ json.read contents = some t ∧ Agrees t log

structure Sound (json : Json) (home prog : Text) (s : State) : Prop where
  file : Current json s.file s.log
  settings : ∀ p ∈ s.process, Agrees p.settings s.log
  ahead : ∀ p ∈ s.process, p.ahead = [] ∨ s.log ++ p.ahead = defaults home prog
  /-- The first puts of all are those of the constructor. -/
  begun : s.log <+: defaults home prog ∨ defaults home prog <+: s.log
  started : ∀ p ∈ s.process, p.started = true → defaults home prog <+: s.log

section Runs

variable {json : Json} {home prog : Text} {s t : State} {a : Action} {actions : List Action} {p : Process}
  {key value : Text} {log : List (Text × Text)}

theorem sound_initial : Sound json home prog initial where
  file := .inl ⟨rfl, rfl⟩
  settings := by simp [initial]
  ahead := by simp [initial]
  begun := .inl (List.nil_prefix)
  started := by simp [initial]

theorem agrees_put (agrees : Agrees p.settings log) : Agrees (p.settings.put key value) (log ++ [(key, value)]) := by
  intro k
  rw [get_put, latest_concat, agrees]

theorem current_write {settings : Ptree} (agrees : Agrees settings log) (keeps : json.Keeps settings)
    (some_put : log ≠ []) : Current json (some (json.write settings)) log :=
  .inr ⟨some_put, _, settings, rfl, keeps, agrees⟩

/-- While less than the defaults has been put, a setting that every process needs is missing. -/
theorem missing_of_few (few : log.length < 5) (begun : log <+: defaults home prog) :
    latest log "current_playlist" = none := by
  have keys : log.map Prod.fst = ((defaults home prog).map Prod.fst).take log.length := by
    conv_lhs => rw [List.prefix_iff_eq_take.mp begun, List.map_take]
  have names : (defaults home prog).map Prod.fst =
      [text "root", text "db_file", text "confirm", text "music_root", text "current_playlist"] := rfl
  rw [← Option.not_isSome_iff_eq_none, latest_is_some_iff, keys, names]
  generalize log.length = n at few
  interval_cases n <;> decide

/-- Once the defaults have been put, nothing is missing. -/
theorem complete_of_defaults (begun : defaults home prog <+: log) :
    ∀ key ∈ required, (latest log key).isSome := by
  intro key member
  rw [latest_is_some_iff]
  refine (begun.map Prod.fst).subset ?_
  have names : (defaults home prog).map Prod.fst =
      [text "root", text "db_file", text "confirm", text "music_root", text "current_playlist"] := rfl
  rw [names]
  revert key
  decide

theorem defaults_of_complete (begun : log <+: defaults home prog ∨ defaults home prog <+: log)
    (complete : ∀ key ∈ required, (latest log key).isSome) : defaults home prog <+: log := by
  rcases begun with early | done
  · by_cases few : log.length < 5
    · have absent := missing_of_few few early
      have present := complete "current_playlist" (by decide)
      rw [absent] at present
      cases present
    · have length : (defaults home prog).length = 5 := rfl
      exact early.eq_of_length_le (by omega) ▸ List.prefix_rfl
  · exact done

/-- What a put does, the constructor's or a later one. -/
theorem sound_put (agrees : Agrees p.settings s.log) (keeps : json.Keeps (p.settings.put key value))
    (ahead : p.ahead = [] ∨ s.log ++ [(key, value)] ++ p.ahead = defaults home prog)
    (begun : s.log ++ [(key, value)] <+: defaults home prog ∨ defaults home prog <+: s.log ++ [(key, value)])
    (started : p.started = true → defaults home prog <+: s.log) : Sound json home prog (put json s p key value) where
  file := current_write (agrees_put agrees) keeps (List.append_ne_nil_of_right_ne_nil _ (List.cons_ne_nil _ _))
  settings := by
    rintro q member
    cases member
    exact agrees_put agrees
  ahead := by
    rintro q member
    cases member
    exact ahead
  begun := begun
  started := by
    rintro q member up
    cases member
    exact (started up).trans (List.prefix_append _ _)

theorem sound_step (s : State) (a : Action) (t : State) (sound : Sound json home prog s) (readable : Readable json s a)
    (taken : step json home prog s a = some t) : Sound json home prog t := by
  obtain ⟨file, process, log⟩ := s
  cases a with
  | launch =>
    cases process with
    | some p => cases taken
    | none =>
      cases file with
      | none =>
        cases taken
        have fresh : log = [] := by
          rcases sound.file with ⟨-, fresh⟩ | ⟨-, contents, t, absurd, -⟩
          · exact fresh
          · cases absurd
        subst fresh
        refine ⟨.inl ⟨rfl, rfl⟩, ?_, ?_, sound.begun, ?_⟩
        · rintro p member
          cases member
          exact fun key => rfl
        · rintro p member
          cases member
          exact .inr rfl
        · rintro p member up
          cases member
          cases up
      | some contents =>
        cases taken
        refine ⟨sound.file, ?_, ?_, sound.begun, ?_⟩
        · rintro p member
          obtain ⟨t, read, rfl⟩ := Option.map_eq_some_iff.mp member
          rcases sound.file with ⟨absurd, -⟩ | ⟨-, contents', t', same, read', agrees⟩
          · cases absurd
          · cases same
            cases read'.symm.trans read
            exact agrees
        · rintro p member
          obtain ⟨t, read, rfl⟩ := Option.map_eq_some_iff.mp member
          exact .inl rfl
        · rintro p member up
          obtain ⟨t, read, rfl⟩ := Option.map_eq_some_iff.mp member
          cases up
  | construct =>
    cases process with
    | none => cases taken
    | some p =>
      obtain ⟨settings, ahead, started⟩ := p
      cases ahead with
      | nil => cases taken
      | cons e rest =>
        cases taken
        have whole := (sound.ahead _ rfl).resolve_left (List.cons_ne_nil e rest)
        have begun : log ++ [e] ++ rest = defaults home prog := by
          rw [← whole, List.append_assoc, List.singleton_append]
        exact sound_put (p := ⟨settings, rest, started⟩) (sound.settings ⟨settings, e :: rest, started⟩ rfl)
          (readable _ rfl) (.inr begun) (.inl ⟨rest, begun⟩) (sound.started ⟨settings, e :: rest, started⟩ rfl)
  | start =>
    cases process with
    | none => cases taken
    | some p =>
      simp only [step, Option.bind_eq_bind, Option.bind_some, Option.ite_none_right_eq_some] at taken
      obtain ⟨done, taken⟩ := taken
      split at taken
      next complete =>
        cases taken
        refine ⟨sound.file, ?_, ?_, sound.begun, ?_⟩
        · rintro q member
          cases member
          exact sound.settings p rfl
        · rintro q member
          cases member
          exact .inl done
        · rintro q member -
          refine defaults_of_complete sound.begun fun key needed => ?_
          rw [← sound.settings p rfl key]
          exact complete key needed
      next =>
        cases taken
        exact ⟨sound.file, by simp, by simp, sound.begun, by simp⟩
  | put key value =>
    cases process with
    | none => cases taken
    | some p =>
      simp only [step, Option.bind_eq_bind, Option.bind_some, Option.ite_none_right_eq_some] at taken
      obtain ⟨⟨up, -⟩, taken⟩ := taken
      cases taken
      have done := sound.started p rfl up
      have nothing : p.ahead = [] := by
        rcases sound.ahead p rfl with none_left | whole
        · exact none_left
        · have length := congrArg List.length whole
          have enough := done.length_le
          rw [List.length_append] at length
          exact List.eq_nil_of_length_eq_zero (by omega)
      exact sound_put (sound.settings p rfl) (readable _ rfl) (.inl nothing)
        (.inr (done.trans (List.prefix_append _ _))) fun _ => done
  | save =>
    cases process with
    | none => cases taken
    | some p =>
      simp only [step, Option.bind_eq_bind, Option.bind_some, Option.ite_none_right_eq_some] at taken
      obtain ⟨up, taken⟩ := taken
      cases taken
      have some_put : log ≠ [] := by
        rintro rfl
        exact absurd (sound.started p rfl up).length_le (Nat.not_succ_le_zero 4)
      exact ⟨current_write (sound.settings p rfl) (readable _ rfl) some_put, sound.settings, sound.ahead, sound.begun,
        sound.started⟩
  | kill =>
    obtain ⟨p, -, rfl⟩ := Option.map_eq_some_iff.mp taken
    exact ⟨sound.file, by simp, by simp, sound.begun, by simp⟩

theorem sound_run (readable : (step json home prog).Along (Readable json) initial actions)
    (reached : (step json home prog).run initial actions = some s) : Sound json home prog s :=
  Steps.preserved_along sound_step readable reached sound_initial

/-! ### What the log holds -/

/-- The log is what the actions put, and the program puts nothing before the constructor is done. -/
def Tied (home prog : Text) (log : List (Text × Text)) (actions : List Action) : Prop :=
  log = puts home prog actions ∧ (actions.filterMap Action.given = [] ∨ 5 ≤ actions.countP Action.constructs)

theorem length_defaults : (defaults home prog).length = 5 := rfl

/-- An action that puts nothing. -/
theorem Tied.quiet (tied : Tied home prog log actions) (constructs : a.constructs = false) (given : a.given = none) :
    Tied home prog log (actions ++ [a]) := by
  simpa [Tied, puts, List.countP_append, List.countP_singleton, constructs, given] using tied

/-- While the constructor has something ahead, the program has put nothing. -/
theorem Tied.construct {e : Text × Text} {rest : List (Text × Text)} (tied : Tied home prog log actions)
    (ahead : log ++ e :: rest = defaults home prog) : Tied home prog (log ++ [e]) (actions ++ [.construct]) := by
  obtain ⟨same, early⟩ := tied
  have length := congrArg List.length ahead
  rw [List.length_append, List.length_cons, length_defaults] at length
  have few : actions.countP Action.constructs < 5 := by
    by_contra enough
    have long := congrArg List.length same
    rw [puts, List.length_append, List.length_take, length_defaults] at long
    omega
  have none := early.resolve_right (Nat.not_le_of_lt few)
  have count : actions.countP Action.constructs = log.length := by
    rw [same, puts, none, List.append_nil, List.length_take, length_defaults, Nat.min_eq_left few.le]
  have given : (actions ++ [Action.construct]).filterMap Action.given = [] := by
    rw [List.filterMap_append, none]
    rfl
  refine ⟨?_, .inl given⟩
  rw [puts, given, List.append_nil, List.countP_append, count, ← ahead, List.take_length_add_append]
  rfl

/-- A put of the program comes after those of the constructor. -/
theorem Tied.put (tied : Tied home prog log actions) (done : defaults home prog <+: log) :
    Tied home prog (log ++ [(key, value)]) (actions ++ [.put key value]) := by
  obtain ⟨same, early⟩ := tied
  have given : (actions ++ [Action.put key value]).filterMap Action.given =
      actions.filterMap Action.given ++ [(key, value)] := List.filterMap_append
  have count : (actions ++ [Action.put key value]).countP Action.constructs =
      actions.countP Action.constructs := by
    rw [List.countP_append]
    rfl
  refine ⟨by rw [puts, given, count, ← List.append_assoc, ← puts, ← same], .inr ?_⟩
  rw [count]
  rcases early with none | enough
  · have long := done.length_le
    rw [same, puts, none, List.append_nil, List.length_take, length_defaults] at long
    omega
  · exact enough

theorem tied_step (sound : Sound json home prog s) (tied : Tied home prog s.log actions)
    (taken : step json home prog s a = some t) : Tied home prog t.log (actions ++ [a]) := by
  obtain ⟨file, process, log⟩ := s
  cases a with
  | launch =>
    have same : t.log = log := by
      cases process with
      | some p => cases taken
      | none => cases file <;> cases taken <;> rfl
    exact same ▸ tied.quiet rfl rfl
  | construct =>
    cases process with
    | none => cases taken
    | some p =>
      obtain ⟨settings, ahead, started⟩ := p
      cases ahead with
      | nil => cases taken
      | cons e rest =>
        cases taken
        exact tied.construct ((sound.ahead _ rfl).resolve_left (List.cons_ne_nil e rest))
  | start =>
    cases process with
    | none => cases taken
    | some p =>
      simp only [step, Option.bind_eq_bind, Option.bind_some, Option.ite_none_right_eq_some] at taken
      obtain ⟨-, taken⟩ := taken
      split at taken <;> cases taken <;> exact tied.quiet rfl rfl
  | put key value =>
    cases process with
    | none => cases taken
    | some p =>
      simp only [step, Option.bind_eq_bind, Option.bind_some, Option.ite_none_right_eq_some] at taken
      obtain ⟨⟨up, -⟩, taken⟩ := taken
      cases taken
      exact tied.put (sound.started p rfl up)
  | save =>
    cases process with
    | none => cases taken
    | some p =>
      simp only [step, Option.bind_eq_bind, Option.bind_some, Option.ite_none_right_eq_some] at taken
      obtain ⟨-, taken⟩ := taken
      cases taken
      exact tied.quiet rfl rfl
  | kill =>
    obtain ⟨p, -, rfl⟩ := Option.map_eq_some_iff.mp taken
    exact tied.quiet rfl rfl

theorem tied_run {done : List Action} (sound : Sound json home prog s) (tied : Tied home prog s.log done)
    (readable : (step json home prog).Along (Readable json) s actions)
    (reached : (step json home prog).run s actions = some t) : Tied home prog t.log (done ++ actions) := by
  induction actions generalizing s done with
  | nil =>
    cases reached
    rwa [List.append_nil]
  | cons a actions ih =>
    obtain ⟨middle, taken, rest⟩ := Steps.run_cons_iff.mp reached
    obtain ⟨first, others⟩ := readable
    rw [taken] at others
    rw [List.append_cons]
    exact ih (sound_step s a middle sound first taken) (tied_step sound tied taken) others rest

theorem log_run (readable : (step json home prog).Along (Readable json) initial actions)
    (reached : (step json home prog).run initial actions = some s) : s.log = puts home prog actions :=
  have start : Tied home prog initial.log [] := ⟨rfl, .inl rfl⟩
  (tied_run sound_initial start readable reached).1

/-- **The settings are those put last.** However many processes there have been and wherever each was
killed: the file and the process hold for every key the value put last by any of them. -/
theorem settings_put_last (readable : (step json home prog).Along (Readable json) initial actions)
    (reached : (step json home prog).run initial actions = some s) :
    s.log = puts home prog actions ∧ Current json s.file s.log ∧ ∀ p ∈ s.process, Agrees p.settings s.log :=
  have sound := sound_run readable reached
  ⟨log_run readable reached, sound.file, sound.settings⟩

/-- What `write_json` makes of one and of two settings. -/
def oneSaved : Text := text "\x7b\n    \"root\": \"\\/home\\/u\\/.sws\\/\"\n\x7d\n"

def twoSaved : Text :=
  text "\x7b\n    \"root\": \"\\/home\\/u\\/.sws\\/\",\n" ++
  text "    \"db_file\": \"\\/home\\/u\\/.sws\\/sws.sqlite\"\n\x7d\n"

def oneTree : Ptree := .node "" [("root", .leaf "/home/u/.sws/")]

def twoTree : Ptree := .node "" [("root", .leaf "/home/u/.sws/"), ("db_file", .leaf "/home/u/.sws/sws.sqlite")]

/-- What is read from and written to these files. -/
def twoJson : Json where
  read contents := if contents = oneSaved then some oneTree else if contents = twoSaved then some twoTree else none
  write tree := if tree.children.length = 1 then oneSaved else twoSaved

/-- A first run that is killed after two puts, and another that finds what they left. -/
def killed : List Action := [.launch, .construct, .construct, .kill, .launch, .kill]

theorem killed_readable : (step twoJson "/home/u" "sws").Along (Readable twoJson) initial killed := by
  have quiet {s : State} {a : Action} (silent : written s a = none) : Readable twoJson s a := by
    intro tree member
    rw [silent] at member
    cases member
  refine ⟨quiet rfl, ?_, ?_, quiet rfl, quiet rfl, quiet rfl, trivial⟩
  · rintro tree ⟨⟩
    exact (rfl : twoJson.read oneSaved = some oneTree)
  · rintro tree ⟨⟩
    exact (rfl : twoJson.read twoSaved = some twoTree)

theorem two_settings_put_last :
    Current twoJson (some twoSaved) ((defaults "/home/u" "sws").take 2) :=
  (settings_put_last killed_readable rfl).2.1

/-! ### A first run that was killed -/

def Started (s : State) : Prop := ∃ p ∈ s.process, p.started = true

/-- The file lacks a setting that every process needs, and no process will put it. -/
def Stuck (json : Json) (s : State) : Prop :=
  ∃ contents t, s.file = some contents ∧ json.read contents = some t ∧ get t "current_playlist" = none ∧
    ∀ p ∈ s.process, p = ⟨t, [], false⟩

theorem stuck_step (s : State) (a : Action) (t : State) (stuck : Stuck json s)
    (taken : step json home prog s a = some t) : Stuck json t := by
  obtain ⟨file, process, log⟩ := s
  obtain ⟨contents, tree, rfl, read, missing, only⟩ := stuck
  cases process with
  | none =>
    cases a with
    | launch =>
      cases taken
      refine ⟨contents, tree, rfl, read, missing, ?_⟩
      simp only [read]
      rintro p member
      cases member
      rfl
    | _ => cases taken
  | some p =>
    obtain rfl := only p rfl
    cases a with
    | start =>
      have incomplete : ¬ ∀ key ∈ required, (get tree key).isSome := by
        intro all
        have present := all "current_playlist" (by decide)
        rw [missing] at present
        cases present
      simp only [step, Option.bind_eq_bind, Option.bind_some, ↓reduceIte, incomplete] at taken
      cases taken
      exact ⟨contents, tree, rfl, read, missing, by simp⟩
    | kill =>
      cases taken
      exact ⟨contents, tree, rfl, read, missing, by simp⟩
    | _ => cases taken

theorem stuck_of_few (sound : Sound json home prog s) (down : s.process = none) (some_put : s.log ≠ [])
    (few : s.log.length < 5) : Stuck json s := by
  rcases sound.file with ⟨-, empty⟩ | ⟨-, contents, t, file, read, agrees⟩
  · exact absurd empty some_put
  · have begun : s.log <+: defaults home prog := by
      rcases sound.begun with early | done
      · exact early
      · have length : (defaults home prog).length = 5 := rfl
        have enough := done.length_le
        omega
    exact ⟨contents, t, file, read, (agrees _).trans (missing_of_few few begun), by simp [down]⟩

theorem reaches_started_of_new (file : s.file = none) (down : s.process = none) :
    ∃ t, (step json home prog).Reaches (fun _ => True) s t ∧ Started t := by
  obtain ⟨_, _, log⟩ := s
  cases file
  cases down
  exact ⟨_, ⟨[.launch, .construct, .construct, .construct, .construct, .construct, .start], by simp, rfl⟩, _, rfl, rfl⟩

theorem reaches_started_of_complete (sound : Sound json home prog s) (down : s.process = none)
    (enough : 5 ≤ s.log.length) : ∃ t, (step json home prog).Reaches (fun _ => True) s t ∧ Started t := by
  obtain ⟨file, process, log⟩ := s
  cases down
  rcases sound.file with ⟨-, rfl⟩ | ⟨-, contents, t, rfl, read, agrees⟩
  · simp at enough
  · have length : (defaults home prog).length = 5 := rfl
    have done : defaults home prog <+: log := by
      rcases sound.begun with early | done
      · exact early.eq_of_length_le (length ▸ enough) ▸ List.prefix_rfl
      · exact done
    have complete : ∀ key ∈ required, (get t key).isSome := by
      intro key member
      rw [agrees]
      exact complete_of_defaults done key member
    let up : State := { file := some contents, process := some ⟨t, [], true⟩, log := log }
    have launched : step json home prog ⟨some contents, none, log⟩ .launch =
        some ⟨some contents, some ⟨t, [], false⟩, log⟩ := by
      simp only [step, read, Option.map_some]
    have started : step json home prog ⟨some contents, some ⟨t, [], false⟩, log⟩ .start = some up := by
      simp only [step, Option.bind_eq_bind, Option.bind_some, ↓reduceIte]
      exact if_pos complete
    exact ⟨up, (Steps.Reaches.single trivial launched).trans (Steps.Reaches.single trivial started), _, rfl, rfl⟩

end Runs

end Sws.Settings
