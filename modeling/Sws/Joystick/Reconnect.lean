import Mathlib.Logic.Function.Basic
import Sws.Joystick.Monitor
import Sws.Joystick.Plug
import Sws.Transition

/-! The udev thread and the monitor threads side by side. `joystick::js_plug` is taken statement by
statement: it exchanges the file, waits for the monitor to end, starts another, and changes the settings
while that one reads them. -/
namespace Sws.Joystick.Reconnect

open Config
open Monitor (JsValue Tracks)

/-- Where a thread is in `joystick::monitor`. -/
inductive MonitorAt
  /-- Before `is_monitoring` is tested. -/
  | testing
  | reading
  /-- A record has been read, from the file with this number. -/
  | handling (file : Nat) (j : JsValue)

/-- A record that a thread has dealt with. -/
structure Handled where
  file : Nat
  record : JsValue
  fired : Option ActionType

structure Thread where
  place : MonitorAt
  arrays : Monitor.State
  history : List Handled

def Thread.begin : Thread := { place := .testing, arrays := Monitor.start, history := [] }

/-- The records a thread has dealt with. -/
def Thread.records (th : Thread) : List JsValue := th.history.map Handled.record

/-- Where the udev thread is in `joystick::js_plug`. -/
inductive UdevAt
  /-- In `select`. -/
  | selecting
  /-- Before `close`; whether `open` will succeed is the device's affair. -/
  | closing (e : Plug) (opens : Bool)
  | opening (e : Plug) (opens : Bool)
  /-- In `joystick::reconnect`, before `is_monitoring` is tested. -/
  | asking (e : Plug)
  | lowering (e : Plug)
  | joining (e : Plug)
  | raising (e : Plug)
  | launching (e : Plug)
  /-- Before the numbers of the device are compared. -/
  | comparing (e : Plug)
  /-- In `joystick::load_config`, before `settings.clear`. -/
  | clearing (e : Plug)
  | parsing (e : Plug)
  /-- In its loop, with the entries that are left. -/
  | inserting (entries : List (Text × Ptree))

structure State where
  config : Config.State
  isMonitoring : Bool
  /-- The file that `fd_joystick` stands for, none where a read fails. -/
  fd : Option Nat
  /-- How often `open` has been called. -/
  opened : Nat
  /-- The records of that file that have not been read. -/
  pending : List JsValue
  threads : Nat → Option Thread
  /-- The thread that `m_thread` stands for. -/
  mThread : Nat
  udev : UdevAt
  /-- An exception has left a thread, and that ends the program. -/
  dead : Bool
  /-- The devices reported so far. -/
  events : List Plug

/-- `m_thread` has just been started. -/
def initial (config : Config.State) (present : Bool) : State where
  config := config
  isMonitoring := true
  fd := if present then some 0 else none
  opened := 1
  pending := []
  threads := Function.update (fun _ => none) 0 (some .begin)
  mThread := 0
  udev := .selecting
  dead := false
  events := []

inductive Action
  /-- `select` returns with a device. -/
  | report (e : Plug) (opens : Bool)
  /-- The device of the open file has another record. -/
  | arrive (j : JsValue)
  /-- The next statement of the udev thread. -/
  | udev
  /-- The next statement of a monitor thread. -/
  | monitor (i : Nat)

/-! ### Loading -/

/-- The part of `joystick::load_config` between `settings.clear` and the loop: the numbers and the
section. -/
def choose (json : Json) (udev : Udev) (c : Config.State) : Option ((Nat × Nat) × Ptree) := do
  let ids := if c.vendorId = 0 ∨ c.productId = 0 then getHwidsByPath udev c.devPath else c.ids
  let pt ← sections json c.contents
  let js ← chooseSection pt (hwid ids)
  return (ids, js)

def chosen (c : Config.State) (ids : Nat × Nat) : Config.State :=
  { c with vendorId := ids.1, productId := ids.2, file := some c.contents }

/-- The loop for the entries that are left. -/
def insertAll (entries : List (Text × Ptree)) (c : Config.State) : Option Config.State :=
  (entries.foldlM readEntry c.settings).map fun settings => { c with settings := settings }

def parse (json : Json) (udev : Udev) (c : Config.State) : Option Config.State :=
  (choose json udev c).bind fun (ids, js) => insertAll js.children (chosen c ids)

/-! ### Steps -/

/-- A device that `joystick::js_plug` opens. -/
def Opens (e : Plug) : Prop := e.action = text "add" ∧ e.devnode.take 13 = text "/dev/input/js"

instance (e : Plug) : Decidable (Opens e) := inferInstanceAs (Decidable (_ ∧ _))

/-- The device has numbers, and both differ from those that are known. -/
def Differs (e : Plug) (c : Config.State) : Prop :=
  (e.idVendor ≠ 0 ∧ e.idProduct ≠ 0) ∧ e.idVendor ≠ c.vendorId ∧ e.idProduct ≠ c.productId

instance (e : Plug) (c : Config.State) : Decidable (Differs e c) := inferInstanceAs (Decidable (_ ∧ _))

def identified (e : Plug) (c : Config.State) : Config.State :=
  { c with vendorId := e.idVendor, productId := e.idProduct }

def udevStep (json : Json) (s : State) : Option State :=
  match s.udev with
  | .selecting => none
  | .closing e opens => some { s with fd := none, pending := [], udev := .opening e opens }
  | .opening e opens => some { s with
      fd := if opens then some s.opened else none
      opened := s.opened + 1
      udev := .asking e }
  | .asking e => some { s with udev := if s.isMonitoring then .lowering e else .comparing e }
  | .lowering e => some { s with isMonitoring := false, udev := .joining e }
  | .joining e => if (s.threads s.mThread).isNone then some { s with udev := .raising e } else none
  | .raising e => some { s with isMonitoring := true, udev := .launching e }
  | .launching e => some { s with
      threads := Function.update s.threads (s.mThread + 1) (some .begin)
      mThread := s.mThread + 1
      udev := .comparing e }
  | .comparing e =>
    if Differs e s.config then some { s with config := identified e s.config, udev := .clearing e }
    else some { s with udev := .selecting }
  | .clearing e => some { s with config := { s.config with settings := ∅ }, udev := .parsing e }
  | .parsing e =>
    match choose json e.udev s.config with
    | none => some { s with dead := true }
    | some (ids, js) => some { s with config := chosen s.config ids, udev := .inserting js.children }
  | .inserting [] => some { s with udev := .selecting }
  | .inserting (entry :: rest) =>
    match readEntry s.config.settings entry with
    | none => some { s with dead := true }
    | some settings => some { s with config := { s.config with settings := settings }, udev := .inserting rest }

def monitorStep (s : State) (i : Nat) : Option State := do
  let th ← s.threads i
  match th.place with
  | .testing =>
    if s.isMonitoring then
      return { s with threads := Function.update s.threads i (some { th with place := .reading }) }
    else return { s with threads := Function.update s.threads i none }
  | .reading =>
    match s.fd, s.pending with
    | some n, j :: rest => return { s with
        pending := rest
        threads := Function.update s.threads i (some { th with place := .handling n j }) }
    | _, _ => return { s with threads := Function.update s.threads i (some { th with place := .testing }) }
  | .handling n j =>
    match Monitor.handle s.config.settings th.arrays j with
    | .error _ => return { s with dead := true }
    | .ok (arrays, fired) => return { s with
        threads := Function.update s.threads i
          (some { place := .testing, arrays := arrays, history := th.history ++ [⟨n, j, fired⟩] }) }

def step (json : Json) : Steps State Action := fun s a =>
  if s.dead then none
  else
    match a with
    | .report e opens =>
      match s.udev with
      | .selecting =>
        let s := { s with events := s.events ++ [e] }
        if Opens e then
          some { s with config := { s.config with devPath := e.devnode }, udev := .closing e opens }
        else some s
      | _ => none
    | .arrive j => if s.fd.isSome then some { s with pending := s.pending ++ [j] } else none
    | .udev => udevStep json s
    | .monitor i => monitorStep s i

/-! ### What the rest of the code makes of the settings -/

/-- `joystick::js_plug` from the comparison on. -/
def compare (json : Json) (e : Plug) (c : Config.State) : Option Config.State :=
  if Differs e c then parse json e.udev { identified e c with settings := ∅ } else some c

/-- The configuration at the end of `joystick::js_plug`, from any point in it. -/
def remaining (json : Json) : UdevAt → Config.State → Option Config.State
  | .selecting, c => some c
  | .closing e _, c | .opening e _, c | .asking e, c | .lowering e, c | .joining e, c | .raising e, c
  | .launching e, c | .comparing e, c => compare json e c
  | .clearing e, c => parse json e.udev { c with settings := ∅ }
  | .parsing e, c => parse json e.udev c
  | .inserting entries, c => insertAll entries c

section Configuration

variable {json : Json} {c : Config.State} {e : Plug} {s t : State}

theorem load_config_eq_parse (udev : Udev) (c : Config.State) :
    loadConfig json udev c = parse json udev { c with settings := ∅ } := by
  have contents : Config.State.contents { c with settings := ∅ } = c.contents := rfl
  have ids : Config.State.ids { c with settings := ∅ } = c.ids := rfl
  simp only [loadConfig, parse, choose, configured, insertAll, chosen, readSection, contents, ids]
  cases sections json c.contents with
  | none => rfl
  | some pt =>
    dsimp only [Option.bind_eq_bind, Option.bind_some]
    generalize chooseSection pt _ = section_
    cases section_ with
    | none => rfl
    | some js =>
      dsimp only [Option.bind_some, Option.pure_def]
      cases js.children.foldlM readEntry ∅ <;> rfl

/-- The statements together are the function. -/
theorem js_plug_eq (json : Json) (c : Config.State) (e : Plug) :
    jsPlug json c e = if Opens e then compare json e { c with devPath := e.devnode } else some c := by
  by_cases opens : e.action = text "add" ∧ e.devnode.take 13 = text "/dev/input/js"
  · have same : Opens e := opens
    rw [jsPlug, if_pos opens, if_pos same, compare]
    dsimp only
    by_cases numbered : e.idVendor ≠ 0 ∧ e.idProduct ≠ 0
    · rw [if_pos numbered]
      by_cases differ : e.idVendor ≠ c.vendorId ∧ e.idProduct ≠ c.productId
      · rw [if_pos differ, if_pos ⟨numbered, differ⟩, load_config_eq_parse]
        rfl
      · rw [if_neg differ, if_neg fun both => differ both.2]
    · rw [if_neg numbered, if_neg fun both => numbered both.1]
  · have other : ¬ Opens e := opens
    rw [jsPlug, if_neg opens, if_neg other]

/-- A statement of the udev thread does its part of what is left, and it ends the program only where
nothing can come of that. -/
theorem remaining_udev (taken : udevStep json s = some t) :
    (t.dead = s.dead ∧ remaining json t.udev t.config = remaining json s.udev s.config) ∨
      (t.dead = true ∧ remaining json s.udev s.config = none) := by
  obtain ⟨c, isMonitoring, fd, opened, pending, threads, mThread, udev, dead, events⟩ := s
  cases udev with
  | selecting => cases taken
  | asking e =>
    cases taken
    cases isMonitoring <;> exact .inl ⟨rfl, rfl⟩
  | joining e =>
    simp only [udevStep, Option.ite_none_right_eq_some] at taken
    obtain ⟨-, taken⟩ := taken
    cases taken
    exact .inl ⟨rfl, rfl⟩
  | comparing e =>
    simp only [udevStep] at taken
    split at taken
    next differ =>
      cases taken
      exact .inl ⟨rfl, (if_pos differ).symm⟩
    next same =>
      cases taken
      exact .inl ⟨rfl, (if_neg same).symm⟩
  | parsing e =>
    simp only [udevStep] at taken
    split at taken
    next failed =>
      cases taken
      exact .inr ⟨rfl, by rw [remaining, parse, failed, Option.bind_none]⟩
    next ids js found =>
      cases taken
      exact .inl ⟨rfl, by rw [remaining, remaining, parse, found, Option.bind_some]⟩
  | inserting entries =>
    cases entries with
    | nil =>
      cases taken
      exact .inl ⟨rfl, rfl⟩
    | cons entry rest =>
      simp only [udevStep] at taken
      have whole : remaining json (.inserting (entry :: rest)) c =
          (readEntry c.settings entry).bind fun settings => insertAll rest { c with settings := settings } := by
        rw [remaining, insertAll, List.foldlM_cons]
        cases readEntry c.settings entry <;> rfl
      split at taken
      next failed =>
        cases taken
        exact .inr ⟨rfl, by rw [whole, failed, Option.bind_none]⟩
      next settings read =>
        cases taken
        exact .inl ⟨rfl, by rw [whole, read, Option.bind_some, remaining]⟩
  | _ =>
    cases taken
    exact .inl ⟨rfl, rfl⟩

/-- A monitor thread leaves the configuration and the udev thread. -/
theorem monitor_step_frame {i : Nat} (taken : monitorStep s i = some t) :
    t.config = s.config ∧ t.udev = s.udev ∧ t.isMonitoring = s.isMonitoring ∧ t.mThread = s.mThread ∧ t.fd = s.fd ∧
      t.events = s.events := by
  obtain ⟨th, -, taken⟩ := Option.bind_eq_some_iff.mp taken
  split at taken
  · split at taken <;> cases taken <;> exact ⟨rfl, rfl, rfl, rfl, rfl, rfl⟩
  · split at taken <;> cases taken <;> exact ⟨rfl, rfl, rfl, rfl, rfl, rfl⟩
  · split at taken <;> cases taken <;> exact ⟨rfl, rfl, rfl, rfl, rfl, rfl⟩

end Configuration

/-! ### One monitor thread -/

namespace UdevAt

/-- `is_monitoring` has been lowered. -/
def lowered : UdevAt → Bool
  | .joining _ | .raising _ => true
  | _ => false

/-- The thread has been joined and no other started. -/
def between : UdevAt → Bool
  | .raising _ | .launching _ => true
  | _ => false

/-- The file has been exchanged, and the thread that read the old one may still run. -/
def overlaps : UdevAt → Bool
  | .opening .. | .asking _ | .lowering _ | .joining _ => true
  | _ => false

end UdevAt

/-- The thread has read this file alone. -/
structure ReadsOnly (fd : Option Nat) (th : Thread) : Prop where
  history : ∀ r ∈ th.history, fd = some r.file
  hand : ∀ n j, th.place = .handling n j → fd = some n

structure Sound (json : Json) (config : Config.State) (s : State) : Prop where
  follows : s.dead = false → remaining json s.udev s.config = (jsPlug json).run config s.events
  flag : s.isMonitoring = !s.udev.lowered
  only : ∀ i, (s.threads i).isSome → i = s.mThread
  ended : s.udev.between = true → s.threads s.mThread = none
  running : s.udev.lowered = false → s.udev.between = false → (s.threads s.mThread).isSome
  tracks : ∀ i, ∀ th ∈ s.threads i, Tracks th.arrays th.records
  source : s.udev.overlaps = false → ∀ i, ∀ th ∈ s.threads i, ReadsOnly s.fd th

section Threads

variable {json : Json} {config : Config.State} {s t : State} {i : Nat} {th : Thread}

theorem sound_initial (present : Bool) : Sound json config (initial config present) where
  follows _ := rfl
  flag := rfl
  only := by
    intro i running
    by_contra other
    have later : i ≠ 0 := other
    simp [initial, later] at running
  ended := by simp [initial, UdevAt.between]
  running := by simp [initial]
  tracks := by
    rintro i th member
    by_cases first : i = 0
    · subst first
      cases member
      exact Monitor.tracks_start
    · simp [initial, first] at member
  source := by
    rintro - i th member
    by_cases first : i = 0
    · subst first
      cases member
      exact ⟨List.forall_mem_nil _, fun n j absurd => by cases absurd⟩
    · simp [initial, first] at member

/-- Whatever is fired, the arrays are these. -/
theorem arrays_of_elim {settings : Settings} {arrays after : Monitor.State} {fired : Option ActionType}
    {code : Option Nat} (handled : code.elim (.ok (arrays, none)) (fun code =>
      (Monitor.binding settings code).map fun action => (arrays, some action)) = .ok (after, fired)) :
    after = arrays := by
  cases code with
  | none =>
    cases handled
    rfl
  | some code =>
    rw [Option.elim_some] at handled
    cases bound : Monitor.binding settings code with
    | error fault =>
      rw [bound] at handled
      cases handled
    | ok action =>
      rw [bound] at handled
      cases handled
      rfl

/-- The arrays keep up with the records. -/
theorem handle_tracks {settings : Settings} {arrays after : Monitor.State} {j : JsValue} {fired : Option ActionType}
    {history : List JsValue} (tracks : Tracks arrays history)
    (handled : Monitor.handle settings arrays j = .ok (after, fired)) : Tracks after (history ++ [j]) := by
  by_cases bound : j.Indexes → j.button.toNat < 24
  · obtain ⟨kept, now, same⟩ := Monitor.handle_tracks settings tracks bound
    rw [same] at handled
    exact arrays_of_elim handled ▸ now
  · obtain ⟨indexes, out⟩ := Classical.not_imp.mp bound
    rw [Monitor.handle_out settings arrays indexes out] at handled
    cases handled

/-- What a statement of a monitor thread does to the threads. -/
theorem monitor_step_threads (taken : monitorStep s i = some t) : ∃ th, s.threads i = some th ∧
    ((t.dead = true ∧ t.threads = s.threads) ∨ t.dead = s.dead ∧ ∃ next, t.threads = Function.update s.threads i next ∧
      ((next = none ∧ s.isMonitoring = false) ∨ ∃ th', next = some th' ∧
        (Tracks th.arrays th.records → Tracks th'.arrays th'.records) ∧ (ReadsOnly s.fd th → ReadsOnly s.fd th'))) := by
  obtain ⟨th, running, taken⟩ := Option.bind_eq_some_iff.mp taken
  refine ⟨th, running, ?_⟩
  split at taken
  next testing =>
    split at taken
    next up =>
      cases taken
      exact .inr ⟨rfl, _, rfl, .inr ⟨_, rfl, id, fun only => ⟨only.history, fun n j absurd => by cases absurd⟩⟩⟩
    next down =>
      cases taken
      exact .inr ⟨rfl, _, rfl, .inl ⟨rfl, Bool.eq_false_iff.mpr down⟩⟩
  next reading =>
    split at taken
    next n j rest fd _ =>
      cases taken
      refine .inr ⟨rfl, _, rfl, .inr ⟨_, rfl, id, fun only => ⟨only.history, fun n' j' same => ?_⟩⟩⟩
      cases same
      exact fd
    next =>
      cases taken
      exact .inr ⟨rfl, _, rfl, .inr ⟨_, rfl, id, fun only => ⟨only.history, fun n j absurd => by cases absurd⟩⟩⟩
  next n j hand =>
    split at taken
    next => exact .inl (by cases taken; exact ⟨rfl, rfl⟩)
    next arrays fired handled =>
      cases taken
      refine .inr ⟨rfl, _, rfl, .inr ⟨_, rfl, fun tracks => ?_, fun only => ⟨?_, fun n j absurd => by cases absurd⟩⟩⟩
      · rw [Thread.records, List.map_append]
        exact handle_tracks tracks handled
      · exact List.forall_mem_append.mpr ⟨only.history, List.forall_mem_singleton.mpr (only.hand n j hand)⟩

/-- Where the threads stay as they are, it is the places that matter. -/
theorem Sound.kept (sound : Sound json config s) (threads : t.threads = s.threads) (same : t.mThread = s.mThread)
    (follows : t.dead = false → remaining json t.udev t.config = (jsPlug json).run config t.events)
    (flag : t.isMonitoring = !t.udev.lowered)
    (ended : t.udev.between = true → s.threads s.mThread = none)
    (running : t.udev.lowered = false → t.udev.between = false → s.udev.lowered = false ∧ s.udev.between = false)
    (source : t.udev.overlaps = false →
      (s.udev.overlaps = false ∧ t.fd = s.fd) ∨ s.threads s.mThread = none) : Sound json config t where
  follows := follows
  flag := flag
  only := by
    rw [threads, same]
    exact sound.only
  ended up := by
    rw [threads, same]
    exact ended up
  running down outside := by
    obtain ⟨before, before'⟩ := running down outside
    rw [threads, same]
    exact sound.running before before'
  tracks := by
    rw [threads]
    exact sound.tracks
  source apart i th member := by
    rw [threads] at member
    rcases source apart with ⟨before, fd⟩ | gone
    · rw [fd]
      exact sound.source before i th member
    · have own := sound.only i (by rw [member]; rfl)
      rw [own, gone] at member
      cases member

theorem udev_events (taken : udevStep json s = some t) : t.events = s.events := by
  obtain ⟨c, isMonitoring, fd, opened, pending, threads, mThread, udev, dead, events⟩ := s
  cases udev with
  | selecting => cases taken
  | joining e =>
    obtain ⟨-, taken⟩ := Option.ite_none_right_eq_some.mp taken
    cases taken
    rfl
  | comparing e =>
    simp only [udevStep] at taken
    split at taken <;> cases taken <;> rfl
  | parsing e =>
    simp only [udevStep] at taken
    split at taken <;> cases taken <;> rfl
  | inserting entries =>
    cases entries with
    | nil =>
      cases taken
      rfl
    | cons entry rest =>
      simp only [udevStep] at taken
      split at taken <;> cases taken <;> rfl
  | _ =>
    cases taken
    rfl

theorem sound_udev (sound : Sound json config s) (alive : s.dead = false) (taken : udevStep json s = some t) :
    Sound json config t := by
  have follows : t.dead = false → remaining json t.udev t.config = (jsPlug json).run config t.events := by
    intro still
    rw [udev_events taken]
    rcases remaining_udev taken with ⟨-, same⟩ | ⟨ended, -⟩
    · exact same.trans (sound.follows alive)
    · rw [ended] at still
      cases still
  obtain ⟨c, isMonitoring, fd, opened, pending, threads, mThread, udev, dead, events⟩ := s
  obtain rfl : isMonitoring = !udev.lowered := sound.flag
  cases udev with
  | selecting => cases taken
  | closing e opens =>
    cases taken
    exact sound.kept rfl rfl follows rfl (by simp [UdevAt.between]) (fun _ _ => ⟨rfl, rfl⟩) (by simp [UdevAt.overlaps])
  | opening e opens =>
    cases taken
    exact sound.kept rfl rfl follows rfl (by simp [UdevAt.between]) (fun _ _ => ⟨rfl, rfl⟩) (by simp [UdevAt.overlaps])
  | asking e =>
    cases taken
    exact sound.kept rfl rfl follows rfl (by simp [UdevAt.lowered, UdevAt.between]) (fun _ _ => ⟨rfl, rfl⟩)
      (by simp [UdevAt.lowered, UdevAt.overlaps])
  | lowering e =>
    cases taken
    exact sound.kept rfl rfl follows rfl (by simp [UdevAt.between]) (fun down => by cases down)
      (by simp [UdevAt.overlaps])
  | joining e =>
    obtain ⟨gone, taken⟩ := Option.ite_none_right_eq_some.mp taken
    cases taken
    have none_there := Option.isNone_iff_eq_none.mp gone
    exact sound.kept rfl rfl follows rfl (fun _ => none_there) (fun down => by cases down) (fun _ => .inr none_there)
  | raising e =>
    cases taken
    have none_there := sound.ended rfl
    exact sound.kept rfl rfl follows rfl (fun _ => none_there) (fun _ outside => by cases outside)
      (fun _ => .inr none_there)
  | launching e =>
    cases taken
    have none_there : threads mThread = none := sound.ended rfl
    have nobody (i : Nat) : threads i = none := by
      by_contra running
      have own : i = mThread := sound.only i (Option.isSome_iff_ne_none.mpr running)
      exact running (own ▸ none_there)
    have fresh (i : Nat) (th : Thread) (member : th ∈ Function.update threads (mThread + 1) (some .begin) i) :
        i = mThread + 1 ∧ th = .begin := by
      by_cases own : i = mThread + 1
      · subst own
        rw [Function.update_self] at member
        cases member
        exact ⟨rfl, rfl⟩
      · rw [Function.update_of_ne own, nobody] at member
        cases member
    refine ⟨follows, rfl, ?_, by simp [UdevAt.between], by simp, ?_, ?_⟩
    · intro i running
      obtain ⟨th, member⟩ := Option.isSome_iff_exists.mp running
      exact (fresh i th member).1
    · intro i th member
      obtain ⟨-, rfl⟩ := fresh i th member
      exact Monitor.tracks_start
    · intro _ i th member
      obtain ⟨-, rfl⟩ := fresh i th member
      exact ⟨List.forall_mem_nil _, fun n j absurd => by cases absurd⟩
  | comparing e =>
    simp only [udevStep] at taken
    split at taken <;> cases taken <;>
      exact sound.kept rfl rfl follows rfl (by simp [UdevAt.between]) (fun _ _ => ⟨rfl, rfl⟩) (fun _ => .inl ⟨rfl, rfl⟩)
  | clearing e =>
    cases taken
    exact sound.kept rfl rfl follows rfl (by simp [UdevAt.between]) (fun _ _ => ⟨rfl, rfl⟩) (fun _ => .inl ⟨rfl, rfl⟩)
  | parsing e =>
    simp only [udevStep] at taken
    split at taken <;> cases taken <;>
      exact sound.kept rfl rfl follows rfl (by simp [UdevAt.between]) (fun _ _ => ⟨rfl, rfl⟩) (fun _ => .inl ⟨rfl, rfl⟩)
  | inserting entries =>
    cases entries with
    | nil =>
      cases taken
      exact sound.kept rfl rfl follows rfl (by simp [UdevAt.between]) (fun _ _ => ⟨rfl, rfl⟩) (fun _ => .inl ⟨rfl, rfl⟩)
    | cons entry rest =>
      simp only [udevStep] at taken
      split at taken <;> cases taken <;>
        exact sound.kept rfl rfl follows rfl (by simp [UdevAt.between]) (fun _ _ => ⟨rfl, rfl⟩)
          (fun _ => .inl ⟨rfl, rfl⟩)

theorem sound_monitor (sound : Sound json config s) (alive : s.dead = false) (taken : monitorStep s i = some t) :
    Sound json config t := by
  obtain ⟨same, place, flag, mThread, fd, events⟩ := monitor_step_frame taken
  have follows : t.dead = false → remaining json t.udev t.config = (jsPlug json).run config t.events := by
    intro _
    rw [same, place, events]
    exact sound.follows alive
  obtain ⟨th, running, ⟨dead, threads⟩ | ⟨-, next, threads, change⟩⟩ := monitor_step_threads taken
  · refine sound.kept threads mThread follows (by rw [flag, place]; exact sound.flag) ?_ ?_ ?_
    · rw [place]
      exact sound.ended
    · rw [place]
      exact fun down outside => ⟨down, outside⟩
    · rw [place]
      exact fun apart => .inl ⟨apart, fd⟩
  · have own : i = s.mThread := sound.only i (by rw [running]; rfl)
    subst own
    have there (k : Nat) (th' : Thread) (member : th' ∈ t.threads k) : k = s.mThread ∧ next = some th' := by
      rw [threads] at member
      by_cases own : k = s.mThread
      · subst own
        rw [Function.update_self] at member
        exact ⟨rfl, member⟩
      · rw [Function.update_of_ne own] at member
        exact absurd (sound.only k (by rw [member]; rfl)) own
    refine ⟨follows, by rw [flag, place]; exact sound.flag, ?_, ?_, ?_, ?_, ?_⟩
    · intro k running'
      obtain ⟨th', member⟩ := Option.isSome_iff_exists.mp running'
      rw [mThread]
      exact (there k th' member).1
    · rw [place]
      intro up
      rw [sound.ended up] at running
      cases running
    · rw [place, mThread, threads, Function.update_self]
      intro down outside
      rcases change with ⟨rfl, ended⟩ | ⟨th', rfl, -⟩
      · rw [sound.flag, down] at ended
        cases ended
      · rfl
    · intro k th' member
      obtain ⟨rfl, rfl⟩ := there k th' member
      rcases change with ⟨absurd, -⟩ | ⟨th'', same', tracks, -⟩
      · cases absurd
      · cases same'
        exact tracks (sound.tracks _ th running)
    · rw [place, fd]
      intro apart k th' member
      obtain ⟨rfl, rfl⟩ := there k th' member
      rcases change with ⟨absurd, -⟩ | ⟨th'', same', -, only⟩
      · cases absurd
      · cases same'
        exact only (sound.source apart _ th running)

theorem sound_step (s : State) (a : Action) (t : State) (sound : Sound json config s)
    (taken : step json s a = some t) : Sound json config t := by
  obtain ⟨alive, taken⟩ := Option.ite_none_left_eq_some.mp taken
  rw [Bool.not_eq_true] at alive
  cases a with
  | report e opens =>
    obtain ⟨c, isMonitoring, fd, opened, pending, threads, mThread, udev, dead, events⟩ := s
    obtain rfl : isMonitoring = !udev.lowered := sound.flag
    cases udev with
    | selecting =>
      have before : some c = (jsPlug json).run config events := sound.follows alive
      have after : (jsPlug json).run config (events ++ [e]) = jsPlug json c e := by
        rw [Steps.run_concat, ← before, Option.bind_some]
      simp only at taken
      split at taken
      next opens' =>
        cases taken
        refine sound.kept rfl rfl (fun _ => ?_) rfl (by simp [UdevAt.between]) (fun _ _ => ⟨rfl, rfl⟩)
          (fun _ => .inl ⟨rfl, rfl⟩)
        rw [after, js_plug_eq, if_pos opens']
        rfl
      next other =>
        cases taken
        refine sound.kept rfl rfl (fun _ => ?_) rfl (by simp [UdevAt.between]) (fun _ _ => ⟨rfl, rfl⟩)
          (fun _ => .inl ⟨rfl, rfl⟩)
        rw [after, js_plug_eq, if_neg other]
        rfl
    | _ => cases taken
  | arrive j =>
    obtain ⟨-, taken⟩ := Option.ite_none_right_eq_some.mp taken
    cases taken
    exact sound.kept rfl rfl sound.follows sound.flag sound.ended (fun down outside => ⟨down, outside⟩)
      fun apart => .inl ⟨apart, rfl⟩
  | udev => exact sound_udev sound alive taken
  | monitor i => exact sound_monitor sound alive taken

theorem sound_run {present : Bool} {actions : List Action}
    (reached : (step json).run (initial config present) actions = some s) : Sound json config s :=
  Steps.preserved sound_step reached (sound_initial present)

/-- **One joystick at a time.** However the threads interleave, there is at most one monitor thread, and
its arrays are what its records make of them. Whenever the udev thread waits for a device, the settings
are those that the devices reported so far lead to one after another; and a monitor thread is running
that has read from no file but the open one. -/
theorem one_joystick_at_a_time {present : Bool} {actions : List Action}
    (reached : (step json).run (initial config present) actions = some s) :
    (∀ i j, (s.threads i).isSome → (s.threads j).isSome → i = j) ∧
    (∀ i, ∀ th ∈ s.threads i, Tracks th.arrays th.records) ∧
    (s.dead = false → s.udev = .selecting →
      (jsPlug json).run config s.events = some s.config ∧
      ∃ th, s.threads s.mThread = some th ∧ ∀ r ∈ th.history, s.fd = some r.file) := by
  have sound := sound_run reached
  refine ⟨fun i j first second => (sound.only i first).trans (sound.only j second).symm, sound.tracks, ?_⟩
  intro alive idle
  have follows := sound.follows alive
  have running := sound.running (by rw [idle]; rfl) (by rw [idle]; rfl)
  have source := sound.source (by rw [idle]; rfl)
  rw [idle] at follows
  obtain ⟨th, there⟩ := Option.isSome_iff_exists.mp running
  exact ⟨follows.symm, th, there, (source _ th there).history⟩

end Threads

/-- A device is plugged in, and the thread that reads it has begun. -/
def onePlug : List Action :=
  [.arrive ⟨0, 1, 1, 3⟩, .monitor 0, .report (plugIn 0x046d 0xc216) true, .udev, .udev, .udev, .udev, .monitor 0,
    .monitor 0, .udev, .udev, .udev, .udev, .udev, .udev, .udev, .udev, .monitor 1]

theorem one_plug_at_a_time : ∃ s,
    (step padJson).run (initial (Config.initial (some padConfig)) true) onePlug = some s ∧
    s.dead = false ∧ s.udev = .selecting ∧ s.mThread = 1 ∧
    (jsPlug padJson).run (Config.initial (some padConfig)) s.events = some s.config ∧
    ∃ th, s.threads 1 = some th ∧ ∀ r ∈ th.history, s.fd = some r.file := by
  obtain ⟨s, reached, alive, idle, own⟩ : ∃ s,
      (step padJson).run (initial (Config.initial (some padConfig)) true) onePlug = some s ∧
      s.dead = false ∧ s.udev = .selecting ∧ s.mThread = 1 := ⟨_, rfl, rfl, rfl, rfl⟩
  obtain ⟨follows, reads⟩ := (one_joystick_at_a_time reached).2.2 alive idle
  rw [own] at reads
  exact ⟨s, reached, alive, idle, own, follows, reads⟩

/-! ### The plug returns -/

namespace MonitorAt

/-- How far the thread is from the end, once `is_monitoring` has been lowered. -/
def rank : MonitorAt → Nat
  | .testing => 1
  | .handling .. => 2
  | .reading => 3

end MonitorAt

def threadRank (th : Option Thread) : Nat := th.elim 0 fun th => th.place.rank

/-- The number of entries that `load_config` will go through. -/
def entriesLeft (json : Json) (udev : Udev) (c : Config.State) : Nat :=
  (choose json udev c).elim 0 fun found => found.2.children.length

/-- The number of statements that are left. -/
def rank (json : Json) (s : State) : Nat :=
  if s.dead then 0
  else
    match s.udev with
    | .selecting => 0
    | .inserting entries => entries.length + 1
    | .parsing e => entriesLeft json e.udev s.config + 2
    | .clearing e => entriesLeft json e.udev s.config + 3
    | .comparing e => entriesLeft json e.udev (identified e s.config) + 4
    | .launching e => entriesLeft json e.udev (identified e s.config) + 5
    | .raising e => entriesLeft json e.udev (identified e s.config) + 6
    | .joining e => entriesLeft json e.udev (identified e s.config) + 7 + threadRank (s.threads s.mThread)
    | .lowering e => entriesLeft json e.udev (identified e s.config) + 11
    | .asking e => entriesLeft json e.udev (identified e s.config) + 12
    | .opening e _ => entriesLeft json e.udev (identified e s.config) + 13
    | .closing e _ => entriesLeft json e.udev (identified e s.config) + 14

/-- The udev thread's next statement; while it waits for the monitor to end, that one's. -/
def ownAction (s : State) : Action :=
  match s.udev with
  | .joining _ => if (s.threads s.mThread).isSome then .monitor s.mThread else .udev
  | _ => .udev

def own (json : Json) (s : State) : Option State := step json s (ownAction s)

/-- Records arrive, and the monitor goes on. -/
def Disturbs (json : Json) (s t : State) : Prop :=
  ∃ a, ((∃ j, a = .arrive j) ∨ ∃ i, a = .monitor i) ∧ step json s a = some t

/-- `joystick::js_plug` has returned; or an exception has left a thread, its own or the monitor's, and the
program has ended. -/
def Returned (s : State) : Prop := s.udev = .selecting ∨ s.dead = true

section Progress

variable {json : Json} {config : Config.State} {s t : State} {i : Nat}

theorem monitor_enabled (running : (s.threads i).isSome) : ∃ t, monitorStep s i = some t := by
  obtain ⟨th, there⟩ := Option.isSome_iff_exists.mp running
  rw [monitorStep, there, Option.bind_eq_bind, Option.bind_some]
  split
  · split <;> exact ⟨_, rfl⟩
  · split <;> exact ⟨_, rfl⟩
  · split <;> exact ⟨_, rfl⟩

/-- Once the flag is down, a thread comes closer to its end with every statement. -/
theorem monitor_closer (down : s.isMonitoring = false) (taken : monitorStep s i = some t) :
    t.dead = true ∨ threadRank (t.threads i) < threadRank (s.threads i) := by
  obtain ⟨th, there, taken⟩ := Option.bind_eq_some_iff.mp taken
  rw [there]
  split at taken
  next testing =>
    rw [down] at taken
    cases taken
    exact .inr (by simp [threadRank, testing, MonitorAt.rank])
  next reading =>
    split at taken <;> cases taken <;> exact .inr (by simp [threadRank, reading, MonitorAt.rank])
  next n j hand =>
    split at taken
    next =>
      cases taken
      exact .inl rfl
    next =>
      cases taken
      exact .inr (by simp [threadRank, hand, MonitorAt.rank])

theorem rank_of_dead (dead : s.dead = true) : rank json s = 0 := if_pos dead

theorem thread_rank_le (th : Option Thread) : threadRank th ≤ 3 := by
  cases th with
  | none => exact Nat.zero_le 3
  | some th =>
    obtain ⟨place, arrays, history⟩ := th
    cases place <;> simp [threadRank, MonitorAt.rank]

/-- Every statement of the udev thread brings the end closer, if it need not wait. -/
theorem udev_closer (alive : s.dead = false) (busy : s.udev ≠ .selecting)
    (ready : ∀ e, s.udev = .joining e → s.threads s.mThread = none) :
    ∃ t, udevStep json s = some t ∧ rank json t < rank json s := by
  obtain ⟨c, isMonitoring, fd, opened, pending, threads, mThread, udev, dead, events⟩ := s
  obtain rfl : dead = false := alive
  cases udev with
  | selecting => exact absurd rfl busy
  | joining e =>
    have gone : threads mThread = none := ready e rfl
    exact ⟨_, if_pos (Option.isNone_iff_eq_none.mpr gone), by simp [rank]; omega⟩
  | lowering e =>
    have few := thread_rank_le (threads mThread)
    exact ⟨_, rfl, by simp [rank]; omega⟩
  | asking e =>
    refine ⟨_, rfl, ?_⟩
    cases isMonitoring <;> simp [rank]
  | comparing e =>
    by_cases differ : Differs e c
    · exact ⟨_, if_pos differ, by simp [rank]⟩
    · exact ⟨_, if_neg differ, by simp [rank]⟩
  | clearing e =>
    have same : entriesLeft json e.udev { c with settings := ∅ } = entriesLeft json e.udev c := rfl
    exact ⟨_, rfl, by simp [rank, same]⟩
  | parsing e =>
    cases found : choose json e.udev c with
    | none => exact ⟨_, by simp only [udevStep, found]; rfl, by simp [rank]⟩
    | some section_ => exact ⟨_, by simp only [udevStep, found]; rfl, by simp [rank, entriesLeft, found]⟩
  | inserting entries =>
    cases entries with
    | nil => exact ⟨_, rfl, by simp [rank]⟩
    | cons entry rest =>
      cases read : readEntry c.settings entry with
      | none => exact ⟨_, by simp only [udevStep, read]; rfl, by simp [rank]⟩
      | some settings => exact ⟨_, by simp only [udevStep, read]; rfl, by simp [rank]⟩
  | _ => exact ⟨_, rfl, by simp [rank]⟩

/-- A statement of a monitor thread does not take the end further away, and brings it closer where it is
waited for. -/
theorem monitor_rank (sound : Sound json config s) (alive : s.dead = false) (taken : monitorStep s i = some t) :
    rank json t ≤ rank json s ∧ ∀ e, s.udev = .joining e → rank json t < rank json s := by
  obtain ⟨same, place, -, mThread, -, -⟩ := monitor_step_frame taken
  by_cases dead : t.dead = true
  · rw [rank_of_dead dead]
    refine ⟨Nat.zero_le _, fun e waits => ?_⟩
    rw [rank, alive, waits]
    simp only [Bool.false_eq_true, ↓reduceIte]
    omega
  · have closer (e : Plug) (waits : s.udev = .joining e) :
        threadRank (t.threads t.mThread) < threadRank (s.threads s.mThread) := by
      have down : s.isMonitoring = false := by
        rw [sound.flag, waits]
        rfl
      obtain ⟨th, running, -⟩ := monitor_step_threads taken
      obtain rfl : i = s.mThread := sound.only i (by rw [running]; rfl)
      rw [mThread]
      exact (monitor_closer down taken).resolve_left dead
    rw [Bool.not_eq_true] at dead
    unfold rank
    rw [same, place, alive, dead]
    constructor
    · cases waits : s.udev with
      | joining e =>
        have less := closer e waits
        simp only [Bool.false_eq_true, ↓reduceIte]
        omega
      | _ => exact Nat.le_refl _
    · intro e waits
      have less := closer e waits
      rw [waits]
      simp only [Bool.false_eq_true, ↓reduceIte]
      omega

theorem own_closer (sound : Sound json config s) (unmet : ¬ Returned s) :
    ∃ t, own json s = some t ∧ Sound json config t ∧ rank json t < rank json s := by
  obtain ⟨busy, alive⟩ := not_or.mp unmet
  rw [Bool.not_eq_true] at alive
  have live (a : Action) {t : State} (taken : step json s a = some t) : Sound json config t :=
    sound_step s a t sound taken
  by_cases waits : (∃ e, s.udev = .joining e) ∧ (s.threads s.mThread).isSome
  · obtain ⟨⟨e, joining⟩, running⟩ := waits
    have next : ownAction s = .monitor s.mThread := by
      rw [ownAction, joining]
      exact if_pos running
    obtain ⟨t, taken⟩ := monitor_enabled running
    have stepped : step json s (.monitor s.mThread) = some t := by
      rw [step, alive]
      exact taken
    exact ⟨t, by rw [own, next, stepped], live _ stepped, (monitor_rank sound alive taken).2 e joining⟩
  · have next : ownAction s = .udev := by
      unfold ownAction
      split
      next e joining => exact if_neg fun running => waits ⟨⟨e, joining⟩, running⟩
      next => rfl
    have ready (e : Plug) (joining : s.udev = .joining e) : s.threads s.mThread = none := by
      rw [not_and] at waits
      simpa using waits ⟨e, joining⟩
    obtain ⟨t, taken, less⟩ := udev_closer alive busy ready
    have stepped : step json s .udev = some t := by
      rw [step, alive]
      exact taken
    exact ⟨t, by rw [own, next, stepped], live _ stepped, less⟩

theorem disturbs_rank (sound : Sound json config s) (disturbs : Disturbs json s t) :
    Sound json config t ∧ rank json t ≤ rank json s := by
  obtain ⟨a, kind, taken⟩ := disturbs
  refine ⟨sound_step s a t sound taken, ?_⟩
  obtain ⟨alive, taken⟩ := Option.ite_none_left_eq_some.mp taken
  rw [Bool.not_eq_true] at alive
  rcases kind with ⟨j, rfl⟩ | ⟨i, rfl⟩
  · obtain ⟨-, taken⟩ := Option.ite_none_right_eq_some.mp taken
    cases taken
    exact Nat.le_refl _
  · exact (monitor_rank sound alive taken).1

end Progress

/-- The old thread has read a press when it is told to end. -/
def halfPlugged : List Action :=
  [.arrive ⟨0, 1, 1, 3⟩, .monitor 0, .report (plugIn 0x046d 0xc216) true, .monitor 0, .udev, .udev, .udev, .udev]

section Hazard

variable {json : Json} {config c : Config.State} {s : State} {e : Plug} {j : JsValue} {fd : Option Nat} {opened m : Nat}
  {pending : List JsValue} {threads : Nat → Option Thread} {events : List Plug}

/-- The monitor has the record in hand, and the settings have no element for the code of its gesture. -/
def Unbound (s : State) (j : JsValue) : Prop :=
  ∃ th n code, s.threads s.mThread = some th ∧ th.place = .handling n j ∧
    Monitor.handle s.config.settings th.arrays j = .error (.outOfRange code)

/-- Then its next statement ends the program. -/
theorem ends_of_unbound (alive : s.dead = false) (unbound : Unbound s j) :
    step json s (.monitor s.mThread) = some { s with dead := true } := by
  obtain ⟨th, n, code, there, hand, failed⟩ := unbound
  rw [step, alive]
  simp only [Bool.false_eq_true, ↓reduceIte, monitorStep, there, hand, failed, Option.bind_eq_bind, Option.bind_some,
    Option.pure_def]

/-- Without settings, an axis that is moved is more than the loop survives. -/
theorem handle_unbound (arrays : Monitor.State) (axis : j.type = 2) (moved : j.value = 32767 ∨ j.value = -32767) :
    ∃ code, Monitor.handle ∅ arrays j = .error (.outOfRange code) := by
  have second : ¬ (2 : UInt8) = 1 := by decide
  have other : ¬ j.Indexes := by
    rintro ⟨press, -⟩
    exact second (axis.symm.trans press)
  have made : ∃ code, Monitor.gesture none j = some code := by
    rw [Monitor.gesture, axis, if_neg second, if_pos rfl]
    split_ifs with right left
    · exact ⟨_, rfl⟩
    · exact ⟨_, rfl⟩
    · exact absurd moved (not_or.mpr ⟨right, left⟩)
  obtain ⟨code, made⟩ := made
  have unbound : Monitor.binding ∅ code = .error (.outOfRange code) := by simp [Monitor.binding]
  rw [Monitor.handle_other ∅ arrays none other, made, Option.elim_some, unbound]
  exact ⟨_, rfl⟩

/-- The file is exchanged and the monitor told to end. -/
theorem exchange_run (opens : Opens e) :
    (step json).run ⟨c, true, fd, opened, pending, threads, m, .selecting, false, events⟩
      [.report e true, .udev, .udev, .udev, .udev] =
    some ⟨{ c with devPath := e.devnode }, false, some opened, opened + 1, [], threads, m, .joining e, false,
      events ++ [e]⟩ := by
  simp only [Steps.run, step, Bool.false_eq_true, ↓reduceIte, opens, Option.bind_some]
  rfl

/-- A thread that has no record in hand, and none to read, ends. -/
theorem ends_of_free (json : Json) (c : Config.State) (e : Plug) (fd : Option Nat) (opened : Nat) (events : List Plug)
    {th : Thread} (there : threads m = some th) (free : ∀ n j, th.place ≠ .handling n j) :
    ∃ threads', threads' m = none ∧ (step json).Reaches (fun _ => True)
      ⟨c, false, fd, opened, [], threads, m, .joining e, false, events⟩
      ⟨c, false, fd, opened, [], threads', m, .joining e, false, events⟩ := by
  have tested (f : Nat → Option Thread) (th : Thread) (there : f m = some th) (testing : th.place = .testing) :
      (step json).Reaches (fun _ => True) ⟨c, false, fd, opened, [], f, m, .joining e, false, events⟩
        ⟨c, false, fd, opened, [], Function.update f m none, m, .joining e, false, events⟩ := by
    refine .single (a := .monitor m) trivial ?_
    simp only [step, monitorStep, there, testing, Bool.false_eq_true, ↓reduceIte, Option.bind_eq_bind, Option.bind_some]
    rfl
  cases place : th.place with
  | handling n j => exact absurd place (free n j)
  | testing => exact ⟨_, Function.update_self .., tested threads th there place⟩
  | reading =>
    have first : (step json).Reaches (fun _ => True) ⟨c, false, fd, opened, [], threads, m, .joining e, false, events⟩
        ⟨c, false, fd, opened, [], Function.update threads m (some { th with place := .testing }), m, .joining e, false,
          events⟩ := by
      refine .single (a := .monitor m) trivial ?_
      simp only [step, monitorStep, there, place, Bool.false_eq_true, ↓reduceIte, Option.bind_eq_bind, Option.bind_some]
      cases fd <;> rfl
    exact ⟨_, Function.update_self .., first.trans (tested _ _ (Function.update_self ..) rfl)⟩

/-- Another thread is started, and the settings are cleared. -/
theorem clear_run (gone : threads m = none) (differs : Differs e c) :
    (step json).run ⟨c, false, fd, opened, [], threads, m, .joining e, false, events⟩
        [.udev, .udev, .udev, .udev, .udev] =
    some ⟨{ identified e c with settings := ∅ }, true, fd, opened, [],
      Function.update threads (m + 1) (some .begin), m + 1, .parsing e, false, events⟩ := by
  simp only [Steps.run, step, udevStep, gone, differs, Option.isNone_none, Bool.false_eq_true, ↓reduceIte,
    Option.bind_some]

/-- It reads a record while there are no settings. -/
theorem unbound_run (json : Json) (c : Config.State) (e : Plug) (opened : Nat) (events : List Plug)
    (axis : j.type = 2) (moved : j.value = 32767 ∨ j.value = -32767) (empty : c.settings = ∅)
    (begun : threads m = some .begin) : ∃ u,
    (step json).run ⟨c, true, some opened, opened + 1, [], threads, m, .parsing e, false, events⟩
      [.arrive j, .monitor m, .monitor m] = some u ∧ u.mThread = m ∧ u.udev = .parsing e ∧ u.config = c ∧
      u.dead = false ∧ Unbound u j := by
  obtain ⟨code, unbound⟩ := handle_unbound Monitor.start axis moved
  let reading := Function.update threads m (some { Thread.begin with place := .reading })
  let threads' := Function.update reading m (some { Thread.begin with place := .handling opened j })
  refine ⟨⟨c, true, some opened, opened + 1, [], threads', m, .parsing e, false, events⟩, ?_, rfl, rfl, rfl, rfl, ?_⟩
  · simp only [Steps.run, step, monitorStep, begun, Thread.begin, Bool.false_eq_true, ↓reduceIte, Option.isSome_some,
      Option.bind_eq_bind, Option.bind_some, Option.pure_def, Function.update_self, List.nil_append]
    rfl
  · exact ⟨_, opened, code, Function.update_self .., rfl, empty ▸ unbound⟩

/-- **A plug can end the program.** In every state in which the udev thread waits and the monitor has no
record in hand, and whatever the file binds: where the next device differs from the known one in both
numbers, there is a schedule in which the new monitor has a moved axis in hand while there are no settings, and
its next statement ends the program. -/
theorem plug_can_end_program {present : Bool} {actions : List Action}
    (reached : (step json).run (initial config present) actions = some s) (alive : s.dead = false)
    (idle : s.udev = .selecting) (free : ∀ th ∈ s.threads s.mThread, ∀ n j, th.place ≠ .handling n j)
    (adds : e.Adds) (vendor : e.idVendor ≠ s.config.vendorId) (product : e.idProduct ≠ s.config.productId)
    (axis : j.type = 2) (moved : j.value = 32767 ∨ j.value = -32767) :
    ∃ u t, (step json).Reaches (fun _ => True) s u ∧ u.mThread = s.mThread + 1 ∧ u.udev = .parsing e ∧
      u.config.settings = ∅ ∧ u.dead = false ∧ Unbound u j ∧
      step json u (.monitor u.mThread) = some t ∧ t.dead = true := by
  have sound := sound_run reached
  obtain ⟨c, isMonitoring, fd, opened, pending, threads, m, udev, dead, events⟩ := s
  cases idle
  cases alive
  obtain rfl : isMonitoring = true := sound.flag
  obtain ⟨th, there⟩ := Option.isSome_iff_exists.mp (sound.running rfl rfl)
  obtain ⟨threads', gone, ended⟩ := ends_of_free json { c with devPath := e.devnode } e (some opened) (opened + 1)
    (events ++ [e]) there (free th there)
  have differs : Differs e { c with devPath := e.devnode } := ⟨⟨adds.vendor, adds.product⟩, vendor, product⟩
  have begun : Function.update threads' (m + 1) (some Thread.begin) (m + 1) = some .begin := Function.update_self ..
  obtain ⟨u, ran, own, place, same, alive, unbound⟩ := unbound_run json
    { identified e { c with devPath := e.devnode } with settings := ∅ } e opened (events ++ [e]) axis moved rfl begun
  have all {actions : List Action} : ∀ a ∈ actions, (fun _ : Action => True) a := fun _ _ => trivial
  have onwards : (step json).Reaches (fun _ => True)
      ⟨c, true, fd, opened, pending, threads, m, .selecting, false, events⟩ u :=
    (Steps.Reaches.trans ⟨_, all, exchange_run ⟨adds.action, adds.devnode⟩⟩ ended).trans
      (.trans ⟨_, all, clear_run gone differs⟩ ⟨_, all, ran⟩)
  exact ⟨u, _, onwards, own, place, by rw [same], alive, unbound, ends_of_unbound alive unbound, rfl⟩

theorem first_plug_can_end_program : ∃ u t,
    (step padJson).Reaches (fun _ => True) (initial (Config.initial (some padConfig)) true) u ∧ u.mThread = 1 ∧
    u.udev = .parsing (plugIn 0x046d 0xc216) ∧ u.config.settings = ∅ ∧ u.dead = false ∧
    Unbound u ⟨0, 32767, 2, 0⟩ ∧ step padJson u (.monitor u.mThread) = some t ∧ t.dead = true := by
  have free : ∀ th ∈ (initial (Config.initial (some padConfig)) true).threads 0, ∀ n j, th.place ≠ .handling n j := by
    rintro th member n j hand
    cases member
    cases hand
  have begun : (step padJson).run (initial (Config.initial (some padConfig)) true) [] = some _ := rfl
  exact plug_can_end_program (j := ⟨0, 32767, 2, 0⟩) begun rfl rfl free plug_in_adds
    (show 0x046d ≠ 0 by decide) (show 0xc216 ≠ 0 by decide) rfl (.inl rfl)

end Hazard

end Sws.Joystick.Reconnect
