import Sws.Joystick.Plug

/-! The monitor thread: how presses of buttons and movements of axes become actions. -/
namespace Sws.Joystick.Monitor

open Config

/-- `joystick::js_value`. -/
structure JsValue where
  time : UInt32
  value : Int16
  type : UInt8
  button : UInt8
  deriving DecidableEq, Repr

/-- `MIN_PRESSED`. -/
def minPressed : UInt32 := 100

/-- `LONG_PRESS`. -/
def longPress : UInt32 := 2000

/-- `MAX_PRESSED`. -/
def maxPressed : UInt32 := 10000

/-- The arrays of `joystick::monitor`, one element for each button. -/
structure State where
  p : Vector Bool 24
  timePressed : Vector UInt32 24

def start : State := ⟨.replicate 24 false, .replicate 24 0⟩

/-- What the loop does not survive. -/
inductive Fault
  /-- An array is accessed past its end. -/
  | outOfBounds (index : Nat)
  /-- `settings.at` throws. -/
  | outOfRange (code : Nat)
  deriving DecidableEq, Repr

/-! ### The loop -/

section Arrays

variable {α : Type}

def element (a : Vector α 24) (i : UInt8) : Except Fault α :=
  if bound : i.toNat < 24 then .ok a[i.toNat] else .error (.outOfBounds i.toNat)

def assign (a : Vector α 24) (i : UInt8) (v : α) : Except Fault (Vector α 24) :=
  if bound : i.toNat < 24 then .ok (a.set i.toNat v) else .error (.outOfBounds i.toNat)

end Arrays

/-- `settings.at`. -/
def binding (settings : Settings) (code : Nat) : Except Fault ActionType :=
  settings[(code : Int)]?.elim (.error (.outOfRange code)) .ok

/-- The body of the loop for one record, with the action passed to `set_event`. -/
def handle (settings : Settings) (s : State) (j : JsValue) : Except Fault (State × Option ActionType) := do
  if j.type = 1 then
    if j.value = 1 then
      let p ← assign s.p j.button true
      let timePressed ← assign s.timePressed j.button j.time
      return (⟨p, timePressed⟩, none)
    else if j.value = 0 then
      -- The second operand of `&&`: the array is accessed for releases only.
      if (← element s.p j.button) = true then
        let s := { s with p := ← assign s.p j.button false }
        let d := j.time - (← element s.timePressed j.button)
        if d > maxPressed then return (s, none)
        else if d > longPress then return (s, some (← binding settings (j.button.toNat + 100)))
        else if d > minPressed then return (s, some (← binding settings j.button.toNat))
        else return (s, none)
      else return (s, none)
    else return (s, none)
  else if j.type = 2 then
    if j.value = 32767 ∨ j.value = -32767 then
      if j.value > 0 then return (s, some (← binding settings (j.button.toNat + 200)))
      else return (s, some (← binding settings (j.button.toNat + 300)))
    else return (s, none)
  else return (s, none)

/-- `joystick::monitor` over the records that are read: each that is dealt with, and how it ends. -/
def monitor (settings : Settings) : State → List JsValue →
    List (JsValue × Option ActionType) × Except Fault State
  | s, [] => ([], .ok s)
  | s, j :: rest =>
    match handle settings s j with
    | .error fault => ([], .error fault)
    | .ok (t, fired) =>
      let later := monitor settings t rest
      ((j, fired) :: later.1, later.2)

/-! ### Gestures -/

namespace JsValue

/-- A record of the button. -/
def own (b : UInt8) (j : JsValue) : Bool := j.type = 1 ∧ j.button = b

def Presses (j : JsValue) (b : UInt8) : Prop := j.type = 1 ∧ j.button = b ∧ j.value = 1

def Releases (j : JsValue) (b : UInt8) : Prop := j.type = 1 ∧ j.button = b ∧ j.value = 0

/-- The record makes the loop access its arrays. -/
def Indexes (j : JsValue) : Prop := j.type = 1 ∧ (j.value = 1 ∨ j.value = 0)

instance (j : JsValue) : Decidable j.Indexes := inferInstanceAs (Decidable (_ ∧ (_ ∨ _)))

instance (j : JsValue) (b : UInt8) : Decidable (j.Presses b) := inferInstanceAs (Decidable (_ ∧ _))

instance (j : JsValue) (b : UInt8) : Decidable (j.Releases b) := inferInstanceAs (Decidable (_ ∧ _))

end JsValue

/-- The button has been held down since a press at this time. -/
def HeldSince (history : List JsValue) (b : UInt8) (t : UInt32) : Prop :=
  ∃ before j after, history = before ++ j :: after ∧ j.Presses b ∧ j.time = t ∧
    ∀ e ∈ after, ¬ e.Presses b ∧ ¬ e.Releases b

/-- What one record does to it. -/
def touch (b : UInt8) (held : Option UInt32) (j : JsValue) : Option UInt32 :=
  if j.Presses b then some j.time else if j.Releases b then none else held

/-- The time since when the button has been held down. -/
def since (b : UInt8) (history : List JsValue) : Option UInt32 := history.foldl (touch b) none

/-- The code of the gesture that a record completes. -/
def gesture (held : Option UInt32) (j : JsValue) : Option Nat :=
  if j.type = 1 then
    if j.value = 0 then
      held.bind fun t =>
        let d := (j.time - t).toNat
        if 10000 < d then none
        else if 2000 < d then some (j.button.toNat + 100)
        else if 100 < d then some j.button.toNat
        else none
    else none
  else if j.type = 2 then
    if j.value = 32767 then some (j.button.toNat + 200)
    else if j.value = -32767 then some (j.button.toNat + 300)
    else none
  else none

/-- The codes of all gestures in a stream. -/
def gestures : List JsValue → List JsValue → List Nat
  | _, [] => []
  | history, j :: rest =>
    (gesture (since j.button history) j).toList ++ gestures (history ++ [j]) rest

/-- What a stream should come to: the action of each gesture that has one. -/
def delivered (settings : Settings) : List JsValue → List JsValue → List (JsValue × Option ActionType)
  | _, [] => []
  | history, j :: rest =>
    (j, (gesture (since j.button history) j).bind fun code => settings[(code : Int)]?) ::
      delivered settings (history ++ [j]) rest

/-- The code has an action. -/
def Bound (settings : Settings) (code : Nat) : Prop := settings[(code : Int)]?.isSome

instance (settings : Settings) (code : Nat) : Decidable (Bound settings code) :=
  inferInstanceAs (Decidable (_ = true))

/-! ### The arrays and the history -/

/-- What the arrays say about a button. -/
def State.since (s : State) (b : UInt8) : Option UInt32 :=
  if s.p[b.toNat]? = some true then s.timePressed[b.toNat]? else none

/-- The arrays agree with the records so far. -/
def Tracks (s : State) (history : List JsValue) : Prop :=
  ∀ b : UInt8, b.toNat < 24 → s.since b = since b history

section Loop

variable {settings : Settings} {s t : State} {j : JsValue} {b : UInt8} {history events : List JsValue}

theorem tracks_start : Tracks start [] := by
  intro b bound
  simp [State.since, start, since, bound]

theorem since_concat (b : UInt8) (history : List JsValue) (j : JsValue) :
    since b (history ++ [j]) = touch b (since b history) j := by
  rw [since, List.foldl_append]
  rfl

theorem assign_eq {α : Type} {a : Vector α 24} {i : UInt8} {v : α} (bound : i.toNat < 24) :
    assign a i v = .ok (a.set i.toNat v) := dif_pos bound

theorem element_eq {α : Type} {a : Vector α 24} {i : UInt8} (bound : i.toNat < 24) :
    element a i = .ok a[i.toNat] := dif_pos bound

/-- A record that neither presses nor releases the button leaves it. -/
theorem touch_other (held : Option UInt32) (press : ¬ j.Presses b) (release : ¬ j.Releases b) :
    touch b held j = held := by rw [touch, if_neg press, if_neg release]

theorem since_press (bound : j.button.toNat < 24) (press : j.Presses j.button) (b : UInt8) :
    State.since ⟨s.p.set j.button.toNat true, s.timePressed.set j.button.toNat j.time⟩ b =
      touch b (s.since b) j := by
  by_cases same : j.button = b
  · subst same
    rw [touch, if_pos press]
    simp [State.since, bound]
  · have apart : j.button.toNat ≠ b.toNat := fun eq => same (UInt8.toNat_inj.mp eq)
    rw [touch_other _ (fun p => same p.2.1) fun r => same r.2.1]
    simp [State.since, apart]

theorem since_release (bound : j.button.toNat < 24) (release : j.Releases j.button) (b : UInt8) :
    State.since ⟨s.p.set j.button.toNat false, s.timePressed⟩ b = touch b (s.since b) j := by
  by_cases same : j.button = b
  · subst same
    have value : j.value ≠ 1 := by rw [release.2.2]; decide
    rw [touch, if_neg fun press => value press.2.2, if_pos release]
    simp [State.since, bound]
  · have apart : j.button.toNat ≠ b.toNat := fun eq => same (UInt8.toNat_inj.mp eq)
    rw [touch_other _ (fun p => same p.2.1) fun r => same r.2.1]
    simp [State.since, apart]

/-- Other records change nothing. -/
theorem touch_untouched (held : Option UInt32) (other : ¬ j.Indexes) (b : UInt8) : touch b held j = held :=
  touch_other held (fun press => other ⟨press.1, .inl press.2.2⟩)
    fun release => other ⟨release.1, .inr release.2.2⟩

/-- The time since when a button has been held is in the array. -/
theorem since_eq (bound : b.toNat < 24) :
    s.since b = if s.p[b.toNat] = true then some s.timePressed[b.toNat] else none := by
  simp [State.since, bound]

theorem ok_bind {α β : Type} (a : α) (f : α → Except Fault β) : (Except.ok a >>= f) = f a := rfl

theorem fire_eq (result : Except Fault ActionType) :
    (do return (s, some (← result))) = result.map fun action => (s, some action) := by
  cases result <;> rfl

/-- A release looks up the code its time makes. -/
theorem handle_release (settings : Settings) (s : State) (bound : j.button.toNat < 24)
    (release : j.Releases j.button) :
    ∃ t, (∀ b, t.since b = touch b (s.since b) j) ∧
      handle settings s j = (gesture (s.since j.button) j).elim (.ok (t, none)) fun code =>
        (binding settings code).map fun action => (t, some action) := by
  obtain ⟨type, -, value⟩ := id release
  have pressed : ¬ (0 : Int16) = 1 := by decide
  by_cases down : s.p[j.button.toNat] = true
  · refine ⟨⟨s.p.set j.button.toNat false, s.timePressed⟩, since_release bound release, ?_⟩
    rw [since_eq bound, if_pos down]
    have limits : UInt32.toNat 10000 = 10000 ∧ UInt32.toNat 2000 = 2000 ∧ UInt32.toNat 100 = 100 :=
      ⟨rfl, rfl, rfl⟩
    simp only [handle, gesture, type, value, pressed, element_eq bound, assign_eq bound, ok_bind, down,
      maxPressed, longPress, minPressed, ↓reduceIte, Option.bind_some, GT.gt, UInt32.lt_iff_toNat_lt,
      limits, fire_eq]
    split_ifs <;> rfl
  · have up : s.since j.button = none := by rw [since_eq bound, if_neg down]
    refine ⟨s, fun b => ?_, ?_⟩
    · by_cases same : j.button = b
      · subst same
        rw [touch, if_pos release, up, ite_eq_right_iff.mpr fun press => absurd (release.2.2 ▸ press.2.2) pressed]
      · exact (touch_other _ (fun p => same p.2.1) fun r => same r.2.1).symm
    · rw [up]
      simp only [handle, gesture, type, value, pressed, element_eq bound, down, ↓reduceIte,
        Option.bind_none, Option.elim_none]
      rfl

/-- A record that is no press or release. -/
theorem handle_other (settings : Settings) (s : State) (held : Option UInt32) (other : ¬ j.Indexes) :
    handle settings s j = (gesture held j).elim (.ok (s, none)) fun code =>
      (binding settings code).map fun action => (s, some action) := by
  by_cases type : j.type = 1
  · have values := not_or.mp fun value => other ⟨type, value⟩
    simp only [handle, gesture, type, values.1, values.2, ↓reduceIte]
    rfl
  · by_cases axis : j.type = 2
    · have first : ¬ (2 : UInt8) = 1 := by decide
      by_cases right : j.value = 32767
      · have positive : (32767 : Int16) > 0 := by decide
        simp only [handle, gesture, axis, first, right, positive, true_or, ↓reduceIte]
        exact fire_eq _
      · by_cases left : j.value = -32767
        · have negative : ¬ (-32767 : Int16) > 0 := by decide
          have other : ¬ (-32767 : Int16) = 32767 := by decide
          simp only [handle, gesture, axis, first, left, negative, other, or_true, ↓reduceIte]
          exact fire_eq _
        · simp only [handle, gesture, axis, first, right, left, or_self, ↓reduceIte]
          rfl
    · simp only [handle, gesture, type, axis, ↓reduceIte]
      rfl

/-- The loop's body looks up the code of the gesture that the arrays make of a record. -/
theorem handle_eq (settings : Settings) (s : State) (bound : j.Indexes → j.button.toNat < 24) :
    ∃ t, (∀ b, t.since b = touch b (s.since b) j) ∧
      handle settings s j = (gesture (s.since j.button) j).elim (.ok (t, none)) fun code =>
        (binding settings code).map fun action => (t, some action) := by
  by_cases release : j.Releases j.button
  · exact handle_release settings s (bound ⟨release.1, .inr release.2.2⟩) release
  by_cases press : j.Presses j.button
  · have small := bound ⟨press.1, .inl press.2.2⟩
    refine ⟨_, since_press small press, ?_⟩
    obtain ⟨type, -, value⟩ := press
    have up : ¬ (1 : Int16) = 0 := by decide
    simp only [handle, gesture, type, value, up, assign_eq small, ↓reduceIte]
    rfl
  · have other : ¬ j.Indexes := by
      rintro ⟨type, value | value⟩
      · exact press ⟨type, rfl, value⟩
      · exact release ⟨type, rfl, value⟩
    exact ⟨s, fun b => (touch_untouched _ other b).symm, handle_other settings s _ other⟩

theorem handle_tracks (settings : Settings) (tracks : Tracks s history) (bound : j.Indexes → j.button.toNat < 24) :
    ∃ t, Tracks t (history ++ [j]) ∧
      handle settings s j = (gesture (since j.button history) j).elim (.ok (t, none)) fun code =>
        (binding settings code).map fun action => (t, some action) := by
  have onwards {t : State} (after : ∀ b, t.since b = touch b (s.since b) j) : Tracks t (history ++ [j]) := by
    intro b small
    rw [after, tracks b small, since_concat]
  by_cases indexes : j.Indexes
  · obtain ⟨t, after, handled⟩ := handle_eq settings s bound
    rw [tracks _ (bound indexes)] at handled
    exact ⟨t, onwards after, handled⟩
  · exact ⟨s, onwards fun b => (touch_untouched _ indexes b).symm, handle_other settings s _ indexes⟩

/-- Where every gesture has a binding, the whole stream is consumed. -/
theorem monitor_eq (tracks : Tracks s history) (buttons : ∀ j ∈ events, j.Indexes → j.button.toNat < 24)
    (bound : ∀ code ∈ gestures history events, Bound settings code) :
    ∃ t, monitor settings s events = (delivered settings history events, .ok t) := by
  induction events generalizing s history with
  | nil => exact ⟨s, rfl⟩
  | cons j events ih =>
    obtain ⟨small, others⟩ := List.forall_mem_cons.mp buttons
    rw [gestures, List.forall_mem_append] at bound
    obtain ⟨t, tracks', handled⟩ := handle_tracks settings tracks small
    obtain ⟨u, onwards⟩ := ih tracks' others bound.2
    refine ⟨u, ?_⟩
    cases made : gesture (since j.button history) j with
    | none =>
      rw [made, Option.elim_none] at handled
      rw [monitor, handled, delivered, made]
      dsimp only
      rw [onwards]
      rfl
    | some code =>
      obtain ⟨action, has⟩ := Option.isSome_iff_exists.mp (bound.1 code (by simp [made]))
      rw [made, Option.elim_some, binding, has, Option.elim_some] at handled
      rw [monitor, handled, delivered, made, Option.bind_some, has]
      dsimp only [Except.map]
      rw [onwards]

/-- A gesture without a binding ends the thread. -/
theorem monitor_unbound (tracks : Tracks s history) (buttons : ∀ j ∈ events, j.Indexes → j.button.toNat < 24)
    (unbound : ∃ code ∈ gestures history events, ¬ Bound settings code) :
    ∃ code, (monitor settings s events).2 = .error (.outOfRange code) := by
  induction events generalizing s history with
  | nil =>
    obtain ⟨code, member, -⟩ := unbound
    cases member
  | cons j events ih =>
    obtain ⟨small, others⟩ := List.forall_mem_cons.mp buttons
    obtain ⟨code, member, missing⟩ := unbound
    obtain ⟨t, tracks', handled⟩ := handle_tracks settings tracks small
    rw [gestures, List.mem_append] at member
    cases made : gesture (since j.button history) j with
    | none =>
      rw [made, Option.elim_none] at handled
      rw [made] at member
      rw [monitor, handled]
      exact ih tracks' others ⟨code, member.resolve_left (by simp), missing⟩
    | some code' =>
      rw [made, Option.elim_some, binding] at handled
      rw [made] at member
      by_cases has : Bound settings code'
      · obtain ⟨action, here⟩ := Option.isSome_iff_exists.mp has
        rw [here] at handled
        have later := member.resolve_left fun here => missing (by simpa using (by simpa using here) ▸ has)
        rw [monitor, handled]
        exact ih tracks' others ⟨code, later, missing⟩
      · have absent : settings[(code' : Int)]? = none := by simpa [Bound] using has
        rw [absent] at handled
        rw [monitor, handled]
        exact ⟨code', rfl⟩

/-! ### What is fired -/

theorem held_since_concat {t : UInt32} : HeldSince (history ++ [j]) b t ↔
    (j.Presses b ∧ j.time = t) ∨ (¬ j.Presses b ∧ ¬ j.Releases b ∧ HeldSince history b t) := by
  constructor
  · rintro ⟨before, k, after, shape, press, time, quiet⟩
    rcases List.eq_nil_or_concat' after with rfl | ⟨init, last, rfl⟩
    · obtain ⟨-, same⟩ := List.append_inj' shape rfl
      cases same
      exact .inl ⟨press, time⟩
    · rw [← List.cons_append, ← List.append_assoc] at shape
      obtain ⟨rfl, same⟩ := List.append_inj' shape rfl
      cases same
      obtain ⟨still, last⟩ := List.forall_mem_append.mp quiet
      have last := List.forall_mem_singleton.mp last
      exact .inr ⟨last.1, last.2, before, k, init, rfl, press, time, still⟩
  · rintro (⟨press, time⟩ | ⟨press, release, before, k, after, rfl, held, time, quiet⟩)
    · exact ⟨history, j, [], rfl, press, time, by simp⟩
    · refine ⟨before, k, after ++ [j], by simp, held, time, ?_⟩
      exact List.forall_mem_append.mpr ⟨quiet, List.forall_mem_singleton.mpr ⟨press, release⟩⟩

theorem since_eq_some_iff {t : UInt32} : since b history = some t ↔ HeldSince history b t := by
  induction history using List.reverseRecOn with
  | nil => simp [since, HeldSince]
  | append_singleton history j ih =>
    rw [since_concat, held_since_concat, touch]
    split_ifs with press release
    · simp [press]
    · simp [press, release]
    · simp [press, release, ih]

theorem since_eq_none (never : ∀ t, ¬ HeldSince history b t) : since b history = none :=
  Option.eq_none_iff_forall_ne_some.mpr fun t same => never t (since_eq_some_iff.mp same)

theorem delivered_at (settings : Settings) (history before : List JsValue) (j : JsValue)
    (after : List JsValue) : (delivered settings history (before ++ j :: after))[before.length]? =
      some (j, (gesture (since j.button (history ++ before)) j).bind fun code => settings[(code : Int)]?) := by
  induction before generalizing history with
  | nil => simp [delivered]
  | cons e before ih =>
    rw [List.cons_append, delivered, List.length_cons, List.getElem?_cons_succ, ih]
    simp

/-- The records of other buttons and axes do not matter to a button. -/
theorem since_own (b : UInt8) (history : List JsValue) :
    since b (history.filter (JsValue.own b)) = since b history := by
  induction history using List.reverseRecOn with
  | nil => rfl
  | append_singleton history j ih =>
    rw [List.filter_append, since_concat]
    by_cases own : j.own b = true
    · rw [List.filter_singleton, own, cond_true, since_concat, ih]
    · have other : ¬ (j.type = 1 ∧ j.button = b) := by simpa [JsValue.own] using own
      rw [List.filter_singleton, Bool.eq_false_iff.mpr own, cond_false, List.append_nil, ih,
        touch_other _ (fun press => other ⟨press.1, press.2.1⟩) fun release => other ⟨release.1, release.2.1⟩]

theorem delivered_own (settings : Settings) (b : UInt8) (history events : List JsValue) :
    (delivered settings history events).filter (fun e => e.1.own b) =
      delivered settings (history.filter (JsValue.own b)) (events.filter (JsValue.own b)) := by
  induction events generalizing history with
  | nil => rfl
  | cons j events ih =>
    rw [delivered, List.filter_cons, ih, List.filter_append, List.filter_singleton, List.filter_cons]
    by_cases own : j.own b = true
    · have button : j.button = b := by simpa [JsValue.own] using And.right (by simpa [JsValue.own] using own)
      subst button
      simp only [own, cond_true, ↓reduceIte, delivered, since_own]
    · simp [own]

/-- The time between two clock readings, the clock having wrapped around at most once. -/
theorem elapsed_eq (t u : UInt32) :
    ((t - u).toNat : Int) = ((t.toNat : Int) - u.toNat) % 4294967296 := by
  have first := t.toNat_lt
  have second := u.toNat_lt
  rw [UInt32.toNat_sub]
  omega

/-- What is fired for a button. -/
def firedFor (b : UInt8) (trace : List (JsValue × Option ActionType)) : List ActionType :=
  (trace.filter fun e => e.1.own b).filterMap (·.2)

/-- The stream is one the arrays and the settings are made for. -/
structure Handled (settings : Settings) (events : List JsValue) : Prop where
  buttons : ∀ j ∈ events, j.Indexes → j.button.toNat < 24
  bound : ∀ code ∈ gestures [] events, Bound settings code

theorem monitor_handled (handled : Handled settings events) :
    (monitor settings start events).1 = delivered settings [] events := by
  obtain ⟨t, ran⟩ := monitor_eq tracks_start handled.buttons handled.bound
  rw [ran]

/-- The gesture of a record in the stream has its binding. -/
theorem gesture_mem (history before : List JsValue) (j : JsValue) (after : List JsValue) {code : Nat}
    (made : gesture (since j.button (history ++ before)) j = some code) :
    code ∈ gestures history (before ++ j :: after) := by
  induction before generalizing history with
  | nil =>
    rw [List.append_nil] at made
    simp [gestures, made]
  | cons e before ih =>
    rw [List.cons_append, gestures]
    exact List.mem_append_right _ (ih (history ++ [e]) (by simpa using made))

/-- The `i`th record fires this, or nothing. -/
def Fires (settings : Settings) (events : List JsValue) (i : Nat) (j : JsValue)
    (fired : Option ActionType) : Prop :=
  (monitor settings start events).1[i]? = some (j, fired)

theorem fires_gesture {before after : List JsValue} (handled : Handled settings (before ++ j :: after)) :
    Fires settings (before ++ j :: after) before.length j
      ((gesture (since j.button before) j).bind fun code => settings[(code : Int)]?) := by
  rw [Fires, monitor_handled handled]
  exact delivered_at settings [] before j after

theorem fires_code {before after : List JsValue} {code : Nat}
    (handled : Handled settings (before ++ j :: after))
    (made : gesture (since j.button before) j = some code) :
    ∃ action, settings[(code : Int)]? = some action ∧
      Fires settings (before ++ j :: after) before.length j (some action) := by
  obtain ⟨action, has⟩ := Option.isSome_iff_exists.mp
    (handled.bound code (gesture_mem [] before j after made))
  have fires := fires_gesture handled
  rw [made, Option.bind_some, has] at fires
  exact ⟨action, has, fires⟩

theorem fires_nothing {before after : List JsValue} (handled : Handled settings (before ++ j :: after))
    (made : gesture (since j.button before) j = none) :
    Fires settings (before ++ j :: after) before.length j none := by
  have fires := fires_gesture handled
  rwa [made, Option.bind_none] at fires

theorem gesture_release {t : UInt32} {d : Int} (release : j.Releases b)
    (elapsed : d = ((j.time.toNat : Int) - t.toNat) % 4294967296) :
    gesture (some t) j =
      if 10000 < d then none
      else if 2000 < d then some (b.toNat + 100)
      else if 100 < d then some b.toNat
      else none := by
  obtain ⟨type, rfl, value⟩ := release
  rw [← elapsed_eq] at elapsed
  simp only [gesture, type, value, ↓reduceIte, Option.bind_some]
  have limit (n : Nat) : n < (j.time - t).toNat ↔ (n : Int) < d := by omega
  simp only [limit]
  rfl

/-- **Presses.** In a stream whose presses and releases are of buttons that have elements in the arrays and whose
gestures all have bindings, a release fires the binding of its button, or of its long press, exactly when the time since
the latest press lies within the limits; a button that is not held down fires nothing; and what is
fired for a button depends on its own records only. -/
theorem releases_fire (handled : Handled settings events) :
    (∀ before j after b, events = before ++ j :: after → j.Releases b →
      (∀ t d, HeldSince before b t → d = ((j.time.toNat : Int) - t.toNat) % 4294967296 →
        (101 ≤ d ∧ d ≤ 10000 → ∃ action,
          settings[(b.toNat : Int) + if d ≤ 2000 then 0 else 100]? = some action ∧
            Fires settings events before.length j (some action)) ∧
        (¬ (101 ≤ d ∧ d ≤ 10000) → Fires settings events before.length j none)) ∧
      ((∀ t, ¬ HeldSince before b t) → Fires settings events before.length j none)) ∧
    ∀ b events', Handled settings events' → events'.filter (JsValue.own b) = events.filter (JsValue.own b) →
      firedFor b (monitor settings start events').1 = firedFor b (monitor settings start events).1 := by
  refine ⟨?_, fun b events' handled' same => ?_⟩
  · rintro before j after b rfl release
    obtain rfl := release.2.1
    refine ⟨fun t d held elapsed => ?_, fun never => ?_⟩
    · have made := gesture_release release elapsed
      rw [← since_eq_some_iff.mpr held] at made
      constructor
      · rintro ⟨least, most⟩
        by_cases short : d ≤ 2000
        · rw [if_neg (by omega), if_neg (by omega), if_pos (by omega)] at made
          simpa [short] using fires_code handled made
        · rw [if_neg (by omega), if_pos (by omega)] at made
          simpa [short] using fires_code handled made
      · intro outside
        refine fires_nothing handled (made.trans ?_)
        split_ifs with long longer least
        · rfl
        · exact absurd ⟨by omega, by omega⟩ outside
        · exact absurd ⟨by omega, by omega⟩ outside
        · rfl
    · refine fires_nothing handled ?_
      obtain ⟨type, -, value⟩ := release
      simp [gesture, type, value, since_eq_none never]
  · rw [firedFor, firedFor, monitor_handled handled', monitor_handled handled, delivered_own, delivered_own,
      same]

/-- A press and a release. -/
def click (b : UInt8) (pressed released : UInt32) : List JsValue :=
  [⟨pressed, 1, 1, b⟩, ⟨released, 0, 1, b⟩]

/-- What is loaded from a file whose default section has one button. -/
def padSettings : Settings := (∅ : Settings).insertIfNew 1 .stop

theorem pad_loaded : ∃ t, loadConfig padJson [] (Config.initial (some padConfig)) = some t ∧
    t.settings = padSettings := ⟨_, rfl, rfl⟩

theorem click_handled (pressed released : UInt32) (made : gestures [] (click 1 pressed released) = [1]) :
    Handled padSettings (click 1 pressed released) := by
  refine ⟨by simp [click], ?_⟩
  rw [made]
  decide

/-- The clock wraps around while the button is held down. -/
theorem wrapped_click_fires : ∃ action, padSettings[(1 : Int)]? = some action ∧
    Fires padSettings (click 1 4294967000 300) 1 ⟨300, 0, 1, 1⟩ (some action) :=
  ((releases_fire (click_handled 4294967000 300 rfl)).1 [⟨4294967000, 1, 1, 1⟩] ⟨300, 0, 1, 1⟩ [] 1 rfl
    (by decide)).1 4294967000 596 ⟨[], _, [], rfl, by decide, rfl, by simp⟩ (by decide) |>.1 (by decide)

/-! ### Gestures without a binding -/

/-- The whole stream is consumed, and each gesture with a binding fires its action. -/
def Survives (settings : Settings) (events : List JsValue) : Prop :=
  ∃ t, monitor settings start events = (delivered settings [] events, .ok t)

theorem bound_of_survives (buttons : ∀ j ∈ events, j.Indexes → j.button.toNat < 24)
    (survives : Survives settings events) : ∀ code ∈ gestures [] events, Bound settings code := by
  obtain ⟨t, ran⟩ := survives
  by_contra missing
  push Not at missing
  obtain ⟨code, failed⟩ := monitor_unbound tracks_start buttons missing
  rw [ran] at failed
  cases failed

/-- **An unbound gesture ends the thread.** For all settings and every stream whose presses and releases are of
buttons that have elements in the arrays, the stream is consumed and every gesture with a binding delivered exactly
when every gesture of the stream has a binding. -/
theorem survives_iff (buttons : ∀ j ∈ events, j.Indexes → j.button.toNat < 24) :
    Survives settings events ↔ ∀ code ∈ gestures [] events, Bound settings code :=
  ⟨bound_of_survives buttons, monitor_eq tracks_start buttons⟩

theorem bound_click_survives : Survives padSettings (click 1 0 500) :=
  (survives_iff (click_handled 0 500 rfl).buttons).mpr (click_handled 0 500 rfl).bound

/-- The second button has no binding, and the first is not heard of any more. -/
theorem unbound_click_ends : ¬ ∀ json udev s t events, loadConfig json udev s = some t →
    (∀ j ∈ events, j.button.toNat < 24) → Survives t.settings events := by
  intro all
  obtain ⟨t, loaded, settings⟩ := pad_loaded
  have buttons : ∀ j ∈ click 2 0 500 ++ click 1 600 900, j.button.toNat < 24 := by simp [click]
  have survives := all _ _ _ t _ loaded buttons
  rw [settings] at survives
  exact absurd (bound_of_survives (fun j member _ => buttons j member) survives 2 (by decide)) (by decide)

/-! ### Accesses to the arrays -/

/-- Every access in the stream is within the bounds of the arrays. -/
def InBounds (settings : Settings) (events : List JsValue) : Prop :=
  ∀ i, (monitor settings start events).2 ≠ .error (.outOfBounds i)

theorem handle_out (settings : Settings) (s : State) (indexes : j.Indexes) (out : ¬ j.button.toNat < 24) :
    handle settings s j = .error (.outOfBounds j.button.toNat) := by
  obtain ⟨type, value | value⟩ := indexes
  · simp only [handle, type, value, assign, dif_neg out, ↓reduceIte]
    rfl
  · have up : ¬ (0 : Int16) = 1 := by decide
    simp only [handle, type, value, up, element, dif_neg out, ↓reduceIte]
    rfl

/-- A look-up that fails is all that can go wrong where the button has an element. -/
theorem monitor_in (settings : Settings) (s : State) (i : Nat)
    (small : ∀ j ∈ events, j.Indexes → j.button.toNat < 24) :
    (monitor settings s events).2 ≠ .error (.outOfBounds i) := by
  induction events generalizing s with
  | nil => simp [monitor]
  | cons j events ih =>
    obtain ⟨first, others⟩ := List.forall_mem_cons.mp small
    obtain ⟨t, -, handled⟩ := handle_eq settings s first
    cases made : gesture (s.since j.button) j with
    | none =>
      rw [made, Option.elim_none] at handled
      rw [monitor, handled]
      exact ih t others
    | some code =>
      rw [made, Option.elim_some, binding] at handled
      cases has : settings[(code : Int)]? with
      | none =>
        rw [has] at handled
        rw [monitor, handled]
        simp [Except.map]
      | some action =>
        rw [has] at handled
        rw [monitor, handled]
        exact ih t others

/-- Settings in which the first codes are bound. -/
def everyCode : Nat → Settings
  | 0 => ∅
  | n + 1 => (everyCode n).insertIfNew n .noop

theorem every_code_bound {n code : Nat} (small : code < n) : Bound (everyCode n) code := by
  induction n with
  | zero => omega
  | succ n ih =>
    rw [everyCode, Bound, Std.ExtTreeMap.getElem?_insertIfNew]
    split
    · rfl
    next kept =>
      by_cases last : code = n
      · subst last
        have present := not_not.mp fun absent => kept ⟨Std.ReflCmp.compare_self, absent⟩
        exact Std.ExtTreeMap.isSome_getElem?_iff_mem.mpr present
      · exact ih (by omega)

theorem gesture_lt {held : Option UInt32} {code : Nat} (made : gesture held j = some code) : code < 556 := by
  have byte := j.button.toNat_lt
  unfold gesture at made
  split_ifs at made
  · obtain ⟨t, -, timed⟩ := Option.bind_eq_some_iff.mp made
    dsimp only at timed
    split_ifs at timed <;> cases timed <;> omega
  · cases made
    omega
  · cases made
    omega

theorem monitor_out (s : State) (some_ : ∃ j ∈ events, j.Indexes ∧ ¬ j.button.toNat < 24) :
    ∃ i, (monitor (everyCode 556) s events).2 = .error (.outOfBounds i) := by
  induction events generalizing s with
  | nil => simp at some_
  | cons j events ih =>
    by_cases small : j.Indexes → j.button.toNat < 24
    · have later : ∃ j ∈ events, j.Indexes ∧ ¬ j.button.toNat < 24 := by
        obtain ⟨k, member, indexes, out⟩ := some_
        rcases List.mem_cons.mp member with rfl | member
        · exact absurd (small indexes) out
        · exact ⟨k, member, indexes, out⟩
      obtain ⟨t, -, handled⟩ := handle_eq (everyCode 556) s small
      cases made : gesture (s.since j.button) j with
      | none =>
        rw [made, Option.elim_none] at handled
        rw [monitor, handled]
        exact ih t later
      | some code =>
        obtain ⟨action, has⟩ := Option.isSome_iff_exists.mp (every_code_bound (gesture_lt made))
        rw [made, Option.elim_some, binding, has] at handled
        rw [monitor, handled]
        exact ih t later
    · obtain ⟨indexes, out⟩ := Classical.not_imp.mp small
      rw [monitor, handle_out _ s indexes out]
      exact ⟨_, rfl⟩

/-- **The arrays have 24 elements.** Whatever the settings, a stream is read without an access past
the end of an array exactly when every press and release in it is of a button below 24. -/
theorem in_bounds_iff (events : List JsValue) :
    (∀ settings, InBounds settings events) ↔ ∀ j ∈ events, j.Indexes → j.button.toNat < 24 := by
  constructor
  · intro safe
    by_contra large
    push Not at large
    obtain ⟨j, member, indexes, out⟩ := large
    obtain ⟨i, failed⟩ := monitor_out start ⟨j, member, indexes, not_lt.mpr out⟩
    exact safe _ i failed
  · intro small settings i
    exact monitor_in settings start i small

end Loop

/-- A press of the 25th button. -/
theorem button_past_the_end : ¬ ∀ events settings, InBounds settings events := by
  intro safe
  exact safe [⟨0, 1, 1, 24⟩] ∅ 24 rfl

end Sws.Joystick.Monitor
