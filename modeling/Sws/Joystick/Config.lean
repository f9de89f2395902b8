import Std.Data.ExtTreeMap
import Sws.Joystick
import Sws.Ptree

/-! The button maps in `joystick.conf`: a section for each device that has one, and a default. -/
namespace Sws.Joystick.Config

/-- `joystick::settings`. -/
abbrev Settings := Std.ExtTreeMap Int ActionType

/-- The functions of the property tree library for JSON. -/
structure Json where
  /-- `read_json`; it throws on a text that it cannot read. -/
  read : Text → Option Ptree
  /-- `write_json`. -/
  write : Ptree → Text

/-- The input devices that have a device node, with the numbers read from `idVendor` and
`idProduct`. -/
abbrev Udev := List (Text × Nat × Nat)

structure State where
  devPath : Text
  vendorId : Nat
  productId : Nat
  settings : Settings
  /-- `joystick.conf`, if it exists. -/
  file : Option Text

/-- The static members before anything is loaded. -/
def initial (file : Option Text) : State :=
  { devPath := "/dev/input/js0", vendorId := 0, productId := 0, settings := ∅, file := file }

/-- `joystick::default_joystick_config`. -/
def defaultJoystickConfig : Text :=
  text "\x7b\"joysticks\":\x7b\"default\":\x7b\"noop\":-1,\"next\":204,\"previous\":304,\"stop\":8," ++
  text "\"play\":9,\"pause\":109,\"rewind\":0,\"fastforward\":2,\"shuffle\":7,\"favorite\":1," ++
  text "\"add_to_playlist\":3,\"volume_up\":301,\"volume_down\":201,\"get_suggestion\":103," ++
  text "\"download\":101,\"menu\":12,\"say\":5,\"confirm\":112,\"playlist_up\":305," ++
  text "\"playlist_down\":205,\"same_artist\":6,\"eof\":-1\x7d\x7d\x7d"

/-! ### Devices -/

/-- `joystick::get_hwids_by_path`: zeros, until the loop finds the device. -/
def getHwidsByPath (udev : Udev) (devPath : Text) : Nat × Nat :=
  udev.foldl (fun ids (node, ven, pro) =>
    if node = devPath ∧ ven > 0 ∧ pro > 0 then (ven, pro) else ids) (0, 0)

/-- `std::setw(4) << std::hex`, filled with zeros. -/
def hex4 (n : Nat) : Text := (Nat.toDigits 16 n).leftpad 4 '0'

/-- The key of a device's section. -/
def hwid (ids : Nat × Nat) : Text := hex4 ids.1 ++ hex4 ids.2

/-! ### Loading -/

/-- The body of the loop of `joystick::load_config`. A value that is no `int` throws; a code that is
bound already stays bound, and a key that names no action is passed over. -/
def readEntry (settings : Settings) (entry : Text × Ptree) : Option Settings := do
  let code ← readInt entry.2.data
  match actions.lookup entry.1 with
  | some action => return settings.insertIfNew code action
  | none => return settings

def readSection (js : Ptree) : Option Settings := js.children.foldlM readEntry ∅

/-- The section of a key, and the default where the key has none. -/
def chooseSection (pt : Ptree) (key : Text) : Option Ptree :=
  match pt.find key with
  | none => pt.find "default"
  | some _ => pt.find key

/-- The sections in a file's contents. -/
def sections (json : Json) (contents : Text) : Option Ptree := do
  let parent ← json.read contents
  parent.find "joysticks"

/-- What `joystick::load_config` makes of a file's contents for a device. -/
def configured (json : Json) (contents : Text) (ids : Nat × Nat) : Option Settings := do
  let pt ← sections json contents
  let js ← chooseSection pt (hwid ids)
  readSection js

namespace State

def ids (s : State) : Nat × Nat := (s.vendorId, s.productId)

/-- A file that does not exist is made with the default configuration. -/
def contents (s : State) : Text := s.file.getD defaultJoystickConfig

end State

/-- `joystick::load_config`; none where it throws. -/
def loadConfig (json : Json) (udev : Udev) (s : State) : Option State := do
  let ids := if s.vendorId = 0 ∨ s.productId = 0 then getHwidsByPath udev s.devPath else s.ids
  let settings ← configured json s.contents ids
  return { s with vendorId := ids.1, productId := ids.2, settings := settings, file := some s.contents }

/-! ### Saving -/

/-- The tree `joystick::save_config` makes of the settings, in the order of their codes. -/
def newtree (settings : Settings) : Ptree :=
  settings.toList.foldl (fun t (code, action) => t.put (enumToString action) (decimal code)) (.leaf "")

/-- The sections with the new one. -/
def withSection (hwid : Text) (newtree js : Ptree) : Ptree :=
  match js.find hwid with
  | none => js.addChild hwid newtree
  | some _ => js.putChild hwid newtree

/-- The file's tree with the new section, under the default key too. -/
def updated (hwid : Text) (newtree parent : Ptree) : Option Ptree := do
  let js ← parent.find "joysticks"
  let js := withSection hwid newtree js
  let parent := parent.putChild "joysticks" js
  return if hwid ≠ "default" then parent.putChild "joysticks" (js.putChild "default" newtree) else parent

/-- The key under which `joystick::save_config` puts the settings. -/
def savedKey (ids : Nat × Nat) : Text := if ids.1 = 0 ∨ ids.2 = 0 then "default" else hwid ids

/-- `joystick::save_config`; none where it throws. -/
def saveConfig (json : Json) (udev : Udev) (s : State) : Option State := do
  let contents ← s.file
  let parent ← json.read contents
  let saved ← updated (savedKey (getHwidsByPath udev s.devPath)) (newtree s.settings) parent
  return { s with file := some (json.write saved) }

/-! ### What they leave -/

section Loading

variable {json : Json} {udev : Udev} {s t : State} {contents : Text} {ids : Nat × Nat}

/-- Both numbers are found, or neither. -/
theorem get_hwids_by_path_zero (udev : Udev) (devPath : Text) :
    getHwidsByPath udev devPath = (0, 0) ∨
      ((getHwidsByPath udev devPath).1 ≠ 0 ∧ (getHwidsByPath udev devPath).2 ≠ 0) := by
  unfold getHwidsByPath
  refine List.foldlRecOn (motive := fun ids : Nat × Nat => ids = (0, 0) ∨ (ids.1 ≠ 0 ∧ ids.2 ≠ 0))
    udev _ (.inl rfl) fun found held device _ => ?_
  dsimp only
  split_ifs with here
  · exact .inr ⟨Nat.ne_of_gt here.2.1, Nat.ne_of_gt here.2.2⟩
  · exact held

/-- What a load that does not throw leaves. -/
theorem load_config_eq_some : loadConfig json udev s = some t ↔
    ∃ ids settings, ids = (if s.vendorId = 0 ∨ s.productId = 0 then getHwidsByPath udev s.devPath else s.ids) ∧
      configured json s.contents ids = some settings ∧
      t = { s with
        vendorId := ids.1
        productId := ids.2
        settings := settings
        file := some s.contents } := by
  rw [loadConfig, Option.bind_eq_bind, Option.bind_eq_some_iff]
  constructor
  · rintro ⟨settings, read, same⟩
    cases same
    exact ⟨_, settings, rfl, read, rfl⟩
  · rintro ⟨ids, settings, rfl, read, rfl⟩
    exact ⟨settings, read, rfl⟩

end Loading

end Sws.Joystick.Config
