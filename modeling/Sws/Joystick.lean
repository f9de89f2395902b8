import Mathlib.Data.List.Basic
import Sws.Text

/-! The actions a joystick can be bound to, and their names. -/
namespace Sws.Joystick

/-- `joystick::ACTION_TYPE`. -/
inductive ActionType
  | noop | next | previous | stop | play | pause | rewind | fastforward | shuffle | favorite
  | addToPlaylist | volumeUp | volumeDown | getSuggestion | download | menu | say | playlistUp
  | playlistDown | sameArtist | delete | confirm | eof
  deriving DecidableEq, Repr

/-- `joystick::actions`. -/
def actions : List (Text × ActionType) :=
  [("noop", .noop), ("next", .next), ("previous", .previous), ("stop", .stop), ("play", .play),
   ("pause", .pause), ("rewind", .rewind), ("fastforward", .fastforward), ("shuffle", .shuffle),
   ("favorite", .favorite), ("add_to_playlist", .addToPlaylist), ("volume_up", .volumeUp),
   ("volume_down", .volumeDown), ("get_suggestion", .getSuggestion), ("download", .download),
   ("menu", .menu), ("say", .say), ("playlist_up", .playlistUp), ("playlist_down", .playlistDown),
   ("same_artist", .sameArtist), ("delete_", .delete), ("confirm", .confirm), ("eof", .eof)]

/-- `joystick::enum_to_string`. Each action has one name, so the order of the map does not matter. -/
def enumToString (a : ActionType) : Text := ((actions.find? (·.2 = a)).map (·.1)).getD "noop"

/-- Every action has a name, and the name leads back to it. -/
theorem lookup_enum_to_string (a : ActionType) : actions.lookup (enumToString a) = some a := by
  cases a <;> decide

end Sws.Joystick
