import Sws.Text
import Sws.Words
import Sws.Transducer
import Sws.Transition
import Sws.Cyclic
import Sws.Distinct
import Sws.Utf8
import Sws.Rounding
import Sws.Wildcard
import Sws.Fifo
import Sws.Sql.Lexer
import Sws.Sql.Parser
import Sws.Sql.Engine
import Sws.Sql.Scanning
import Sws.Sql.Running
import Sws.Sql.Effects
import Sws.Sql.Cells
import Sws.Sql.Ordering
import Sws.Sql.Like
import Sws.Sql.Provenance
import Sws.Sql.Spanning
import Sws.Database.Statements
import Sws.Database.Quoting
import Sws.Database.Queries
import Sws.Database.Reading
import Sws.Database.Calls
import Sws.Database.Tables
import Sws.Database.Entries
import Sws.Database.Playlists
import Sws.Database.Draining
import Sws.Database.Stock
import Sws.Database.Naming
import Sws.Database.Update
import Sws.Database.Monitor
import Sws.Database.Idle
import Sws.DbQueue
import Sws.Pausing
import Sws.Wsocket
import Sws.Player
import Sws.Joystick
import Sws.Commands
import Sws.Files
import Sws.Catalog
import Sws.Import
import Sws.Resume
import Sws.Selection
import Sws.Playback
import Sws.Track
import Sws.Lines
import Sws.Export
import Sws.Database.Literals
import Sws.Refresh
import Sws.Ptree
import Sws.Joystick.Config
import Sws.Joystick.Plug
import Sws.Joystick.Saving
import Sws.Joystick.Monitor
import Sws.Editing
import Sws.Insertion
import Sws.Pairing
import Sws.Views
import Sws.Traversal
import Sws.Watcher
import Sws.Coverage
import Sws.Influences
import Sws.Cycling
import Sws.Durations
import Sws.Loading
import Sws.Messages
import Sws.Searching
import Sws.Absorbing
import Sws.Md5
import Sws.Hashing
import Sws.Schedules
import Sws.Library
import Sws.Requests
import Sws.Answers
import Sws.Threads
import Sws.Settings
import Sws.Joystick.Reconnect
import Sws.Startup
import Sws.FirstScan
