import Mathlib.Data.List.Forall2
import Sws.Words

/-! The inner loop of `player::file_watcher`: it goes through the records that `read` has put into the
buffer, each a header and a name field of a length that the header gives, and scans the directories
created under the root. -/
namespace Sws.Watcher

def inCreate : UInt32 := 0x100

def inIsdir : UInt32 := 0x40000000

/-- `EVENT_SIZE`, the header of an `inotify_event`. -/
def eventSize : Nat := 16

/-- `BUF_LEN`. -/
def bufLen : Nat := 1024 * (eventSize + 4096)

/-- The header of an `inotify_event`; `wd` is kept as its bits. -/
structure Event where
  wd : UInt32
  mask : UInt32
  cookie : UInt32
  len : UInt32
  deriving DecidableEq, Repr

def word (order : ByteOrder) (bytes : Text) : UInt32 := .ofNat (order.read (bytes.take 4))

/-- The header at a place in the buffer; `none` where it runs past the end. -/
def event (order : ByteOrder) (bytes : Text) : Option Event :=
  if bytes.length < eventSize then none
  else some
    { wd := word order bytes
      mask := word order (bytes.drop 4)
      cookie := word order (bytes.drop 8)
      len := word order (bytes.drop 12) }

/-- `event->name` as a C string; `none` where no terminator follows. -/
def eventName (bytes : Text) : Option Text :=
  if nul ∈ bytes.drop eventSize then some (cStr (bytes.drop eventSize)) else none

structure State where
  i : Int
  /-- The places and headers of the records looked at. -/
  visited : List (Nat × Event)
  /-- The arguments of the calls of `populate`. -/
  populated : List Text
  deriving DecidableEq, Repr

def start : State := ⟨0, [], []⟩

/-- What the body of the loop calls `populate` with. -/
def calls (root : Text) (event : Event) (bytes : Text) : Option (List Text) :=
  if event.len ≠ 0 then
    (eventName bytes).map fun name =>
      if event.mask &&& inCreate ≠ 0 then
        if event.mask &&& inIsdir ≠ 0 then [root ++ name ++ "/"] else []
      else []
  else some []

/-- The body of the loop; `none` where it reads past the buffer. The sum is taken as a `size_t` and
stored into an `int`. -/
def turn (order : ByteOrder) (root buffer : Text) (s : State) : Option State := do
  if s.i < 0 then none
  let bytes := buffer.drop s.i.toNat
  let event ← event order bytes
  let populated ← calls root event bytes
  return {
    i := (s.i + eventSize + event.len.toNat).bmod 4294967296
    visited := s.visited ++ [(s.i.toNat, event)]
    populated := s.populated ++ populated }

/-- The loop, for as many turns as there is fuel. -/
def loop (order : ByteOrder) (root buffer : Text) (length : Int) : Nat → State → Option State
  | 0, _ => none
  | fuel + 1, s =>
    if s.i < length then (turn order root buffer s).bind (loop order root buffer length fuel)
    else some s

/-! ### Records -/

/-- The name field of a record: a file name, its terminator and more NULs to fill the field. -/
structure FileName where
  name : Text
  padding : Nat
  named : name ≠ []
  whole : nul ∉ name
  single : '/' ∉ name

def FileName.bytes (f : FileName) : Text := f.name ++ nul :: List.replicate f.padding nul

/-- A record as the kernel writes it; one about the watched directory itself has no name. -/
structure Record where
  wd : UInt32
  mask : UInt32
  cookie : UInt32
  file : Option FileName

namespace Record

def field (r : Record) : Text := r.file.elim [] FileName.bytes

def event (r : Record) : Event := ⟨r.wd, r.mask, r.cookie, .ofNat r.field.length⟩

def bytes (order : ByteOrder) (r : Record) : Text :=
  order.write 4 r.wd.toNat ++ order.write 4 r.mask.toNat ++ order.write 4 r.cookie.toNat ++
    order.write 4 r.event.len.toNat ++ r.field

/-- The directory that a record says was created. -/
def created (r : Record) : Option Text :=
  if r.mask &&& inCreate ≠ 0 ∧ r.mask &&& inIsdir ≠ 0 then r.file.map (·.name) else none

/-- The places and headers of records one after another. -/
def visits (place : Nat) : List Record → List (Nat × Event)
  | [] => []
  | r :: rest => (place, r.event) :: visits (place + eventSize + r.field.length) rest

variable {order : ByteOrder} {r : Record}

theorem length_bytes (order : ByteOrder) (r : Record) : (r.bytes order).length = eventSize + r.field.length := by
  simp [bytes, eventSize]
  omega

theorem event_bytes (rest : Text) : Watcher.event order (r.bytes order ++ rest) = some r.event := by
  have long : ¬ (r.bytes order ++ rest).length < eventSize := by
    rw [List.length_append, length_bytes]
    omega
  rw [Watcher.event, if_neg long]
  have first (n : Nat) (tail : Text) :
      word order (order.write 4 n ++ tail) = .ofNat (order.read (order.write 4 n)) := by
    rw [word, List.take_left' (order.length_write 4 n)]
  have skip (n m : Nat) (tail : Text) : (order.write 4 n ++ tail).drop (m + 4) = tail.drop m := by
    rw [Nat.add_comm, ← List.drop_drop, List.drop_left' (order.length_write 4 n)]
  simp only [bytes, List.append_assoc, skip _ 0, skip _ 4, skip _ 8, List.drop_zero, first, ByteOrder.read_word]
  rfl

end Record

/-- The path scanned for a directory created under the root. -/
def directory (root name : Text) : Text := root ++ name ++ "/"

variable {order : ByteOrder} {root before after rest : Text} {records : List Record} {r : Record} {s : State}

/-! ### The loop -/

theorem field_eq_nil_iff : r.field = [] ↔ r.file = none := by
  obtain ⟨wd, mask, cookie, file⟩ := r
  cases file with
  | none => simp [Record.field]
  | some f => simp [Record.field, FileName.bytes]

theorem event_name_bytes {f : FileName} (named : r.file = some f) :
    eventName (r.bytes order ++ after) = some f.name := by
  have field : (r.bytes order ++ after).drop eventSize = f.name ++ nul :: (List.replicate f.padding nul ++ after) := by
    have header : (order.write 4 r.wd.toNat ++ order.write 4 r.mask.toNat ++ order.write 4 r.cookie.toNat ++
        order.write 4 r.event.len.toNat).length = eventSize := by
      simp [eventSize]
    rw [Record.bytes, List.append_assoc, List.drop_left' header, Record.field, named]
    simp [FileName.bytes]
  rw [eventName, field, if_pos (by simp), c_str_append f.whole]
  simp [cStr]

theorem calls_record (len : r.event.len.toNat = r.field.length) :
    calls root r.event (r.bytes order ++ after) = some (r.created.map (directory root)).toList := by
  have mask : r.event.mask = r.mask := rfl
  cases named : r.file with
  | none =>
    have empty : r.event.len = 0 := by
      rw [field_eq_nil_iff.mpr named] at len
      exact UInt32.toNat_inj.mp len
    simp [calls, empty, Record.created, named]
  | some f =>
    have some_ : r.event.len ≠ 0 := by
      intro zero
      rw [zero, eq_comm, UInt32.toNat_zero, List.length_eq_zero_iff, field_eq_nil_iff, named] at len
      cases len
    rw [calls, if_pos some_, event_name_bytes named, mask, Record.created, named]
    split_ifs <;> simp_all [directory]

/-- **One turn.** At the start of a record the loop looks at it, moves to its end, and scans the
directory it says was created. -/
theorem turn_record (placed : s.i = before.length)
    (fits : before.length + (r.bytes order).length ≤ bufLen) :
    turn order root (before ++ (r.bytes order ++ after)) s = some
      { i := (before.length + (r.bytes order).length : Nat)
        visited := s.visited ++ [(before.length, r.event)]
        populated := s.populated ++ (r.created.map (directory root)).toList } := by
  rw [Record.length_bytes] at fits ⊢
  have size : eventSize = 16 := rfl
  have most : bufLen = 4210688 := rfl
  have len : r.event.len.toNat = r.field.length := by
    rw [Record.event, UInt32.toNat_ofNat', Nat.mod_eq_of_lt (by omega)]
  have next : (s.i + eventSize + r.event.len.toNat).bmod 4294967296 =
      (before.length + (eventSize + r.field.length) : Nat) := by
    rw [Int.bmod_eq_of_le (by omega) (by omega)]
    omega
  have inside : ¬ s.i < 0 := by omega
  have here : s.i.toNat = before.length := by omega
  simp only [turn, inside, ↓reduceIte, here, List.drop_left, Record.event_bytes, calls_record len,
    Option.bind_eq_bind, Option.bind_some, next]
  rfl

/-- **The loop over records.** It ends at the end of the last one. -/
theorem loop_records (placed : s.i = before.length)
    (fits : before.length + (records.flatMap (Record.bytes order)).length ≤ bufLen) {fuel : Nat}
    (enough : records.length < fuel) :
    loop order root (before ++ (records.flatMap (Record.bytes order) ++ rest))
        (before.length + (records.flatMap (Record.bytes order)).length : Nat) fuel s = some
      { i := (before.length + (records.flatMap (Record.bytes order)).length : Nat)
        visited := s.visited ++ Record.visits before.length records
        populated := s.populated ++ (records.filterMap Record.created).map (directory root) } := by
  induction records generalizing before s fuel with
  | nil =>
    obtain ⟨fuel, rfl⟩ := Nat.exists_eq_succ_of_ne_zero (Nat.ne_of_gt enough)
    simp only [loop, List.flatMap_nil, List.length_nil, Nat.add_zero, placed, Int.lt_irrefl,
      ↓reduceIte, Record.visits, List.filterMap_nil, List.map_nil, List.append_nil]
    rw [← placed]
  | cons r records ih =>
    obtain ⟨fuel, rfl⟩ := Nat.exists_eq_succ_of_ne_zero (Nat.ne_of_gt (Nat.zero_lt_of_lt enough))
    rw [List.flatMap_cons, List.length_append] at fits ⊢
    have more : s.i < (before.length + ((r.bytes order).length +
        (records.flatMap (Record.bytes order)).length) : Nat) := by
      have size : eventSize = 16 := rfl
      have header := r.length_bytes order
      omega
    let moved : State :=
      { i := (before.length + (r.bytes order).length : Nat)
        visited := s.visited ++ [(before.length, r.event)]
        populated := s.populated ++ (r.created.map (directory root)).toList }
    have length : (before ++ r.bytes order).length = before.length + (r.bytes order).length :=
      List.length_append
    have placed' : moved.i = (before ++ r.bytes order).length := by rw [length]
    have onwards := ih placed' (by omega) (by simpa using enough)
    rw [List.append_assoc before, length, Nat.add_assoc] at onwards
    have created : ((r :: records).filterMap Record.created).map (directory root) =
        (r.created.map (directory root)).toList ++
          (records.filterMap Record.created).map (directory root) := by
      cases said : r.created <;> simp [said]
    rw [loop, if_pos more, List.append_assoc (r.bytes order), turn_record placed (by omega),
      Option.bind_some, onwards, created, Record.visits, Nat.add_assoc before.length eventSize,
      ← r.length_bytes order]
    simp only [moved, List.append_assoc, List.singleton_append]

/-! ### Paths -/

/-- The components of a path; slashes in a row or at its end make no difference. -/
def components (path : Text) : List Text := (path.splitOn '/').filter (· ≠ [])

/-- The path is that of an entry of this name in the directory `root`. -/
structure Inside (root name path : Text) : Prop where
  components : components path = components root ++ [name]
  absolute : path.head? = some '/' ↔ root.head? = some '/'

theorem components_append_slash (front tail : Text) :
    components (front ++ '/' :: tail) = components front ++ components tail := by
  rw [components, List.splitOn_append_cons_self, List.filter_append]
  rfl

theorem components_single {name : Text} (named : name ≠ []) (single : '/' ∉ name) :
    components name = [name] := by
  rw [components, List.splitOn_eq_singleton single, List.filter_cons_of_pos (by simpa using named),
    List.filter_nil]

/-- A path up to its last slash, and what follows it. -/
theorem exists_last_component (path : Text) :
    ∃ last, '/' ∉ last ∧ (path = last ∨ ∃ front, path = front ++ '/' :: last) := by
  induction path with
  | nil => exact ⟨[], List.not_mem_nil, .inl rfl⟩
  | cons c path ih =>
    obtain ⟨last, single, rfl | ⟨front, rfl⟩⟩ := ih
    · by_cases slash : c = '/'
      · exact ⟨path, single, .inr ⟨[], by rw [slash, List.nil_append]⟩⟩
      · exact ⟨c :: path, by simp [single, Ne.symm slash], .inl rfl⟩
    · exact ⟨last, single, .inr ⟨c :: front, rfl⟩⟩

theorem components_slash (path : Text) : components (path ++ ['/']) = components path := by
  rw [components_append_slash]
  exact List.append_nil _

/-- Put after a root that ends in another character, a name is no component of its own. -/
theorem length_components_directory {name : Text} (named : root ≠ []) (open_ : root.getLast? ≠ some '/')
    (single : '/' ∉ name) : (components (directory root name)).length = (components root).length := by
  rw [directory, show text "/" = ['/'] from rfl, components_slash]
  obtain ⟨last, within, rfl | ⟨front, rfl⟩⟩ := exists_last_component root
  · rw [components_single named within, components_single (by simp [named]) (by simp [within, single])]
    rfl
  · have some_ : last ≠ [] := by
      rintro rfl
      simp at open_
    have grown : components (last ++ name) = [last ++ name] :=
      components_single (by simp [some_]) (by simp [within, single])
    rw [List.append_assoc, List.cons_append, components_append_slash, components_append_slash,
      components_single some_ within, grown, List.length_append, List.length_append]
    rfl

theorem inside_directory_iff {name : Text} (rooted : root ≠ []) (named : name ≠ [])
    (single : '/' ∉ name) : Inside root name (directory root name) ↔ root.getLast? = some '/' := by
  constructor
  · intro inside
    by_contra open_
    have same := congrArg List.length inside.components
    rw [length_components_directory rooted open_ single, List.length_append] at same
    simp at same
  · intro closed
    obtain ⟨front, rfl⟩ := List.getLast?_eq_some_iff.mp closed
    refine ⟨?_, ?_⟩
    · rw [directory, show text "/" = ['/'] from rfl, components_slash, components_slash,
        List.append_assoc, List.singleton_append, components_append_slash, components_single named single]
    · rw [directory, List.append_assoc, List.head?_append_of_ne_nil _ rooted]

/-- The loop ends where what was read ends, has looked at each record once, in order, and has
scanned just the directories that the records say were created in the root. -/
def Watches (order : ByteOrder) (root : Text) (records : List Record) (rest : Text) : Prop :=
  let read := records.flatMap (Record.bytes order)
  ∃ t, (∀ fuel, records.length < fuel → loop order root (read ++ rest) read.length fuel start = some t) ∧
    t.i = read.length ∧ t.visited = Record.visits 0 records ∧
    List.Forall₂ (Inside root) (records.filterMap Record.created) t.populated

theorem forall₂_inside_iff {names : List Text} (rooted : root ≠ [])
    (proper : ∀ name ∈ names, name ≠ [] ∧ '/' ∉ name) :
    List.Forall₂ (Inside root) names (names.map (directory root)) ↔
      root.getLast? = some '/' ∨ names = [] := by
  rw [List.forall₂_map_right_iff, List.forall₂_same]
  constructor
  · intro inside
    by_cases none : names = []
    · exact .inr none
    · obtain ⟨name, member⟩ := List.exists_mem_of_ne_nil _ none
      obtain ⟨named, single⟩ := proper name member
      exact .inl ((inside_directory_iff rooted named single).mp (inside name member))
  · rintro (closed | rfl) name member
    · obtain ⟨named, single⟩ := proper name member
      exact (inside_directory_iff rooted named single).mpr closed
    · cases member

theorem proper_created {name : Text} (member : name ∈ records.filterMap Record.created) :
    name ≠ [] ∧ '/' ∉ name := by
  obtain ⟨r, -, said⟩ := List.mem_filterMap.mp member
  unfold Record.created at said
  split_ifs at said
  obtain ⟨f, -, rfl⟩ := Option.map_eq_some_iff.mp said
  exact ⟨f.named, f.single⟩

/-- The loop over what was read, from its first record. -/
theorem loop_read (fits : (records.flatMap (Record.bytes order)).length ≤ bufLen) {fuel : Nat}
    (enough : records.length < fuel) :
    loop order root (records.flatMap (Record.bytes order) ++ rest)
        (records.flatMap (Record.bytes order)).length fuel start = some
      { i := (records.flatMap (Record.bytes order)).length
        visited := Record.visits 0 records
        populated := (records.filterMap Record.created).map (directory root) } := by
  have placed : start.i = ([] : Text).length := rfl
  have ran : loop order root ([] ++ (records.flatMap (Record.bytes order) ++ rest))
      (0 + (records.flatMap (Record.bytes order)).length : Nat) fuel start = some _ :=
    loop_records placed (by simpa using fits) enough
  simpa [start] using ran

theorem watches_iff_inside (fits : (records.flatMap (Record.bytes order)).length ≤ bufLen) :
    Watches order root records rest ↔ List.Forall₂ (Inside root) (records.filterMap Record.created)
      ((records.filterMap Record.created).map (directory root)) := by
  constructor
  · rintro ⟨t, ran, -, -, inside⟩
    have same := (ran _ (Nat.lt_succ_self _)).symm.trans (loop_read fits (Nat.lt_succ_self _))
    cases same
    exact inside
  · intro inside
    exact ⟨_, fun fuel enough => loop_read fits enough, rfl, rfl, inside⟩

/-- **The root needs its slash.** For complete records that fit the buffer the loop does what it is
for exactly when the root ends with a slash, or no record says that a directory was created. -/
theorem watches_iff (order : ByteOrder) (rooted : root ≠ [])
    (fits : (records.flatMap (Record.bytes order)).length ≤ bufLen) (rest : Text) :
    Watches order root records rest ↔ root.getLast? = some '/' ∨ ∀ r ∈ records, r.created = none := by
  rw [watches_iff_inside fits, forall₂_inside_iff rooted fun _ member => proper_created member,
    List.filterMap_eq_nil_iff]

/-- A directory was created. -/
def directoryCreated : Record where
  wd := 1
  mask := inCreate ||| inIsdir
  cookie := 0
  file := some ⟨"dir", 12, by decide, by decide, by decide⟩

/-- The root of the default configuration. -/
theorem default_root_watched : Watches .little "/media/" [directoryCreated] "" :=
  (watches_iff .little (by decide) (by decide) "").mpr (.inl rfl)

/-- The same root without its slash: `/mediadir/` is scanned. -/
theorem root_without_slash_missed :
    ¬ ∀ (order : ByteOrder) (root : Text) (records : List Record) (rest : Text), root ≠ [] →
      (records.flatMap (Record.bytes order)).length ≤ bufLen → Watches order root records rest := by
  intro all
  have watched := all .little "/media" [directoryCreated] "" (by decide) (by decide)
  have inside := (watches_iff_inside (by decide)).mp watched
  rcases (forall₂_inside_iff (by decide) fun _ member => proper_created member).mp inside with closed | none
  · exact absurd closed (by decide)
  · exact absurd none (by decide)

end Sws.Watcher
