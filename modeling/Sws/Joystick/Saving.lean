import Sws.Joystick.Config

/-! Settings that are saved and loaded again. In the file the map runs from actions to codes. -/
namespace Sws.Joystick.Config

/-- No two codes are bound to one action. -/
def Unambiguous (settings : Settings) : Prop :=
  ∀ (c c' : Int) (a : ActionType), settings[c]? = some a → settings[c']? = some a → c = c'

/-- The sections of other devices. -/
def otherSections (json : Json) (contents key : Text) : Option (List (Text × Ptree)) :=
  (sections json contents).map fun js => js.children.filter fun e => e.1 ≠ key ∧ e.1 ≠ text "default"

/-- Saved and loaded again, the settings are the same, and so are the sections of other devices. -/
def RoundTrips (json : Json) (udev : Udev) (s : State) : Prop :=
  let key := hwid (getHwidsByPath udev s.devPath)
  ∃ saved after, saveConfig json udev s = some saved ∧ loadConfig json udev saved = some after ∧
    after.settings = s.settings ∧
    otherSections json after.contents key = otherSections json s.contents key

/-- The settings can be restored from a file with these sections: no two codes are bound to one
action. A device without numbers is saved as the default alone, so if there is a section under the
key of zeros, that one has to be of the same settings. -/
def Restorable (js : Ptree) (ids : Nat × Nat) (settings : Settings) : Prop :=
  if ids = (0, 0) ∧ (js.find (hwid ids)).isSome then (js.find (hwid ids)).bind readSection = some settings
  else Unambiguous settings

/-- What was written is read as it was. -/
def Json.Keeps (json : Json) (tree : Ptree) : Prop := json.read (json.write tree) = some tree

/-! ### Maps -/

section Maps

variable {l : List (Int × ActionType)} {m : Settings}

theorem getElem?_inserted (k : Int) :
    (l.foldl (fun (m : Settings) e => m.insertIfNew e.1 e.2) m)[k]? = (m[k]?).or (l.lookup k) := by
  induction l generalizing m with
  | nil => simp
  | cons e l ih =>
    obtain ⟨c, a⟩ := e
    rw [List.foldl_cons, ih, Std.ExtTreeMap.getElem?_insertIfNew, List.lookup_cons]
    by_cases same : k = c
    · subst same
      by_cases held : k ∈ m
      · simp [held]
      · simp [held]
    · simp [beq_false_of_ne same, Ne.symm same]

theorem lookup_of_mem (distinct : l.Pairwise fun a b => ¬ compare a.1 b.1 = .eq) {c : Int} {a : ActionType}
    (held : (c, a) ∈ l) : l.lookup c = some a := by
  obtain ⟨before, after, rfl⟩ := List.append_of_mem held
  refine List.lookup_eq_some_iff.mpr ⟨before, after, rfl, fun e member => ?_⟩
  have apart := (List.pairwise_append.mp distinct).2.2 e member _ List.mem_cons_self
  have other : c ≠ e.1 := by
    rintro rfl
    exact apart Std.ReflCmp.compare_self
  simpa using other

/-- The map is put together again from its entries. -/
theorem inserted_to_list (m : Settings) :
    m.toList.foldl (fun (m : Settings) e => m.insertIfNew e.1 e.2) ∅ = m := by
  apply Std.ExtTreeMap.ext_getElem?
  intro k
  rw [getElem?_inserted]
  cases held : m[k]? with
  | some a =>
    have member := Std.ExtTreeMap.mem_toList_iff_getElem?_eq_some.mpr held
    simp [lookup_of_mem Std.ExtTreeMap.distinct_keys_toList member]
  | none =>
    have absent : m.toList.lookup k = none := by
      refine List.lookup_eq_none_iff.mpr fun e member => ?_
      have bound := Std.ExtTreeMap.mem_toList_iff_getElem?_eq_some.mp member
      have other : k ≠ e.1 := by
        rintro rfl
        cases held.symm.trans bound
      simpa using other
    simp [absent]

theorem unambiguous_iff : Unambiguous m ↔ (m.toList.map Prod.snd).Nodup := by
  constructor
  · intro unambiguous
    refine List.pairwise_map.mpr (Std.ExtTreeMap.distinct_keys_toList.imp_of_mem ?_)
    intro e e' member member' apart same
    have bound := Std.ExtTreeMap.mem_toList_iff_getElem?_eq_some.mp member
    have bound' := Std.ExtTreeMap.mem_toList_iff_getElem?_eq_some.mp member'
    rw [← same] at bound'
    exact apart (by rw [unambiguous _ _ _ bound bound']; exact Std.ReflCmp.compare_self)
  · intro distinct c c' a bound bound'
    have member := Std.ExtTreeMap.mem_toList_iff_getElem?_eq_some.mpr bound
    have member' := Std.ExtTreeMap.mem_toList_iff_getElem?_eq_some.mpr bound'
    exact congrArg Prod.fst (List.inj_on_of_nodup_map distinct member member' rfl)

end Maps

/-! ### Reading a section -/

section Reading

variable {m before : Settings} {entries : List (Text × Ptree)} {c : Int} {a : ActionType}

theorem enum_to_string_injective {a b : ActionType} (same : enumToString a = enumToString b) : a = b := by
  have there := lookup_enum_to_string a
  rw [same, lookup_enum_to_string b] at there
  exact (Option.some.inj there).symm

/-- Every code is bound by an entry. -/
theorem entry_of_bound (read : entries.foldlM readEntry before = some m) (bound : m[c]? = some a) :
    before[c]? = some a ∨
      ∃ e ∈ entries, readInt e.2.data = some c ∧ actions.lookup e.1 = some a := by
  induction entries generalizing before with
  | nil =>
    cases read
    exact .inl bound
  | cons e entries ih =>
    rw [List.foldlM_cons, Option.bind_eq_bind, Option.bind_eq_some_iff] at read
    obtain ⟨middle, first, rest⟩ := read
    rcases ih rest with held | ⟨d, member, reads⟩
    · rw [readEntry, Option.bind_eq_bind, Option.bind_eq_some_iff] at first
      obtain ⟨code, number, first⟩ := first
      cases named : actions.lookup e.1 with
      | none =>
        rw [named] at first
        cases first
        exact .inl held
      | some action =>
        rw [named] at first
        cases first
        rw [Std.ExtTreeMap.getElem?_insertIfNew] at held
        split_ifs at held with here
        · obtain rfl : code = c := Std.LawfulEqCmp.eq_of_compare here.1
          cases held
          exact .inr ⟨e, List.mem_cons_self, number, named⟩
        · exact .inl held
    · exact .inr ⟨d, List.mem_cons_of_mem _ member, reads⟩

theorem entry_of_read {js : Ptree} (read : readSection js = some m) (bound : m[c]? = some a) :
    ∃ e ∈ js.children, readInt e.2.data = some c ∧ actions.lookup e.1 = some a := by
  rcases entry_of_bound read bound with held | found
  · simp at held
  · exact found

/-- The codes that are loaded fit an `int`. -/
theorem in_range_of_configured {json : Json} {contents : Text} {ids : Nat × Nat}
    (read : configured json contents ids = some m) (bound : m[c]? = some a) : InRange c := by
  rw [configured, Option.bind_eq_bind, Option.bind_eq_some_iff] at read
  obtain ⟨pt, -, read⟩ := read
  obtain ⟨js, -, read⟩ := Option.bind_eq_some_iff.mp read
  obtain ⟨e, -, number, -⟩ := entry_of_read read bound
  exact in_range_of_read_int number

/-- The entry of a binding. -/
def entry (e : Int × ActionType) : Text × Ptree := (enumToString e.2, .leaf (decimal e.1))

theorem read_entries {l : List (Int × ActionType)} (range : ∀ e ∈ l, InRange e.1) :
    (l.map entry).foldlM readEntry before =
      some (l.foldl (fun (m : Settings) e => m.insertIfNew e.1 e.2) before) := by
  induction l generalizing before with
  | nil => rfl
  | cons e l ih =>
    obtain ⟨first, rest⟩ := List.forall_mem_cons.mp range
    have one : readEntry before (entry e) = some (before.insertIfNew e.1 e.2) := by
      have number : readInt (entry e).2.data = some e.1 := read_int_decimal first
      have named : actions.lookup (entry e).1 = some e.2 := lookup_enum_to_string e.2
      rw [readEntry, number, named]
      rfl
    rw [List.map_cons, List.foldlM_cons, one, Option.bind_eq_bind, Option.bind_some, ih rest,
      List.foldl_cons]

end Reading

/-! ### The saved section -/

section Section

variable {m : Settings}

theorem children_of_distinct {l : List (Int × ActionType)} {t : Ptree} (distinct : (l.map Prod.snd).Nodup)
    (fresh : ∀ e ∈ l, enumToString e.2 ∉ t.children.map Prod.fst) :
    (l.foldl (fun t (code, action) => t.put (enumToString action) (decimal code)) t).children =
      t.children ++ l.map entry := by
  induction l generalizing t with
  | nil => simp
  | cons e l ih =>
    obtain ⟨first, others⟩ := List.forall_mem_cons.mp fresh
    obtain ⟨apart, distinct⟩ := List.nodup_cons.mp distinct
    have put : (t.put (enumToString e.2) (decimal e.1)).children = t.children ++ [entry e] :=
      set_first_of_not_mem first
    rw [List.foldl_cons, ih distinct]
    · rw [put, List.append_assoc, List.map_cons, List.singleton_append]
    · intro d member
      rw [put, List.map_append, List.mem_append, not_or]
      refine ⟨others d member, ?_⟩
      simp only [List.map_cons, List.map_nil, List.mem_singleton]
      intro same
      exact apart (enum_to_string_injective same ▸ List.mem_map_of_mem member)

/-- The keys of the section are apart, and each entry is one of the bindings. -/
structure Spelt (m : Settings) (t : Ptree) : Prop where
  distinct : (t.children.map Prod.fst).Nodup
  bindings : ∀ e ∈ t.children, ∃ c a, m[c]? = some a ∧ e.1 = enumToString a ∧ e.2.data = decimal c

theorem spelt_newtree (m : Settings) : Spelt m (newtree m) := by
  unfold newtree
  refine List.foldlRecOn (motive := Spelt m) m.toList _ ⟨List.nodup_nil, by simp [Ptree.leaf, Ptree.children]⟩ ?_
  rintro t spelt ⟨c, a⟩ member
  have bound := Std.ExtTreeMap.mem_toList_iff_getElem?_eq_some.mp member
  refine ⟨nodup_set_first spelt.distinct, fun e held => ?_⟩
  rcases mem_set_first held with old | rfl | ⟨v, -, rfl⟩
  · exact spelt.bindings e old
  · exact ⟨c, a, bound, rfl, rfl⟩
  · exact ⟨c, a, bound, rfl, rfl⟩

/-- The saved section is read as the settings exactly when they are unambiguous: of the codes of one
action only the last is in the file. -/
theorem read_newtree_iff (range : ∀ c a, m[c]? = some a → InRange c) :
    readSection (newtree m) = some m ↔ Unambiguous m := by
  constructor
  · intro read c c' a bound bound'
    have spelt := spelt_newtree m
    have own {c : Int} (bound : m[c]? = some a) :
        ∃ e ∈ (newtree m).children, e.1 = enumToString a ∧ readInt e.2.data = some c := by
      obtain ⟨e, member, number, named⟩ := entry_of_read read bound
      obtain ⟨-, b, -, key, -⟩ := spelt.bindings e member
      rw [key, lookup_enum_to_string] at named
      cases named
      exact ⟨e, member, key, number⟩
    obtain ⟨e, member, key, number⟩ := own bound
    obtain ⟨e', member', key', number'⟩ := own bound'
    have same : e = e' := List.inj_on_of_nodup_map spelt.distinct member member' (key.trans key'.symm)
    rw [same, number'] at number
    exact (Option.some.inj number).symm
  · intro unambiguous
    have children : (newtree m).children = m.toList.map entry :=
      children_of_distinct (unambiguous_iff.mp unambiguous) (by simp [Ptree.leaf, Ptree.children])
    rw [readSection, children, read_entries, inserted_to_list]
    exact fun e member => range e.1 e.2 (Std.ExtTreeMap.mem_toList_iff_getElem?_eq_some.mp member)

end Section

/-! ### The file -/

section File

variable {json : Json} {udev : Udev} {s t : State} {contents key : Text} {js parent new : Ptree}
  {ids : Nat × Nat}

/-- No device has the default section for its own. -/
theorem hwid_ne_default (ids : Nat × Nat) : hwid ids ≠ text "default" := by
  intro same
  have long (n : Nat) : 4 ≤ (hex4 n).length := by
    rw [hex4, List.length_leftpad]
    omega
  have length : (hex4 ids.1).length + (hex4 ids.2).length = 7 := by
    rw [← List.length_append]
    exact congrArg List.length same
  have first := long ids.1
  have second := long ids.2
  omega

/-- The tree that is written: the section under its key and the default, and all others as they
were. -/
theorem updated_eq (key : Text) (new : Ptree) (found : parent.find "joysticks" = some js) :
    ∃ tree js', updated key new parent = some tree ∧ tree.find "joysticks" = some js' ∧
      js'.find "default" = some new ∧ js'.find key = some new ∧
      (∀ k, k ≠ key → k ≠ text "default" → js'.find k = js.find k) ∧
      ∀ p : Text → Bool, p key = false → p (text "default") = false →
        js'.children.filter (p ·.1) = js.children.filter (p ·.1) := by
  have put : withSection key new js = js.putChild key new := by
    unfold withSection
    cases absent : js.find key with
    | none => exact Ptree.add_child_eq absent
    | some old => rfl
  have ran : updated key new parent = some (if key ≠ text "default" then
      (parent.putChild "joysticks" (js.putChild key new)).putChild "joysticks"
        ((js.putChild key new).putChild "default" new)
      else parent.putChild "joysticks" (js.putChild key new)) := by
    rw [updated, found, ← put]
    rfl
  by_cases own : key = text "default"
  · rw [if_neg (not_not.mpr own)] at ran
    refine ⟨_, js.putChild key new, ran, by simp, by simp [own], by simp, ?_,
      fun p mine _ => Ptree.filter_put_child mine⟩
    intro k other _
    simp [other]
  · rw [if_pos own] at ran
    refine ⟨_, (js.putChild key new).putChild "default" new, ran, by simp, by simp, by simp, ?_,
      fun p mine fallback => (Ptree.filter_put_child fallback).trans (Ptree.filter_put_child mine)⟩
    intro k other fallback
    simp [other, fallback]

/-- The section a load finds once a new one is saved: an old one under the key of zeros stands before
the default. -/
def savedSection (js : Ptree) (ids : Nat × Nat) (new : Ptree) : Option Ptree :=
  if ids = (0, 0) ∧ (js.find (hwid ids)).isSome then js.find (hwid ids) else some new

theorem choose_updated {js' : Ptree} (zero : ids = (0, 0) ∨ (ids.1 ≠ 0 ∧ ids.2 ≠ 0))
    (fallback : js'.find "default" = some new) (own : js'.find (savedKey ids) = some new)
    (others : ∀ k, k ≠ savedKey ids → k ≠ text "default" → js'.find k = js.find k) :
    chooseSection js' (hwid ids) = savedSection js ids new := by
  unfold savedSection
  rcases zero with rfl | ⟨vendor, product⟩
  · have key : savedKey (0, 0) = text "default" := rfl
    have same : js'.find (hwid (0, 0)) = js.find (hwid (0, 0)) :=
      others _ (by rw [key]; exact hwid_ne_default _) (hwid_ne_default _)
    rw [chooseSection, same]
    cases found : js.find (hwid (0, 0)) with
    | none => simpa using fallback
    | some old => simp
  · have key : savedKey ids = hwid ids := if_neg (not_or.mpr ⟨vendor, product⟩)
    have known : ids ≠ (0, 0) := by
      rintro rfl
      exact vendor rfl
    rw [key] at own
    rw [chooseSection, own, if_neg fun both => known both.1]

/-- The device is the one the numbers in memory are of, if there are any. -/
def SameDevice (udev : Udev) (s : State) : Prop :=
  s.vendorId = 0 ∨ s.productId = 0 ∨ s.ids = getHwidsByPath udev s.devPath

theorem ids_of_same_device (same : SameDevice udev s) :
    (if s.vendorId = 0 ∨ s.productId = 0 then getHwidsByPath udev s.devPath else s.ids) =
      getHwidsByPath udev s.devPath := by
  split_ifs with unknown
  · rfl
  · rcases same with vendor | product | known
    · exact absurd (.inl vendor) unknown
    · exact absurd (.inr product) unknown
    · exact known

theorem ids_of_load (same : SameDevice udev s) (loaded : loadConfig json udev s = some t) :
    t.ids = getHwidsByPath udev t.devPath := by
  obtain ⟨ids, settings, known, -, rfl⟩ := load_config_eq_some.mp loaded
  rw [ids_of_same_device same] at known
  exact known

/-- Only a file with sections can be saved to. -/
theorem sections_of_save (file : s.file = some contents) (saved : saveConfig json udev s = some t) :
    ∃ js, sections json contents = some js := by
  rw [saveConfig, file, Option.bind_eq_bind, Option.bind_some, Option.bind_eq_bind,
    Option.bind_eq_some_iff] at saved
  obtain ⟨parent, read, saved⟩ := saved
  obtain ⟨tree, ran, -⟩ := Option.bind_eq_some_iff.mp saved
  obtain ⟨js, found, -⟩ := Option.bind_eq_some_iff.mp ran
  exact ⟨js, Option.bind_eq_some_iff.mpr ⟨parent, read, found⟩⟩

/-- A save, what a load finds in the file it leaves, and the sections it leaves alone. -/
theorem save_config_eq (known : s.ids = getHwidsByPath udev s.devPath) (file : s.file = some contents)
    (found : sections json contents = some js)
    (keeps : ∀ parent tree, json.read contents = some parent →
      updated (savedKey (getHwidsByPath udev s.devPath)) (newtree s.settings) parent = some tree →
      json.Keeps tree) :
    ∃ written, saveConfig json udev s = some { s with file := some written } ∧
      configured json written s.ids =
        (savedSection js s.ids (newtree s.settings)).bind readSection ∧
      otherSections json written (hwid s.ids) = otherSections json contents (hwid s.ids) := by
  have before := found
  obtain ⟨parent, read, found⟩ := Option.bind_eq_some_iff.mp found
  rw [← known] at keeps
  obtain ⟨tree, js', ran, there, fallback, own, others, filtered⟩ :=
    updated_eq (savedKey s.ids) (newtree s.settings) found
  have kept : json.read (json.write tree) = some tree := keeps parent tree read ran
  have after : sections json (json.write tree) = some js' := by
    rw [sections, kept]
    exact there
  refine ⟨json.write tree, ?_, ?_, ?_⟩
  · rw [saveConfig, ← known, file]
    simp [read, ran]
  · have zero := get_hwids_by_path_zero udev s.devPath
    rw [← known] at zero
    rw [configured, after, ← choose_updated zero fallback own others]
    rfl
  · have mine : savedKey s.ids = text "default" ∨ savedKey s.ids = hwid s.ids := by
      unfold savedKey
      split_ifs
      · exact .inl rfl
      · exact .inr rfl
    rw [otherSections, otherSections, after, before, Option.map_some, Option.map_some]
    refine congrArg some (filtered (fun k => k ≠ hwid s.ids ∧ k ≠ text "default") ?_ (by simp))
    rcases mine with mine | mine <;> simp [mine]

/-- The settings come back exactly if the section a load finds is theirs. -/
theorem round_trips_of_sections (known : s.ids = getHwidsByPath udev s.devPath) (file : s.file = some contents)
    (found : sections json contents = some js)
    (keeps : ∀ parent tree, json.read contents = some parent →
      updated (savedKey (getHwidsByPath udev s.devPath)) (newtree s.settings) parent = some tree →
      json.Keeps tree) :
    RoundTrips json udev s ↔
      (savedSection js s.ids (newtree s.settings)).bind readSection = some s.settings := by
  obtain ⟨written, saved, reading, unchanged⟩ := save_config_eq known file found keeps
  have before : s.contents = contents := by rw [State.contents, file]; rfl
  have device : SameDevice udev { s with file := some written } := .inr (.inr known)
  rw [← reading]
  unfold RoundTrips
  rw [before, ← known]
  constructor
  · rintro ⟨saved', after, ran, loaded, same, -⟩
    cases saved.symm.trans ran
    obtain ⟨ids, settings, chosen, read, rfl⟩ := load_config_eq_some.mp loaded
    rw [ids_of_same_device device] at chosen
    rw [known, ← same, ← chosen]
    exact read
  · intro restored
    refine ⟨_, _, saved, load_config_eq_some.mpr ⟨_, s.settings, rfl, ?_, rfl⟩, rfl, unchanged⟩
    rw [ids_of_same_device device]
    rw [known] at restored
    exact restored

/-- **Saved settings can be ambiguous.** With one device connected throughout, settings that were
loaded come back after a save into a file exactly when the file has sections and no two codes are
bound to one action; the sections of other devices stay as they are. -/
theorem round_trips_iff (same : SameDevice udev s) (loaded : loadConfig json udev s = some t)
    (keeps : ∀ parent tree, json.read contents = some parent →
      updated (savedKey (getHwidsByPath udev t.devPath)) (newtree t.settings) parent = some tree →
      json.Keeps tree) :
    RoundTrips json udev { t with file := some contents } ↔
      ∃ js, sections json contents = some js ∧ Restorable js t.ids t.settings := by
  have known : t.ids = getHwidsByPath udev t.devPath := ids_of_load same loaded
  have range : ∀ c a, t.settings[c]? = some a → InRange c := by
    obtain ⟨ids, settings, -, read, rfl⟩ := load_config_eq_some.mp loaded
    exact fun c a bound => in_range_of_configured read bound
  have restored (js : Ptree) : Restorable js t.ids t.settings ↔
      (savedSection js t.ids (newtree t.settings)).bind readSection = some t.settings := by
    unfold Restorable savedSection
    split_ifs
    · exact Iff.rfl
    · exact (read_newtree_iff range).symm
  have once {js : Ptree} (found : sections json contents = some js) :=
    round_trips_of_sections (s := { t with file := some contents }) known rfl found keeps
  constructor
  · intro trips
    obtain ⟨saved, after, ran, -⟩ := id trips
    obtain ⟨js, found⟩ := sections_of_save rfl ran
    exact ⟨js, found, (restored js).mpr ((once found).mp trips)⟩
  · rintro ⟨js, found, restorable⟩
    exact (once found).mpr ((restored js).mp restorable)

end File

/-- The tree of a file with sections. -/
def conf (sections : List (Text × List (Text × Text))) : Ptree :=
  .node "" [("joysticks", .node "" (sections.map fun s =>
    (s.1, .node "" (s.2.map fun e => (e.1, .leaf e.2)))))]

/-- What is read from a file before and after it is written. -/
def Json.ofFiles (before : Text) (tree : Ptree) (after : Text) (tree' : Ptree) : Json where
  read contents := if contents = before then some tree else if contents = after then some tree' else none
  write _ := after

theorem Json.of_files_keeps {before after : Text} {tree tree' : Ptree} (different : after ≠ before) :
    (Json.ofFiles before tree after tree').Keeps tree' := by
  simp [Json.Keeps, Json.ofFiles, different]

/-- A file that is written has a line break where one that was read may have a key. -/
theorem ne_of_second {s t : Text} (broken : s[1]? = some '\n') (whole : t[1]? = some '"') : s ≠ t := by
  rintro rfl
  rw [broken] at whole
  exact absurd whole (by decide)

/-- One device. -/
def pad : Udev := [("/dev/input/js0", 0x045e, 0x028e)]

def unsaved : Text :=
  text "\x7b\"joysticks\":" ++
  text "\x7b\"default\":\x7b\"play\":9,\"stop\":8\x7d,\"054c0268\":\x7b\"next\":1\x7d\x7d\x7d"

/-- The same file once the settings are saved. -/
def saved : Text :=
  text "\x7b\n    \"joysticks\": \x7b\n" ++
  text "        \"default\": \x7b\n" ++
  text "            \"stop\": \"8\",\n            \"play\": \"9\"\n        \x7d,\n" ++
  text "        \"054c0268\": \x7b\n            \"next\": \"1\"\n        \x7d,\n" ++
  text "        \"045e028e\": \x7b\n" ++
  text "            \"stop\": \"8\",\n            \"play\": \"9\"\n        \x7d\n" ++
  text "    \x7d\n\x7d\n"

def unsavedTree : Ptree :=
  conf [("default", [("play", "9"), ("stop", "8")]), ("054c0268", [("next", "1")])]

def savedTree : Ptree :=
  conf [("default", [("stop", "8"), ("play", "9")]), ("054c0268", [("next", "1")]),
    ("045e028e", [("stop", "8"), ("play", "9")])]

/-- Settings with an action for each code come back. -/
theorem default_settings_round_trip :
    ∃ t, loadConfig (.ofFiles unsaved unsavedTree saved savedTree) pad (initial (some unsaved)) = some t ∧
      RoundTrips (.ofFiles unsaved unsavedTree saved savedTree) pad { t with file := some unsaved } := by
  let settings : Settings := ((∅ : Settings).insertIfNew 9 .play).insertIfNew 8 .stop
  have loaded : loadConfig (.ofFiles unsaved unsavedTree saved savedTree) pad (initial (some unsaved)) = some
      { devPath := "/dev/input/js0"
        vendorId := 0x045e
        productId := 0x028e
        settings := settings
        file := some unsaved } := rfl
  refine ⟨_, loaded, (round_trips_iff (.inl rfl) loaded ?_).mpr ⟨_, rfl, ?_⟩⟩
  · intro parent tree read ran
    have written : updated (savedKey (0x045e, 0x028e)) (newtree settings) unsavedTree = some savedTree := rfl
    cases read
    cases written.symm.trans ran
    exact Json.of_files_keeps (ne_of_second rfl rfl)
  · rw [Restorable, if_neg (by decide)]
    exact unambiguous_iff.mpr (by decide)

/-- A section in which one action has two codes. -/
def repeated : Text := text "\x7b\"joysticks\":\x7b\"default\":\x7b\"play\":1,\"play\":2\x7d\x7d\x7d"

def repeatedTree : Ptree := conf [("default", [("play", "1"), ("play", "2")])]

/-- The same file once the settings are saved. -/
def shortened : Text :=
  text "\x7b\n    \"joysticks\": \x7b\n" ++
  text "        \"default\": \x7b\n            \"play\": \"2\"\n        \x7d,\n" ++
  text "        \"045e028e\": \x7b\n            \"play\": \"2\"\n        \x7d\n" ++
  text "    \x7d\n\x7d\n"

def shortenedTree : Ptree := conf [("default", [("play", "2")]), ("045e028e", [("play", "2")])]

/-- Of two codes for one action the first is lost. -/
theorem repeated_action_lost :
    ∃ t, loadConfig (.ofFiles repeated repeatedTree shortened shortenedTree) pad
        (initial (some repeated)) = some t ∧
      ¬ RoundTrips (.ofFiles repeated repeatedTree shortened shortenedTree) pad
        { t with file := some repeated } := by
  let settings : Settings := ((∅ : Settings).insertIfNew 1 .play).insertIfNew 2 .play
  refine ⟨{
    devPath := "/dev/input/js0"
    vendorId := 0x045e
    productId := 0x028e
    settings := settings
    file := some repeated }, rfl, fun trips => ?_⟩
  have sectionOf := (round_trips_of_sections rfl rfl rfl ?_).mp trips
  · rw [savedSection, if_neg (by decide), Option.bind_some, read_newtree_iff, unambiguous_iff] at sectionOf
    · exact absurd sectionOf (by decide)
    · intro c a bound
      have codes : settings.toList = [(1, .play), (2, .play)] := rfl
      have member : (c, a) ∈ settings.toList := Std.ExtTreeMap.mem_toList_iff_getElem?_eq_some.mpr bound
      rw [codes] at member
      simp only [List.mem_cons, Prod.mk.injEq, List.not_mem_nil, or_false] at member
      rcases member with ⟨rfl, -⟩ | ⟨rfl, -⟩ <;> decide
  · intro parent tree read ran
    have written : updated (savedKey (0x045e, 0x028e)) (newtree settings) repeatedTree =
        some shortenedTree := rfl
    cases read
    cases written.symm.trans ran
    exact Json.of_files_keeps (ne_of_second rfl rfl)

end Sws.Joystick.Config
