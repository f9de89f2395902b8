import Mathlib.Data.List.Chain
import Sws.Joystick.Config
import Sws.Transition

/-! Joysticks that are plugged in one after another. -/
namespace Sws.Joystick.Config

/-- A device that udev reports, and the input devices there are at that moment. -/
structure Plug where
  action : Text
  devnode : Text
  idVendor : Nat
  idProduct : Nat
  udev : Udev

def Plug.ids (e : Plug) : Nat × Nat := (e.idVendor, e.idProduct)

/-- `joystick::js_plug`; none where `load_config` throws. -/
def jsPlug (json : Json) : Steps State Plug := fun s e =>
  if e.action = text "add" ∧ e.devnode.take 13 = text "/dev/input/js" then
    let s := { s with devPath := e.devnode }
    if e.idVendor ≠ 0 ∧ e.idProduct ≠ 0 then
      if e.idVendor ≠ s.vendorId ∧ e.idProduct ≠ s.productId then
        loadConfig json e.udev { s with vendorId := e.idVendor, productId := e.idProduct }
      else some s
    else some s
  else some s

/-- A joystick with a vendor and a product is plugged in. -/
structure Plug.Adds (e : Plug) : Prop where
  action : e.action = text "add"
  devnode : e.devnode.take 13 = text "/dev/input/js"
  vendor : e.idVendor ≠ 0
  product : e.idProduct ≠ 0

/-- The device's numbers are in force, and so are the settings `load_config` reads for it: those of
its own section if the file has one, and otherwise the default. -/
structure Serves (json : Json) (s : State) (device : Nat × Nat) : Prop where
  known : s.ids = device
  settings : configured json s.contents device = some s.settings

/-- No device is known, or the one that is is served. -/
def Settled (json : Json) (s : State) : Prop := s.ids = (0, 0) ∨ Serves json s s.ids

/-- Two devices agree in both numbers, or differ in both. -/
def Alike (before ids : Nat × Nat) : Prop := ids.1 = before.1 ↔ ids.2 = before.2

/-- Each device is served right after it is plugged in. -/
def ServedThroughout (json : Json) (s : State) (events : List Plug) : Prop :=
  ∀ done e rest u, events = done ++ e :: rest → (jsPlug json).run s (done ++ [e]) = some u →
    Serves json u e.ids

instance : DecidableRel Alike := fun _ _ => inferInstanceAs (Decidable (_ ↔ _))

section Plugs

variable {json : Json} {s t : State} {e : Plug} {events : List Plug}

theorem settled_initial (file : Option Text) : Settled json (initial file) := .inl rfl

theorem serves_of_load {udev : Udev} (loaded : loadConfig json udev s = some t) :
    Serves json t t.ids := by
  obtain ⟨ids, settings, -, read, rfl⟩ := load_config_eq_some.mp loaded
  exact ⟨rfl, read⟩

theorem settled_of_load {udev : Udev} (loaded : loadConfig json udev s = some t) : Settled json t :=
  .inr (serves_of_load loaded)

/-- `load_config` is called only for a device that differs in both numbers. -/
theorem plug_cases (adds : e.Adds) (plugged : jsPlug json s e = some t) :
    (e.idVendor ≠ s.vendorId ∧ e.idProduct ≠ s.productId ∧ Serves json t e.ids) ∨
    (¬ (e.idVendor ≠ s.vendorId ∧ e.idProduct ≠ s.productId) ∧ t = { s with devPath := e.devnode }) := by
  rw [jsPlug, if_pos ⟨adds.action, adds.devnode⟩] at plugged
  dsimp only at plugged
  rw [if_pos ⟨adds.vendor, adds.product⟩] at plugged
  split_ifs at plugged with differ
  · have served := serves_of_load plugged
    obtain ⟨ids, settings, known, -, rfl⟩ := load_config_eq_some.mp plugged
    have own : ids = e.ids := known.trans (if_neg (not_or.mpr ⟨adds.vendor, adds.product⟩))
    subst own
    exact .inl ⟨differ.1, differ.2, served⟩
  · exact .inr ⟨differ, (Option.some.inj plugged).symm⟩

/-- A device is served exactly when it agrees with the known one in both numbers or in neither. -/
theorem plug_serves_iff (settled : Settled json s) (adds : e.Adds) (plugged : jsPlug json s e = some t) :
    Serves json t e.ids ↔ Alike s.ids e.ids := by
  rcases plug_cases adds plugged with ⟨vendor, product, served⟩ | ⟨same, rfl⟩
  · exact iff_of_true served (iff_of_false vendor product)
  · constructor
    · intro served
      have known : s.ids = e.ids := served.known
      rw [Alike, known]
      exact iff_of_true rfl rfl
    · intro alike
      have agree : e.idVendor = s.vendorId ∧ e.idProduct = s.productId := by
        have either := not_and_or.mp same
        simp only [ne_eq, not_not] at either
        rcases either with vendor | product
        · exact ⟨vendor, alike.mp vendor⟩
        · exact ⟨alike.mpr product, product⟩
      have known : s.ids = e.ids := Prod.ext agree.1.symm agree.2.symm
      rcases settled with none | served
      · rw [known] at none
        exact absurd (congrArg Prod.fst none) adds.vendor
      · exact ⟨known, known ▸ served.settings⟩

theorem plug_settled (settled : Settled json s) (adds : e.Adds) (plugged : jsPlug json s e = some t) :
    Settled json t := by
  rcases plug_cases adds plugged with ⟨-, -, served⟩ | ⟨-, rfl⟩
  · exact .inr ⟨rfl, served.known ▸ served.settings⟩
  · exact settled.imp id fun served => ⟨rfl, served.settings⟩

/-- **A device with one number of the last one is not served.** In every run of joysticks that are
plugged in, each is served right after it is plugged in exactly when each agrees with the one before
it, or with the known one at first, in both numbers or in neither. -/
theorem plugs_served_iff (settled : Settled json s) (adds : ∀ e ∈ events, e.Adds)
    (ran : (jsPlug json).run s events = some t) :
    ServedThroughout json s events ↔ (s.ids :: events.map Plug.ids).IsChain Alike := by
  induction events generalizing s with
  | nil =>
    refine iff_of_true ?_ (.singleton _)
    intro done e rest u shape
    cases done <;> cases shape
  | cons e events ih =>
    obtain ⟨first, others⟩ := List.forall_mem_cons.mp adds
    obtain ⟨middle, plugged, onwards⟩ := Steps.run_cons_iff.mp ran
    have one : Serves json middle e.ids ↔ Alike s.ids e.ids := plug_serves_iff settled first plugged
    have more := ih (plug_settled settled first plugged) others onwards
    rw [List.map_cons, List.isChain_cons_cons, ← one]
    constructor
    · intro all
      have served := all [] e events middle rfl (Steps.run_cons_iff.mpr ⟨middle, plugged, rfl⟩)
      rw [← served.known]
      refine ⟨⟨rfl, served.known ▸ served.settings⟩, more.mp ?_⟩
      intro done d rest u shape reached
      exact all (e :: done) d rest u (by rw [shape]; rfl) (Steps.run_cons_iff.mpr ⟨middle, plugged, reached⟩)
    · rintro ⟨served, chain⟩ done d rest u shape reached
      rw [← served.known] at chain
      cases done with
      | nil =>
        cases shape
        obtain ⟨u', same, done⟩ := Steps.run_cons_iff.mp reached
        cases done
        cases plugged.symm.trans same
        exact served
      | cons d' done =>
        cases shape
        obtain ⟨u', same, reached⟩ := Steps.run_cons_iff.mp reached
        cases plugged.symm.trans same
        exact more.mpr chain done d rest u rfl reached

end Plugs

/-- A file with a section for one device. -/
def padConfig : Text :=
  "\x7b\"joysticks\":\x7b\"045e0719\":\x7b\"play\":1\x7d,\"default\":\x7b\"stop\":1\x7d\x7d\x7d"

def padTree : Ptree :=
  .node "" [("joysticks", .node "" [("045e0719", .node "" [("play", .leaf "1")]),
    ("default", .node "" [("stop", .leaf "1")])])]

/-- What is read from this file. -/
def padJson : Json where
  read contents := if contents = padConfig then some padTree else none
  write _ := padConfig

def plugIn (idVendor idProduct : Nat) : Plug :=
  { action := "add", devnode := "/dev/input/js0", idVendor := idVendor, idProduct := idProduct, udev := [] }

theorem plug_in_adds {idVendor idProduct : Nat} (vendor : idVendor ≠ 0 := by decide)
    (product : idProduct ≠ 0 := by decide) : (plugIn idVendor idProduct).Adds :=
  ⟨rfl, show (text "/dev/input/js0").take 13 = _ by decide, vendor, product⟩

/-- Two devices of different vendors are served. -/
theorem different_vendors_served :
    ServedThroughout padJson (initial (some padConfig)) [plugIn 0x046d 0xc216, plugIn 0x045e 0x0719] := by
  have adds : ∀ e ∈ [plugIn 0x046d 0xc216, plugIn 0x045e 0x0719], e.Adds := by
    simp only [List.forall_mem_cons]
    exact ⟨plug_in_adds, plug_in_adds, by simp⟩
  exact (plugs_served_iff (settled_initial _) adds rfl).mpr (by decide)

/-- Of two devices of one vendor the second is not served, whether or not it has a section. -/
theorem same_vendor_not_served :
    (plugIn 0x045e 0x028e).Adds ∧ (plugIn 0x045e 0x0719).Adds ∧
    ¬ ServedThroughout padJson (initial (some padConfig)) [plugIn 0x045e 0x028e, plugIn 0x045e 0x0719] := by
  have first : (plugIn 0x045e 0x028e).Adds := plug_in_adds
  have second : (plugIn 0x045e 0x0719).Adds := plug_in_adds
  refine ⟨first, second, fun served => ?_⟩
  obtain ⟨s, plugged⟩ : ∃ s, jsPlug padJson (initial (some padConfig)) (plugIn 0x045e 0x028e) = some s :=
    ⟨_, rfl⟩
  obtain ⟨t, plugged'⟩ : ∃ t, (jsPlug padJson).run (initial (some padConfig))
      ([plugIn 0x045e 0x028e] ++ [plugIn 0x045e 0x0719]) = some t := ⟨_, rfl⟩
  have one := served [] _ [plugIn 0x045e 0x0719] s rfl (Steps.run_cons_iff.mpr ⟨s, plugged, rfl⟩)
  have two := served [plugIn 0x045e 0x028e] _ [] t rfl plugged'
  obtain ⟨s', same, onwards⟩ := Steps.run_cons_iff.mp plugged'
  cases plugged.symm.trans same
  obtain ⟨t', last, done⟩ := Steps.run_cons_iff.mp onwards
  cases done
  have alike := (plug_serves_iff (plug_settled (settled_initial _) first plugged) second last).mp two
  rw [one.known] at alike
  exact absurd alike (by decide)

end Sws.Joystick.Config
