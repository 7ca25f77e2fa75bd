import DreamDota.Units.UnitGroup
import Mathlib.Data.List.AList
import Mathlib.Algebra.Order.Ring.Rat

/-!
# The attack range overlay

`attackrangedisplay.lua` shows an image around the selected unit. `UnitImageMap` has weak keys: the
`Unit` userdata that `LuaExport::push` makes for an object and keeps in a weak cache. The numbers are
exact.

A userdata has a finalizer. The collection that finds it unreferenced takes it out of the cache and
runs the finalizer, and the next one takes it out of `UnitImageMap`. So a userdata that has been made
is in the cache until it is finalized.

A step of the script goes up to where `render` takes the next entry, so a collection can come between
any two entries.
-/

namespace DreamDota.AttackRange

/-! ## The data -/

/-- A userdata, by its object and the number of userdata made before. -/
structure Userdata where
  unit : UnitHandle
  serial : ℕ
  deriving DecidableEq, Repr

/-- An entry of `UnitImageMap`. An image is named by the number of images made before. -/
structure ImageData where
  image : ℕ
  alpha : ℚ
  alphaFrom : ℚ
  alphaTo : ℚ
  alphaD : ℚ
  range : ℚ
  deriving DecidableEq, Repr

def renderInverval : ℚ := 1 / 100
def fadeinDuration : ℚ := 1 / 2
def fadeoutDuration : ℚ := 1 / 2
def maxAlpha : ℚ := 192
def minUpdateAlphaDiff : ℚ := 1 / 2

/-- `alpha_d` before it is applied. -/
def ImageData.nextAlphaD (imagedata : ImageData) : ℚ :=
  if imagedata.alphaTo > imagedata.alpha then
    imagedata.alphaD + maxAlpha * (renderInverval / fadeinDuration)
  else if imagedata.alphaTo < imagedata.alpha then
    imagedata.alphaD - maxAlpha * (renderInverval / fadeoutDuration)
  else imagedata.alphaD

/-- `alpha` after `alpha_d` is applied. -/
def ImageData.nextAlpha (imagedata : ImageData) : ℚ :=
  let diff := imagedata.alphaTo - imagedata.alpha
  let d := min |diff| |imagedata.alphaD| * (if imagedata.alphaD < 0 then -1 else 1)
  imagedata.alpha + d

structure State where
  displayRange : Bool
  unitImageMap : AList fun _ : Userdata => ImageData
  lastTargetUnit : Option Userdata
  /-- The cache of `LuaExport::push`. -/
  objects : UnitHandle → Option Userdata
  serials : ℕ
  /-- The units of the images that have been made. -/
  created : List UnitHandle
  destroyed : List ℕ
  /-- `range(0)` of the units. -/
  range : UnitHandle → ℚ
  hotkey : ℕ
  /-- The keys that `pairs` has still to come to. -/
  pairs : List Userdata
  /-- The script has indexed a nil value. -/
  failed : Bool

namespace State

def init (range : UnitHandle → ℚ) (hotkey : ℕ) : State where
  displayRange := false
  unitImageMap := ∅
  lastTargetUnit := none
  objects _ := none
  serials := 0
  created := []
  destroyed := []
  range := range
  hotkey := hotkey
  pairs := []
  failed := false

/-! ## The code -/

def createImage (s : State) (unit : UnitHandle) : ℕ × State :=
  (s.created.length, { s with created := s.created ++ [unit] })

def destroyImage (s : State) (image : ℕ) : State := { s with destroyed := s.destroyed ++ [image] }

/-- The fields of an entry are changed. -/
def store (s : State) (u : Userdata) (imagedata : ImageData) : State :=
  { s with unitImageMap := s.unitImageMap.insert u imagedata }

/-- `Unit(handle)`. -/
def callUnit (s : State) (handle : UnitHandle) : Userdata × State :=
  match s.objects handle with
  | some u => (u, s)
  | none =>
    let u : Userdata := ⟨handle, s.serials⟩
    (u, { s with objects := Function.update s.objects handle (some u), serials := s.serials + 1 })

def addUnit (s : State) (u : Userdata) : State :=
  match s.unitImageMap.lookup u with
  | none =>
    let r := s.createImage u.unit
    r.2.store u ⟨r.1, 0, 0, maxAlpha, 0, s.range u.unit⟩
  | some _ => s

def removeUnit (s : State) (u : Userdata) : State :=
  match s.unitImageMap.lookup u with
  | some imagedata =>
    let s := s.destroyImage imagedata.image
    { s with unitImageMap := s.unitImageMap.erase u }
  | none => s

/-- `LastTargetUnit = Unit(handle)` and `addUnit(LastTargetUnit)`. -/
def setTarget (s : State) (handle : UnitHandle) : State :=
  let r := s.callUnit handle
  { r.2 with lastTargetUnit := some r.1 }.addUnit r.1

/-- `UnitImageMap[u].alpha_to = 0`. -/
def fadeOut (s : State) (u : Userdata) : State :=
  match s.unitImageMap.lookup u with
  | some imagedata => s.store u { imagedata with alphaTo := 0 }
  | none => { s with failed := true }

/-- `updateTarget`, for the units that the local player has selected. -/
def updateTarget (s : State) (selected : List UnitHandle) : State :=
  if s.displayRange then
    match selected with
    | [handle] =>
      match s.lastTargetUnit with
      | some last =>
        if handle ≠ last.unit then
          let s := s.fadeOut last
          if s.failed then s else s.setTarget handle
        else s
      | none => s.setTarget handle
    | _ => { s with lastTargetUnit := none }
  else
    match s.lastTargetUnit with
    | some last =>
      let s := s.fadeOut last
      if s.failed then s else { s with lastTargetUnit := none }
    | none => s

/-- The part of `updateUnitImage` that makes a new image when the range has changed. The range of the
entry stays. -/
def resize (s : State) (u : Userdata) (imagedata : ImageData) : ImageData × State :=
  if imagedata.range ≠ s.range u.unit then
    let r := (s.destroyImage imagedata.image).createImage u.unit
    let imagedata := { imagedata with image := r.1 }
    (imagedata, r.2.store u imagedata)
  else (imagedata, s)

def updateUnitImage (s : State) (u : Userdata) (imagedata : ImageData) : State :=
  let r := s.resize u
    { imagedata with alphaTo := if s.lastTargetUnit = some u then maxAlpha else 0 }
  let imagedata := { r.1 with alphaD := r.1.nextAlphaD }
  if |imagedata.alphaD| ≥ minUpdateAlphaDiff then
    let imagedata := { imagedata with alpha := imagedata.nextAlpha, alphaD := 0 }
    let s := r.2.store u imagedata
    if imagedata.alpha ≤ 0 ∧ imagedata.alphaTo = 0 then s.removeUnit u else s
  else r.2.store u imagedata

/-- `render` up to the loop. -/
def beginRender (s : State) (selected : List UnitHandle) : State :=
  let s := s.updateTarget selected
  { s with pairs := s.unitImageMap.keys }

/-- The loop of `render` takes the next entry, if the key is still there. -/
def visit (s : State) : State :=
  match s.pairs with
  | [] => s
  | u :: pairs =>
    match s.unitImageMap.lookup u with
    | some imagedata => { s with pairs := pairs }.updateUnitImage u imagedata
    | none => { s with pairs := pairs }

/-- What a collection finds unreferenced, apart from what other scripts hold. -/
def Unreferenced (s : State) (held : Userdata → Bool) (u : Userdata) : Prop :=
  s.lastTargetUnit ≠ some u ∧ held u = false

instance (s : State) (held : Userdata → Bool) : DecidablePred (s.Unreferenced held) :=
  fun _ => inferInstanceAs (Decidable (_ ∧ _))

/-- The userdata has been finalized. -/
def Finalized (s : State) (u : Userdata) : Prop := s.objects u.unit ≠ some u

instance (s : State) : DecidablePred s.Finalized := fun _ => inferInstanceAs (Decidable (_ ≠ _))

/-- A collection. -/
def collect (s : State) (held : Userdata → Bool) : State :=
  { s with
    unitImageMap := (s.unitImageMap.keys.filter fun u =>
      s.Finalized u ∧ s.Unreferenced held u).foldl (fun m u => m.erase u) s.unitImageMap
    objects := fun handle => (s.objects handle).filter fun u => ¬ s.Unreferenced held u }

end State

inductive Event where
  | keyDown (key : ℕ)
  | keyUp (key : ℕ)
  | render (selected : List UnitHandle)
  | visit
  | range (range : UnitHandle → ℚ)
  /-- Another script asks for a unit. -/
  | callUnit (handle : UnitHandle)
  | collect (held : Userdata → Bool)

/-- An event. `render` begins when the loop has ended, and a script that has failed does not go
on. -/
def event (s : State) : Event → State
  | .keyDown key => if key = s.hotkey then { s with displayRange := true } else s
  | .keyUp key => if key = s.hotkey then { s with displayRange := false } else s
  | .render selected =>
    if s.pairs = [] ∧ s.failed = false then s.beginRender selected else s
  | .visit => if s.failed then s else s.visit
  | .range range => { s with range := range }
  | .callUnit handle => (s.callUnit handle).2
  | .collect held => s.collect held

/-! ## The law -/

/-- The image has been made and not destroyed. -/
def State.Live (s : State) (image : ℕ) : Prop := image < s.created.length ∧ image ∉ s.destroyed

instance (s : State) : DecidablePred s.Live := fun _ => inferInstanceAs (Decidable (_ ∧ _))

/-- What holds between any two events. -/
structure Law (s : State) : Prop where
  alpha : ∀ u imagedata, s.unitImageMap.lookup u = some imagedata →
    0 ≤ imagedata.alpha ∧ imagedata.alpha ≤ maxAlpha
  once : s.destroyed.Nodup ∧ ∀ image ∈ s.destroyed, image < s.created.length
  /-- A live image belongs to an entry, so it is destroyed with the entry or when it is replaced. -/
  recorded : ∀ image, s.Live image ↔
    ∃ u imagedata, s.unitImageMap.lookup u = some imagedata ∧ imagedata.image = image
  /-- The entry of an image that has faded out is gone, but for one that is just being shown. -/
  faded : ∀ u imagedata, s.unitImageMap.lookup u = some imagedata → u ∉ s.pairs →
    0 < imagedata.alpha
  single : ∀ image image' unit, s.Live image → s.Live image' → s.created[image]? = some unit →
    s.created[image']? = some unit → image = image'
  target : s.failed = false ∧
    ∀ u, s.lastTargetUnit = some u → (s.unitImageMap.lookup u).isSome

/-- A collection does not take an entry, and no unit is selected while it has an entry whose userdata
has been finalized. -/
def Kept (s : State) : Event → Prop
  | .collect held => ∀ u ∈ s.unitImageMap.keys, ¬ (s.Finalized u ∧ s.Unreferenced held u)
  | .render selected => s.pairs = [] → s.displayRange = true → ∀ handle, selected = [handle] →
    (∀ last, s.lastTargetUnit = some last → handle ≠ last.unit) →
    ∀ u ∈ s.unitImageMap.keys, u.unit = handle → ¬ s.Finalized u
  | _ => True

end DreamDota.AttackRange
