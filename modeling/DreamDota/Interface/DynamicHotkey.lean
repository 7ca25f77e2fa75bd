import DreamDota.Lib.Bimap
import Mathlib.Data.List.Induction
import Mathlib.Logic.Function.Basic

/-!
# Dynamic hotkeys

The maps of `DynamicHotkey.cpp`: which item type a key uses, and which key an item type has.
`RegisterHotkey` erases what stands in the way of the new binding, in one map through a lookup in
the other.

The two maps are the two directions of a partial equivalence at all times, and a call links its key
and its item type in it: `registerHotkey_mapsOf`.
-/

namespace DreamDota

namespace DynamicHotkey

/-! ## The code -/

/-- `HotkeyMap` and `HotkeyMapItemType`. -/
@[ext] structure HotkeyMaps where
  hotkeyMap : BitVec 32 → Option (BitVec 32)
  hotkeyMapItemType : BitVec 32 → Option (BitVec 32)

/-- Both maps after `clear`. -/
def HotkeyMaps.empty : HotkeyMaps := ⟨fun _ => none, fun _ => none⟩

/-- What comes first in `RegisterHotkey`: the item type loses the key it had. -/
def HotkeyMaps.releaseItemType (s : HotkeyMaps) (itemTypeId : BitVec 32) : HotkeyMaps :=
  match s.hotkeyMapItemType itemTypeId with
  | some key =>
    { hotkeyMap := Function.update s.hotkeyMap key none
      hotkeyMapItemType := Function.update s.hotkeyMapItemType itemTypeId none }
  | none => s

/-- Then the key loses the item type it had. -/
def HotkeyMaps.releaseKey (s : HotkeyMaps) (keyCode : BitVec 32) : HotkeyMaps :=
  match s.hotkeyMap keyCode with
  | some itemType =>
    { hotkeyMap := Function.update s.hotkeyMap keyCode none
      hotkeyMapItemType := Function.update s.hotkeyMapItemType itemType none }
  | none => s

/-- `RegisterHotkey`, with the type of the item. -/
def registerHotkey (s : HotkeyMaps) (itemTypeId keyCode : BitVec 32) : HotkeyMaps :=
  let s := (s.releaseItemType itemTypeId).releaseKey keyCode
  { hotkeyMap := Function.update s.hotkeyMap keyCode (some itemTypeId)
    hotkeyMapItemType := Function.update s.hotkeyMapItemType itemTypeId (some keyCode) }

/-- The maps after a sequence of calls, each with an item type and a key. -/
def registerAll (calls : List (BitVec 32 × BitVec 32)) : HotkeyMaps :=
  calls.foldl (fun s call => registerHotkey s call.1 call.2) .empty

/-! ## What the maps are to be -/

namespace HotkeyMaps

/-- The maps are inverse to each other, so nothing is bound twice. -/
structure Bijective (s : HotkeyMaps) : Prop where
  inverse : ∀ key itemType,
    s.hotkeyMap key = some itemType ↔ s.hotkeyMapItemType itemType = some key
  key : ∀ key key' itemType,
    s.hotkeyMap key = some itemType → s.hotkeyMap key' = some itemType → key = key'
  itemType : ∀ key itemType itemType', s.hotkeyMapItemType itemType = some key →
    s.hotkeyMapItemType itemType' = some key → itemType = itemType'

/-- What a call does to the bindings. -/
structure Rebinds (s s' : HotkeyMaps) (itemTypeId keyCode : BitVec 32) : Prop where
  bound : s'.hotkeyMap keyCode = some itemTypeId ∧ s'.hotkeyMapItemType itemTypeId = some keyCode
  unchanged : ∀ key itemType, key ≠ keyCode → itemType ≠ itemTypeId →
    (s'.hotkeyMap key = some itemType ↔ s.hotkeyMap key = some itemType) ∧
    (s'.hotkeyMapItemType itemType = some key ↔ s.hotkeyMapItemType itemType = some key)

/-- The two directions of a partial equivalence. -/
def mapsOf (f : BitVec 32 ≃. BitVec 32) : HotkeyMaps := ⟨f, f.symm⟩

end HotkeyMaps

section Bindings

open HotkeyMaps

variable {f : BitVec 32 ≃. BitVec 32} {itemTypeId keyCode : BitVec 32}

theorem releaseItemType_mapsOf :
    (mapsOf f).releaseItemType itemTypeId = mapsOf (f.unlink itemTypeId) := by
  have hfilter (key : BitVec 32) (hkey : f key ≠ some itemTypeId) :
      f key = (f key).filter (· ≠ itemTypeId) := by
    cases hf : f key with
    | none => rfl
    | some itemType =>
      have hne : itemType ≠ itemTypeId := fun heq => hkey (by rw [hf, heq])
      exact (if_pos (decide_eq_true hne)).symm
  unfold releaseItemType
  cases hold : (mapsOf f).hotkeyMapItemType itemTypeId with
  | none =>
    refine HotkeyMaps.ext (funext fun key => hfilter key fun hkey => ?_) (funext fun itemType => ?_)
    · exact absurd (f.eq_some_iff.mpr hkey) (by rw [show f.symm itemTypeId = none from hold]; simp)
    · show f.symm itemType = if itemType = itemTypeId then none else f.symm itemType
      split_ifs with heq
      · rw [heq]
        exact hold
      · rfl
  | some old =>
    have hold' : f old = some itemTypeId := f.eq_some_iff.mp hold
    refine HotkeyMaps.ext (funext fun key => ?_) (funext fun itemType => Function.update_apply ..)
    show Function.update f old none key = (f key).filter (· ≠ itemTypeId)
    by_cases hkey : key = old
    · rw [hkey, Function.update_self, hold']
      exact (if_neg (by simp)).symm
    · rw [Function.update_of_ne hkey]
      refine hfilter key fun hk => hkey ?_
      exact Option.some.inj ((f.eq_some_iff.mpr hk).symm.trans hold)

/-- The maps with their roles changed. -/
def HotkeyMaps.swap (s : HotkeyMaps) : HotkeyMaps := ⟨s.hotkeyMapItemType, s.hotkeyMap⟩

theorem releaseKey_eq (s : HotkeyMaps) :
    s.releaseKey keyCode = (s.swap.releaseItemType keyCode).swap := by
  cases hkey : s.hotkeyMap keyCode <;>
    simp only [releaseKey, releaseItemType, HotkeyMaps.swap, hkey]

theorem releaseKey_mapsOf :
    (mapsOf f).releaseKey keyCode = mapsOf (f.symm.unlink keyCode).symm := by
  have hswap : (mapsOf f).swap = mapsOf f.symm := rfl
  rw [releaseKey_eq, hswap, releaseItemType_mapsOf]
  rfl

/-- A call links its key and its item type. -/
theorem registerHotkey_mapsOf :
    registerHotkey (mapsOf f) itemTypeId keyCode = mapsOf (f.link keyCode itemTypeId) := by
  unfold registerHotkey
  rw [releaseItemType_mapsOf, releaseKey_mapsOf]
  exact HotkeyMaps.ext PEquiv.update_unlink PEquiv.update_unlink_symm

/-- The maps after any calls are the two directions of a partial equivalence. -/
theorem exists_mapsOf (calls : List (BitVec 32 × BitVec 32)) :
    ∃ f : BitVec 32 ≃. BitVec 32, registerAll calls = mapsOf f := by
  induction calls using List.reverseRecOn with
  | nil => exact ⟨⊥, rfl⟩
  | append_singleton calls call ih =>
    obtain ⟨f, hf⟩ := ih
    refine ⟨f.link call.2 call.1, ?_⟩
    rw [registerAll, List.foldl_append, ← registerAll, hf]
    exact registerHotkey_mapsOf

theorem bijective_mapsOf : (mapsOf f).Bijective where
  inverse key itemType := (f.eq_some_iff).symm
  key key key' itemType h h' := by
    have hkey := f.eq_some_iff.mpr h
    exact Option.some.inj (hkey.symm.trans (f.eq_some_iff.mpr h'))
  itemType key itemType itemType' h h' := by
    have htype := f.eq_some_iff.mp h
    exact Option.some.inj (htype.symm.trans (f.eq_some_iff.mp h'))

theorem rebinds_mapsOf :
    (mapsOf f).Rebinds (mapsOf (f.link keyCode itemTypeId)) itemTypeId keyCode where
  bound := ⟨PEquiv.link_self, PEquiv.link_self⟩
  unchanged key itemType hkey htype := by
    have hsame : f.link keyCode itemTypeId key = some itemType ↔ f key = some itemType := by
      simp [PEquiv.mem_link, hkey, htype]
    exact ⟨hsame, (f.link keyCode itemTypeId).eq_some_iff.trans (hsame.trans f.eq_some_iff.symm)⟩

/-- **Dynamic hotkeys.** After any calls the two maps are inverse to each other, and a further call
binds its key and its item type to each other and leaves the bindings of other keys to other item
types as they are. -/
theorem registerAll_bijective (calls : List (BitVec 32 × BitVec 32)) :
    (registerAll calls).Bijective ∧ ∀ itemTypeId keyCode : BitVec 32, (registerAll calls).Rebinds
      (registerHotkey (registerAll calls) itemTypeId keyCode) itemTypeId keyCode := by
  obtain ⟨f, hf⟩ := exists_mapsOf calls
  rw [hf]
  refine ⟨bijective_mapsOf, fun itemTypeId keyCode => ?_⟩
  rw [registerHotkey_mapsOf]
  exact rebinds_mapsOf

end Bindings

end DynamicHotkey

end DreamDota
