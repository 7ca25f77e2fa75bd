import DreamDota.Lib.Session
import Mathlib.Data.List.AList

/-!
# Hooked objects

`ObjectHookManager.cpp`: a hooked object points to a copy of its virtual table, in which single
methods are replaced. The manager keeps for each object the copy and the table that the object
pointed to. `analysis`, which is never called, is left out, and so is `autoCleanup`, which nothing
depends on.

The game makes and destroys objects as it likes, also at an address that the manager still has an
entry for. A write to an address where no object is does nothing, as the exception is caught.

`original`, `replaced` and `stray` are history.

1. `Sound`: what the operations keep.
2. `Guarded`: an operation that does not hook an object twice, does not drop the entry of an object
   that still points to its copy, and stays in the tables.
3. `hooksOk_of_guarded`: the sessions of such operations.
-/

namespace DreamDota

/-- The address of an object. -/
abbrev ObjectPtr := ℕ

/-- The address of a method. -/
abbrev Method := ℕ

/-- A table of the game, or the copy in a block of the manager. -/
inductive Vtable where
  | game (id : ℕ)
  | fake (mem : ℕ)
  deriving DecidableEq, Repr

/-- The tables of the game, and the word in front of each. -/
structure GameTables where
  rtti : ℕ → ℕ
  method : ℕ → ℕ → Method

def Vtable.isFake : Vtable → Bool
  | .game _ => false
  | .fake _ => true

structure ObjectHookInfo where
  methodCount : ℕ
  mem : ℕ
  realVtable : Vtable
  fakeVtable : Vtable
  isDynamic : Bool
  deriving DecidableEq, Repr

/-- A block of the manager: the word in front of the table, and the table. -/
structure HookBlock where
  rtti : ℕ
  methods : List Method
  deriving DecidableEq, Repr

structure ObjectHooks where
  /-- What the objects point to, and `none` where no object is. -/
  vtable : ObjectPtr → Option Vtable
  map : AList fun _ : ObjectPtr => ObjectHookInfo
  blocks : ℕ → HookBlock
  allocated : ℕ
  deleted : List ℕ
  /-- The table before the first hook of the object. -/
  original : ObjectPtr → Option Vtable
  /-- The slots of a block that are replaced. -/
  replaced : ℕ → List ℕ
  /-- The writes that left their table. -/
  stray : ℕ

/-- The operations of the manager, the last one its destructor, and what the game does. -/
inductive HookEvent where
  | create (object : ObjectPtr) (id : ℕ)
  | destroy (object : ObjectPtr)
  | replace (object : ObjectPtr) (vtableLength : ℕ) (dynamic : Bool)
  | apply (object : ObjectPtr) (offset : ℕ) (detour : Method)
  | cancel (object : ObjectPtr) (offset : ℕ)
  | restore (object : ObjectPtr)
  | clearAllDynamic
  | clearAll

namespace ObjectHooks

def init : ObjectHooks where
  vtable := fun _ => none
  map := ∅
  blocks := fun _ => ⟨0, []⟩
  allocated := 0
  deleted := []
  original := fun _ => none
  replaced := fun _ => []
  stray := 0

variable (C : GameTables) (s : ObjectHooks)

/-! ## The operations -/

def read : Vtable → ℕ → Method
  | .game id, slot => C.method id slot
  | .fake mem, slot => (s.blocks mem).methods.getD slot 0

def readRtti : Vtable → ℕ
  | .game id => C.rtti id
  | .fake mem => (s.blocks mem).rtti

/-- A new object, where none is. -/
def create (object : ObjectPtr) (id : ℕ) : ObjectHooks :=
  if s.vtable object = none then
    { s with
      vtable := Function.update s.vtable object (some (.game id))
      original := Function.update s.original object none }
  else s

def destroy (object : ObjectPtr) : ObjectHooks :=
  { s with
    vtable := Function.update s.vtable object none
    original := Function.update s.original object none }

/-- `WriteVtable`. -/
def writeVtable (object : ObjectPtr) (v : Vtable) : ObjectHooks :=
  { s with vtable := Function.update s.vtable object ((s.vtable object).map fun _ => v) }

/-- The copy of a table. -/
def copyTable (v : Vtable) (vtableLength : ℕ) : HookBlock :=
  ⟨s.readRtti C v, (List.range vtableLength).map (s.read C v)⟩

def replace (object : ObjectPtr) (vtableLength : ℕ) (dynamic : Bool) : ObjectHooks :=
  match s.vtable object with
  | some v =>
    { s with
      vtable := Function.update s.vtable object (some (.fake s.allocated))
      map := s.map.insert object ⟨vtableLength, s.allocated, v, .fake s.allocated, dynamic⟩
      blocks := Function.update s.blocks s.allocated (s.copyTable C v vtableLength)
      allocated := s.allocated + 1
      original := Function.update s.original object (some ((s.original object).getD v))
      replaced := Function.update s.replaced s.allocated [] }
  | none => s

/-- A write to a slot of a block. -/
def writeSlot (mem slot : ℕ) (method : Method) : ObjectHooks :=
  if slot < (s.blocks mem).methods.length then
    { s with
      blocks := Function.update s.blocks mem
        { s.blocks mem with methods := (s.blocks mem).methods.set slot method } }
  else { s with stray := s.stray + 1 }

def getOrignal (object : ObjectPtr) (offset : ℕ) : Option Method :=
  (s.map.lookup object).map fun info => s.read C info.realVtable (offset / 4)

/-- `apply` returns the original method. -/
def apply (object : ObjectPtr) (offset : ℕ) (detour : Method) : Option Method × ObjectHooks :=
  match s.map.lookup object with
  | some info =>
    (some (s.read C info.realVtable (offset / 4)),
      { s.writeSlot info.mem (offset / 4) detour with
        replaced :=
          Function.update s.replaced info.mem (offset / 4 :: s.replaced info.mem) })
  | none => (none, s)

def cancel (object : ObjectPtr) (offset : ℕ) : ObjectHooks :=
  match s.map.lookup object with
  | some info =>
    { s.writeSlot info.mem (offset / 4) (s.read C info.realVtable (offset / 4)) with
      replaced := Function.update s.replaced info.mem
        ((s.replaced info.mem).filter fun slot => slot ≠ offset / 4) }
  | none => s

def restore (object : ObjectPtr) : ObjectHooks :=
  match s.map.lookup object with
  | some info => { s.writeVtable object info.realVtable with map := s.map.erase object }
  | none => s

/-- The entries that are not dynamic. -/
def staticMap : AList fun _ : ObjectPtr => ObjectHookInfo :=
  ⟨s.map.entries.filter fun e => !e.2.isDynamic,
    s.map.nodupKeys.sublist List.filter_sublist⟩

def clearAllDynamic : ObjectHooks :=
  { s with
    map := s.staticMap
    deleted := ((s.map.entries.filter fun e => e.2.isDynamic).map fun e => e.2.mem) ++ s.deleted }

/-- The destructor, which deletes no block. A manager made after it has no entries. -/
def clearAll : ObjectHooks :=
  { s with
    vtable := fun object =>
      match s.map.lookup object with
      | some info => (s.vtable object).map fun _ => info.realVtable
      | none => s.vtable object
    map := ∅ }

def event (s : ObjectHooks) : HookEvent → ObjectHooks
  | .create object id => s.create object id
  | .destroy object => s.destroy object
  | .replace object vtableLength dynamic => s.replace C object vtableLength dynamic
  | .apply object offset detour => (s.apply C object offset detour).2
  | .cancel object offset => s.cancel C object offset
  | .restore object => s.restore object
  | .clearAllDynamic => s.clearAllDynamic
  | .clearAll => s.clearAll

/-! ## The law -/

/-- What the claims about hooked objects say of a state. -/
structure Ok : Prop where
  pointer : ∀ object v real, s.vtable object = some v → s.original object = some real →
    v = real ∨ ∃ info, s.map.lookup object = some info ∧ v = info.fakeVtable ∧
      v = .fake info.mem ∧ info.mem < s.allocated ∧ info.mem ∉ s.deleted
  slots : ∀ object info real, s.map.lookup object = some info →
    s.vtable object = some info.fakeVtable → s.original object = some real →
    ∀ slot < info.methodCount, slot ∉ s.replaced info.mem →
      s.read C info.fakeVtable slot = s.read C real slot
  restored : ∀ object v real, s.vtable object = some v → s.original object = some real →
    s.map.lookup object = none → v = real
  inside : s.stray = 0

/-- The object points to the copy in its entry. -/
def Hooked (object : ObjectPtr) : Prop :=
  ∃ info ∈ s.map.lookup object, s.vtable object = some info.fakeVtable

/-- There is no object, or it points to the copy in its entry. -/
def Fresh (object : ObjectPtr) : Prop := s.vtable object = none ∨ s.Hooked object

/-- The operation meets an object that is not hooked, or that is hooked still. -/
def Guarded (s : ObjectHooks) : HookEvent → Prop
  | .replace object _ _ => ∀ v ∈ s.vtable object, v.isFake = false
  | .apply object offset _ | .cancel object offset =>
    ∀ info ∈ s.map.lookup object, offset / 4 < info.methodCount
  | .restore object => object ∈ s.map → s.Fresh object
  | .clearAllDynamic => ∀ e ∈ s.map.entries, e.2.isDynamic = true → ¬ s.Hooked e.1
  | .clearAll => ∀ e ∈ s.map.entries, s.Fresh e.1
  | .create _ _ | .destroy _ => True

instance (s : ObjectHooks) (object : ObjectPtr) : Decidable (s.Hooked object) :=
  inferInstanceAs (Decidable (∃ info ∈ _, _))

instance (s : ObjectHooks) (object : ObjectPtr) : Decidable (s.Fresh object) :=
  inferInstanceAs (Decidable (_ ∨ _))

instance (s : ObjectHooks) : (e : HookEvent) → Decidable (s.Guarded e)
  | .replace _ _ _ => inferInstanceAs (Decidable (∀ v ∈ _, _))
  | .apply _ _ _ | .cancel _ _ => inferInstanceAs (Decidable (∀ info ∈ _, _))
  | .restore _ => inferInstanceAs (Decidable (_ → _))
  | .clearAllDynamic | .clearAll => inferInstanceAs (Decidable (∀ e ∈ _, _))
  | .create _ _ | .destroy _ => isTrue trivial

/-! ## What the operations keep -/

/-- An object that points to its own table. -/
structure Plain (object : ObjectPtr) (v : Vtable) : Prop where
  game : ∃ id, v = .game id
  original : ∀ real, s.original object = some real → v = real

/-- An object that points to its copy. -/
structure Copied (object : ObjectPtr) (v : Vtable) (info : ObjectHookInfo) (id : ℕ) : Prop where
  entry : s.map.lookup object = some info
  fake : v = info.fakeVtable
  real : info.realVtable = .game id
  original : s.original object = some (.game id)
  slots : ∀ slot < info.methodCount, slot ∉ s.replaced info.mem →
    (s.blocks info.mem).methods.getD slot 0 = C.method id slot

/-- An entry of the manager. -/
structure EntryOk (info : ObjectHookInfo) : Prop where
  fake : info.fakeVtable = .fake info.mem
  lt : info.mem < s.allocated
  live : info.mem ∉ s.deleted
  length : (s.blocks info.mem).methods.length = info.methodCount

/-- An object is plain or points to its copy. -/
def ObjectOk (object : ObjectPtr) (v : Vtable) : Prop :=
  s.Plain object v ∨ ∃ info id, Copied C s object v info id

structure Sound : Prop where
  entries : ∀ object info, s.map.lookup object = some info → s.EntryOk info
  distinct : ∀ object object' info info', s.map.lookup object = some info →
    s.map.lookup object' = some info' → info.mem = info'.mem → object = object'
  objects : ∀ object v, s.vtable object = some v → ObjectOk C s object v
  deleted : ∀ mem ∈ s.deleted, mem < s.allocated
  inside : s.stray = 0

variable {C s} {s' : ObjectHooks} {object : ObjectPtr} {info : ObjectHookInfo} {v : Vtable}

theorem sound_init : Sound C init where
  entries := fun _ _ h => by cases h
  distinct := fun _ _ _ _ h => by cases h
  objects := fun _ _ h => by cases h
  deleted := List.forall_mem_nil _
  inside := rfl

theorem Sound.ok (h : Sound C s) : Ok C s where
  pointer := by
    intro object v real hv hreal
    rcases h.objects object v hv with hplain | ⟨info, id, hcopied⟩
    · exact .inl (hplain.original real hreal)
    · have hentry := h.entries object info hcopied.entry
      exact .inr ⟨info, hcopied.entry, hcopied.fake, hcopied.fake.trans hentry.fake, hentry.lt,
        hentry.live⟩
  slots := by
    intro object info real hl hv hreal slot hslot hnot
    have hentry := h.entries object info hl
    rcases h.objects object _ hv with hplain | ⟨info', id, hcopied⟩
    · obtain ⟨id, hid⟩ := hplain.game
      rw [hentry.fake] at hid
      cases hid
    · obtain rfl : info = info' := Option.some.inj (hl.symm.trans hcopied.entry)
      obtain rfl : real = .game id := Option.some.inj (hreal.symm.trans hcopied.original)
      rw [hentry.fake]
      exact hcopied.slots slot hslot hnot
  restored := by
    intro object v real hv hreal hl
    rcases h.objects object v hv with hplain | ⟨info, id, hcopied⟩
    · exact hplain.original real hreal
    · have hentry := hcopied.entry
      rw [hl] at hentry
      cases hentry
  inside := h.inside

/-- An object that its entry still hooks. -/
theorem Sound.copied (h : Sound C s) (hl : s.map.lookup object = some info)
    (hv : s.vtable object = some info.fakeVtable) :
    ∃ id, Copied C s object info.fakeVtable info id := by
  rcases h.objects object _ hv with hplain | ⟨info', id, hcopied⟩
  · obtain ⟨id, hid⟩ := hplain.game
    rw [(h.entries object info hl).fake] at hid
    cases hid
  · obtain rfl : info = info' := Option.some.inj (hl.symm.trans hcopied.entry)
    exact ⟨id, hcopied⟩

theorem Fresh.hooked {v : Vtable} (h : s.Fresh object) (hv : s.vtable object = some v)
    (hl : s.map.lookup object = some info) : s.vtable object = some info.fakeVtable := by
  rcases h with hnone | ⟨info', hl', hv'⟩
  · rw [hnone] at hv
    cases hv
  · obtain rfl : info = info' := Option.some.inj (hl.symm.trans hl')
    exact hv'

/-! ## What leaves an entry or an object alone -/

theorem EntryOk.congr (h : s.EntryOk info) (hlt : s.allocated ≤ s'.allocated)
    (hlive : info.mem ∉ s'.deleted)
    (hlength : (s'.blocks info.mem).methods.length = (s.blocks info.mem).methods.length) :
    s'.EntryOk info :=
  ⟨h.fake, lt_of_lt_of_le h.lt hlt, hlive, hlength.trans h.length⟩

theorem Copied.congr {id : ℕ} (h : Copied C s object v info id)
    (hentry : s'.map.lookup object = s.map.lookup object)
    (horiginal : s'.original object = s.original object)
    (hblock : s'.blocks info.mem = s.blocks info.mem)
    (hreplaced : s'.replaced info.mem = s.replaced info.mem) : Copied C s' object v info id := by
  refine ⟨hentry.trans h.entry, h.fake, h.real, horiginal.trans h.original, ?_⟩
  rw [hblock, hreplaced]
  exact h.slots

theorem ObjectOk.congr (h : ObjectOk C s object v)
    (hentry : s'.map.lookup object = s.map.lookup object)
    (horiginal : s'.original object = s.original object)
    (hblocks : ∀ info, s.map.lookup object = some info →
      s'.blocks info.mem = s.blocks info.mem ∧ s'.replaced info.mem = s.replaced info.mem) :
    ObjectOk C s' object v := by
  rcases h with hplain | ⟨info, id, hcopied⟩
  · refine .inl ⟨hplain.game, ?_⟩
    rw [horiginal]
    exact hplain.original
  · obtain ⟨hblock, hreplaced⟩ := hblocks info hcopied.entry
    exact .inr ⟨info, id, hcopied.congr hentry horiginal hblock hreplaced⟩

/-! ## The objects of the game -/

theorem Sound.create (h : Sound C s) (id : ℕ) : Sound C (s.create object id) := by
  unfold ObjectHooks.create
  split_ifs
  · refine ⟨fun o info hl => ?_, h.distinct, fun o v hv => ?_, h.deleted, h.inside⟩
    · have hentry := h.entries o info hl
      exact hentry.congr le_rfl hentry.live rfl
    · dsimp only at hv
      by_cases ho : o = object
      · subst ho
        rw [Function.update_self] at hv
        refine .inl ⟨⟨id, (Option.some.inj hv).symm⟩, fun real hreal => ?_⟩
        dsimp only at hreal
        rw [Function.update_self] at hreal
        cases hreal
      · rw [Function.update_of_ne ho] at hv
        exact (h.objects o v hv).congr rfl (Function.update_of_ne ho _ _) fun _ _ => ⟨rfl, rfl⟩
  · exact h

theorem Sound.destroy (h : Sound C s) : Sound C (s.destroy object) := by
  unfold ObjectHooks.destroy
  refine ⟨fun o info hl => ?_, h.distinct, fun o v hv => ?_, h.deleted, h.inside⟩
  · have hentry := h.entries o info hl
    exact hentry.congr le_rfl hentry.live rfl
  · dsimp only at hv
    by_cases ho : o = object
    · subst ho
      rw [Function.update_self] at hv
      cases hv
    · rw [Function.update_of_ne ho] at hv
      exact (h.objects o v hv).congr rfl (Function.update_of_ne ho _ _) fun _ _ => ⟨rfl, rfl⟩

/-! ## The manager -/

/-- A new copy has the methods of its table. -/
theorem getD_copyTable {vtableLength slot : ℕ} (hslot : slot < vtableLength) :
    (s.copyTable C v vtableLength).methods.getD slot 0 = s.read C v slot := by
  unfold copyTable
  simp [List.getD_eq_getElem?_getD, List.getElem?_range hslot]

theorem Sound.replace (h : Sound C s) (vtableLength : ℕ) (dynamic : Bool)
    (hg : ∀ v ∈ s.vtable object, v.isFake = false) :
    Sound C (s.replace C object vtableLength dynamic) := by
  unfold ObjectHooks.replace
  cases hv : s.vtable object with
  | none => exact h
  | some v =>
    obtain ⟨⟨id, rfl⟩, horiginal⟩ : s.Plain object v := by
      rcases h.objects object v hv with hplain' | ⟨info, id, hcopied⟩
      · exact hplain'
      · have hgame := hg v hv
        rw [hcopied.fake, (h.entries object info hcopied.entry).fake] at hgame
        cases hgame
    have hfirst : (s.original object).getD (.game id) = .game id := by
      cases ho : s.original object with
      | none => rfl
      | some real => exact (horiginal real ho).symm
    have hother : ∀ o info, s.map.lookup o = some info → info.mem ≠ s.allocated :=
      fun o info hl => ne_of_lt (h.entries o info hl).lt
    refine ⟨fun o info hl => ?_, fun o o' info info' hl hl' hmem => ?_, fun o w hw => ?_,
      fun mem hmem => Nat.lt_succ_of_lt (h.deleted mem hmem), h.inside⟩
    · dsimp only at hl
      by_cases ho : o = object
      · subst ho
        rw [AList.lookup_insert] at hl
        obtain rfl := Option.some.inj hl
        refine ⟨rfl, Nat.lt_succ_self _, fun hd => lt_irrefl _ (h.deleted _ hd), ?_⟩
        simp [copyTable]
      · rw [AList.lookup_insert_ne ho] at hl
        have hentry := h.entries o info hl
        refine hentry.congr (Nat.le_succ _) hentry.live ?_
        dsimp only
        rw [Function.update_of_ne (hother o info hl)]
    · dsimp only at hl hl'
      by_cases ho : o = object
      · by_cases ho' : o' = object
        · rw [ho, ho']
        · subst ho
          rw [AList.lookup_insert] at hl
          rw [AList.lookup_insert_ne ho'] at hl'
          obtain rfl := Option.some.inj hl
          exact absurd hmem.symm (hother o' info' hl')
      · rw [AList.lookup_insert_ne ho] at hl
        by_cases ho' : o' = object
        · subst ho'
          rw [AList.lookup_insert] at hl'
          obtain rfl := Option.some.inj hl'
          exact absurd hmem (hother o info hl)
        · rw [AList.lookup_insert_ne ho'] at hl'
          exact h.distinct o o' info info' hl hl' hmem
    · dsimp only at hw
      by_cases ho : o = object
      · subst ho
        rw [Function.update_self] at hw
        obtain rfl := Option.some.inj hw
        refine .inr ⟨_, id, AList.lookup_insert _, rfl, rfl, ?_, fun slot hslot _ => ?_⟩
        · dsimp only
          rw [Function.update_self, hfirst]
        · dsimp only
          rw [Function.update_self, getD_copyTable hslot]
          rfl
      · rw [Function.update_of_ne ho] at hw
        refine (h.objects o w hw).congr (AList.lookup_insert_ne ho) (Function.update_of_ne ho _ _)
          fun info hl => ⟨?_, ?_⟩
        · exact Function.update_of_ne (hother o info hl) _ _
        · exact Function.update_of_ne (hother o info hl) _ _

/-- A write in the table of an entry, after which the slots of `slots` count as replaced. -/
theorem Sound.writeSlot {slot : ℕ} {method : Method} {slots : List ℕ} (h : Sound C s)
    (hl : s.map.lookup object = some info) (hslot : slot < info.methodCount)
    (hslots : ∀ i, i ∉ slots → (i ≠ slot ∧ i ∉ s.replaced info.mem) ∨
      (i = slot ∧ method = s.read C info.realVtable slot)) :
    Sound C { s.writeSlot info.mem slot method with
      replaced := Function.update s.replaced info.mem slots } := by
  have hin : slot < (s.blocks info.mem).methods.length := by
    rwa [(h.entries object info hl).length]
  unfold ObjectHooks.writeSlot
  rw [if_pos hin]
  refine ⟨fun o info' hl' => ?_, h.distinct, fun o w hw => ?_, h.deleted, h.inside⟩
  · have hentry := h.entries o info' hl'
    refine hentry.congr le_rfl hentry.live ?_
    dsimp only
    by_cases hmem : info'.mem = info.mem
    · rw [hmem, Function.update_self, List.length_set]
    · rw [Function.update_of_ne hmem]
  · have hobject := h.objects o w hw
    by_cases ho : o = object
    · subst ho
      rcases hobject with hplain | ⟨info', id, hcopied⟩
      · exact .inl ⟨hplain.game, hplain.original⟩
      · obtain rfl : info = info' := Option.some.inj (hl.symm.trans hcopied.entry)
        refine .inr ⟨info, id, hl, hcopied.fake, hcopied.real, hcopied.original, fun i hi hnot => ?_⟩
        dsimp only at hnot ⊢
        rw [Function.update_self] at hnot
        rw [Function.update_self, List.getD_eq_getElem?_getD]
        dsimp only
        rcases hslots i hnot with ⟨hne, hrep⟩ | ⟨rfl, rfl⟩
        · rw [List.getElem?_set_ne (Ne.symm hne), ← List.getD_eq_getElem?_getD]
          exact hcopied.slots i hi hrep
        · rw [List.getElem?_set_self hin, hcopied.real]
          rfl
    · refine hobject.congr rfl rfl fun info' hl' => ?_
      have hmem : info'.mem ≠ info.mem := fun heq => ho (h.distinct o object info' info hl' hl heq)
      exact ⟨Function.update_of_ne hmem _ _, Function.update_of_ne hmem _ _⟩

theorem Sound.apply {offset : ℕ} {detour : Method} (h : Sound C s)
    (hslot : ∀ info ∈ s.map.lookup object, offset / 4 < info.methodCount) :
    Sound C (s.apply C object offset detour).2 := by
  unfold ObjectHooks.apply
  cases hl : s.map.lookup object with
  | none => exact h
  | some info =>
    refine h.writeSlot hl (hslot info hl) fun i hi => .inl ?_
    rwa [List.mem_cons, not_or] at hi

theorem Sound.cancel {offset : ℕ} (h : Sound C s)
    (hslot : ∀ info ∈ s.map.lookup object, offset / 4 < info.methodCount) :
    Sound C (s.cancel C object offset) := by
  unfold ObjectHooks.cancel
  cases hl : s.map.lookup object with
  | none => exact h
  | some info =>
    refine h.writeSlot hl (hslot info hl) fun i hi => ?_
    by_cases hne : i = offset / 4
    · exact .inr ⟨hne, rfl⟩
    · refine .inl ⟨hne, fun hm => hi ?_⟩
      rw [List.mem_filter]
      exact ⟨hm, decide_eq_true hne⟩

theorem Sound.restore (h : Sound C s) (hg : object ∈ s.map → s.Fresh object) :
    Sound C (s.restore object) := by
  unfold ObjectHooks.restore
  cases hl : s.map.lookup object with
  | none => exact h
  | some info =>
    have hfresh : s.Fresh object := hg (AList.lookup_isSome.mp (by rw [hl]; rfl))
    have hentries : ∀ o info', (s.map.erase object).lookup o = some info' →
        s.map.lookup o = some info' := by
      intro o info' ho
      by_cases heq : o = object
      · subst heq
        rw [AList.lookup_erase] at ho
        cases ho
      · rwa [AList.lookup_erase_ne heq] at ho
    refine ⟨fun o info' ho => ?_, fun o o' i i' ho ho' => ?_, fun o w hw => ?_, h.deleted, h.inside⟩
    · have hentry := h.entries o info' (hentries o info' ho)
      exact hentry.congr le_rfl hentry.live rfl
    · exact h.distinct o o' i i' (hentries o i ho) (hentries o' i' ho')
    · replace hw : Function.update s.vtable object ((s.vtable object).map fun _ => info.realVtable) o =
        some w := hw
      by_cases heq : o = object
      · subst heq
        rw [Function.update_self] at hw
        obtain ⟨v, hv, rfl⟩ := Option.map_eq_some_iff.mp hw
        obtain ⟨id, hcopied⟩ := h.copied hl (hfresh.hooked hv hl)
        refine .inl ⟨⟨id, hcopied.real⟩, fun real hreal => ?_⟩
        rw [hcopied.real]
        exact Option.some.inj (hcopied.original.symm.trans hreal)
      · rw [Function.update_of_ne heq] at hw
        exact (h.objects o w hw).congr (AList.lookup_erase_ne heq) rfl fun _ _ => ⟨rfl, rfl⟩

theorem lookup_staticMap : s.staticMap.lookup object = some info ↔
    s.map.lookup object = some info ∧ info.isDynamic = false := by
  rw [← Option.mem_def, ← Option.mem_def, AList.mem_lookup_iff, AList.mem_lookup_iff, staticMap,
    List.mem_filter, Bool.not_eq_true']

theorem Sound.clearAllDynamic (h : Sound C s)
    (hg : ∀ e ∈ s.map.entries, e.2.isDynamic = true → ¬ s.Hooked e.1) :
    Sound C s.clearAllDynamic := by
  have hmem : ∀ mem, mem ∈ s.clearAllDynamic.deleted ↔
      (∃ object info, s.map.lookup object = some info ∧ info.isDynamic = true ∧ info.mem = mem) ∨
        mem ∈ s.deleted := by
    intro mem
    rw [ObjectHooks.clearAllDynamic, List.mem_append, List.mem_map]
    refine or_congr_left ⟨?_, ?_⟩
    · rintro ⟨⟨o, info⟩, he, rfl⟩
      obtain ⟨hin, hd⟩ := List.mem_filter.mp he
      exact ⟨o, info, AList.mem_lookup_iff.mpr hin, hd, rfl⟩
    · rintro ⟨o, info, hl, hd, rfl⟩
      exact ⟨⟨o, info⟩, List.mem_filter.mpr ⟨AList.mem_lookup_iff.mp hl, hd⟩, rfl⟩
  refine ⟨fun o info hl => ?_, fun o o' i i' hl hl' => ?_, fun o v hv => ?_, fun mem hd => ?_,
    h.inside⟩
  · obtain ⟨hl, hstatic⟩ := lookup_staticMap.mp hl
    have hentry := h.entries o info hl
    refine hentry.congr le_rfl (fun hd => ?_) rfl
    rcases (hmem _).mp hd with ⟨o', info', hl', hd', heq⟩ | hd
    · obtain rfl := h.distinct o' o info' info hl' hl heq
      rw [Option.some.inj (hl'.symm.trans hl), hstatic] at hd'
      cases hd'
    · exact hentry.live hd
  · exact h.distinct o o' i i' (lookup_staticMap.mp hl).1 (lookup_staticMap.mp hl').1
  · rcases h.objects o v hv with hplain | ⟨info, id, hcopied⟩
    · exact .inl ⟨hplain.game, hplain.original⟩
    · have hstatic : info.isDynamic = false := by
        refine eq_false_of_ne_true fun hd => ?_
        refine hg ⟨o, info⟩ (AList.mem_lookup_iff.mp hcopied.entry) hd ⟨info, hcopied.entry, ?_⟩
        rw [← hcopied.fake]
        exact hv
      exact .inr ⟨info, id, lookup_staticMap.mpr ⟨hcopied.entry, hstatic⟩, hcopied.fake, hcopied.real,
        hcopied.original, hcopied.slots⟩
  · rcases (hmem mem).mp hd with ⟨o, info, hl, -, rfl⟩ | hd
    · exact (h.entries o info hl).lt
    · exact h.deleted mem hd

theorem Sound.clearAll (h : Sound C s) (hg : ∀ e ∈ s.map.entries, s.Fresh e.1) :
    Sound C s.clearAll := by
  refine ⟨fun _ _ hl => absurd hl (Option.some_ne_none _).symm,
    fun _ _ _ _ hl => absurd hl (Option.some_ne_none _).symm, fun o w hw => ?_, h.deleted, h.inside⟩
  unfold ObjectHooks.clearAll at hw
  dsimp only at hw
  cases hl : s.map.lookup o with
  | none =>
    rw [hl] at hw
    rcases h.objects o w hw with hplain | ⟨info, id, hcopied⟩
    · exact .inl ⟨hplain.game, hplain.original⟩
    · have hentry := hcopied.entry
      rw [hl] at hentry
      cases hentry
  | some info =>
    rw [hl] at hw
    obtain ⟨v, hv, rfl⟩ := Option.map_eq_some_iff.mp hw
    have hfresh : s.Fresh o := hg ⟨o, info⟩ (AList.mem_lookup_iff.mp hl)
    obtain ⟨id, hcopied⟩ := h.copied hl (hfresh.hooked hv hl)
    refine .inl ⟨⟨id, hcopied.real⟩, fun real hreal => ?_⟩
    rw [hcopied.real]
    exact Option.some.inj (hcopied.original.symm.trans hreal)

theorem Sound.event {e : HookEvent} (h : Sound C s) (hg : s.Guarded e) : Sound C (s.event C e) := by
  cases e with
  | create object id => exact h.create id
  | destroy object => exact h.destroy
  | replace object vtableLength dynamic => exact h.replace vtableLength dynamic hg
  | apply object offset detour => exact h.apply hg
  | cancel object offset => exact h.cancel hg
  | restore object => exact h.restore hg
  | clearAllDynamic => exact h.clearAllDynamic hg
  | clearAll => exact h.clearAll hg

/-- **Hooked virtual tables.** In a session that hooks no object twice, drops no entry of an object
that points to its copy, and stays in the tables, every hooked object points to its own table or to
a copy that the manager holds, whose slots are the original ones but for those replaced, and without
an entry to its own table. -/
theorem hooksOk_of_guarded (C : GameTables) (events : List HookEvent)
    (h : Session.Steps (event C) init events Guarded) :
    Session.Always (event C) init events (Ok C) := by
  have hsound : Session.Always (event C) init events (Sound C) :=
    Session.Always.of_steps (fun _ _ _ hs hg => hs.event hg) sound_init h
  exact hsound.mono fun _ hs => hs.ok

/-- The methods of table `id` are numbered from `100 * id` on. -/
def numberedTables : GameTables := ⟨fun id => id, fun id slot => 100 * id + slot⟩

/-- An object is hooked, restored and hooked again, and a new object takes its address. -/
theorem hooksOk_reusedAddress :
    Session.Always (event numberedTables) init
      [.create 16 3, .replace 16 2 true, .apply 16 4 900, .cancel 16 4, .apply 16 0 901, .restore 16,
        .replace 16 2 true, .destroy 16, .create 16 5, .clearAllDynamic, .replace 16 4 false,
        .apply 16 12 902, .clearAllDynamic, .clearAll] (Ok numberedTables) :=
  hooksOk_of_guarded _ _ (by decide +kernel)

/-- An object that is hooked twice and restored points to the first copy, and one that is hooked
when all dynamic entries are dropped points to a deleted block. -/
theorem table_not_restored :
    ¬ Session.Always (event numberedTables) init
        [.create 16 3, .replace 16 2 true, .replace 16 2 true, .restore 16] (Ok numberedTables) ∧
      ¬ Session.Always (event numberedTables) init
        [.create 16 3, .replace 16 2 true, .clearAllDynamic] (Ok numberedTables) := by
  refine ⟨fun h => ?_, fun h => ?_⟩
  · have hrestored := h.last.restored 16 (.fake 0) (.game 3) (by decide) (by decide) (by decide)
    cases hrestored
  · have hrestored := h.last.restored 16 (.fake 0) (.game 3) (by decide) (by decide) (by decide)
    cases hrestored

end ObjectHooks

end DreamDota
