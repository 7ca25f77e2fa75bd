import DreamDota.Dispatcher.Step
import DreamDota.Lib.OrdSet

/-!
# Packets

`Packet.cpp`, with `DetourPacketAnalyze` of `Hook.cpp` and the packet buffers of `UnitGroup.cpp`, as
a client of the dispatcher. Every packet, of the program and of the game, passes `PacketAnalyze`
just before it is transmitted, and `PacketAnalyze` dispatches events whose listeners may send
packets again. So a call expands to a list of instructions, and the dispatches stand between them.

The game is not part of the program. `Game` is what the program asks of it, `SelectionState.receive`
what a transmitted packet does to the selection that it keeps for the player, and a player's
operation changes the selection shown (`ui`) and sends the packet that says so.

The unit sets are not bounded here. In the source they are copied to and from arrays of 12, which
is what the game allows to be selected.

The time stamps of `LocalActionPacketQueue` and the data of `ControlGroupEventObj` are left out:
neither is read by what is modelled here. `flagReads`, `events`, `transmissions` and `dataReads` are
history.
-/

namespace DreamDota

/-! ## Packets -/

/-- A `CUnit` object: its address. -/
abbrev UnitPtr := ℕ

/-- A `HashGroup`, which is compared and never computed with. -/
abbrev HashGroup := ℕ

/-- A coordinate, a `float` that is copied and never computed with. -/
abbrev Coord := ℕ

abbrev UnitSet := OrdSet UnitPtr

/-- `PacketAction`, which the other action packets start with. -/
structure ActionHeader where
  flag : ℕ
  actionId : ℕ
  hashUsedItem : HashGroup
  deriving DecidableEq, Repr

/-- The packets 0x10 to 0x14. -/
inductive ActionPacket where
  | action (h : ActionHeader)
  | actionPoint (h : ActionHeader) (targetX targetY : Coord)
  | actionTarget (h : ActionHeader) (targetX targetY : Coord) (hashWidgetTarget : HashGroup)
  | actionDropItem (h : ActionHeader) (targetX targetY : Coord) (hashTarget hashItem : HashGroup)
  | actionIndirect (h : ActionHeader) (targetX targetY : Coord) (typeId : ℕ)
      (targetX2 targetY2 : Coord)
  deriving DecidableEq, Repr

namespace ActionPacket

def id : ActionPacket → ℕ
  | .action .. => 0x10
  | .actionPoint .. => 0x11
  | .actionTarget .. => 0x12
  | .actionDropItem .. => 0x13
  | .actionIndirect .. => 0x14

def size : ActionPacket → ℕ
  | .action .. => 15
  | .actionPoint .. => 23
  | .actionTarget .. => 31
  | .actionDropItem .. => 39
  | .actionIndirect .. => 44

def header : ActionPacket → ActionHeader
  | .action h | .actionPoint h .. | .actionTarget h .. | .actionDropItem h ..
  | .actionIndirect h .. => h

end ActionPacket

inductive SelectionMode where
  | select
  | deselect
  deriving DecidableEq, Repr

/-- The ids of the packets that `Packet` names. -/
def knownIds : List ℕ :=
  [0x10, 0x11, 0x12, 0x13, 0x14, 0x16, 0x17, 0x18, 0x19, 0x1A, 0x1C, 0x1D, 0x1E]

/-- A packet of any other id. The id takes the first byte. -/
structure OtherPacket where
  id : ℕ
  size : ℕ
  other : id ∉ knownIds
  size_pos : 0 < size
  deriving DecidableEq

inductive Packet where
  | action (a : ActionPacket)
  | selection (mode : SelectionMode) (count : ℕ) (objects : List HashGroup)
  | controlGroupAssign (numGroup : ℕ) (objects : List HashGroup)
  | controlGroupSelect (numGroup : ℕ)
  | subgroup (typeId : ℕ) (object : HashGroup)
  | preSubSelection
  | selectionItem (hashItem : HashGroup)
  | cancelRevive (hashHero : HashGroup)
  | cancelQueue (slot typeId : ℕ)
  | other (o : OtherPacket)
  deriving DecidableEq

namespace Packet

def id : Packet → ℕ
  | .action a => a.id
  | .selection .. => 0x16
  | .controlGroupAssign .. => 0x17
  | .controlGroupSelect .. => 0x18
  | .subgroup .. => 0x19
  | .preSubSelection => 0x1A
  | .selectionItem .. => 0x1C
  | .cancelRevive .. => 0x1D
  | .cancelQueue .. => 0x1E
  | .other o => o.id

def size : Packet → ℕ
  | .action a => a.size
  | .selection _ _ objects => 4 + objects.length * 8
  | .controlGroupAssign _ objects => 4 + objects.length * 8
  | .controlGroupSelect .. => 3
  | .subgroup .. => 13
  | .preSubSelection => 1
  | .selectionItem .. => 10
  | .cancelRevive .. => 9
  | .cancelQueue .. => 6
  | .other o => o.size

end Packet

/-- The static packets of `UnitGroup.cpp`. -/
inductive BufferKind where
  | action
  | actionPoint
  | actionTarget
  | actionDropItem
  deriving DecidableEq, Repr

/-- Their contents. -/
structure ActionBuffers where
  action : ActionHeader
  actionPoint : ActionHeader × Coord × Coord
  actionTarget : ActionHeader × Coord × Coord × HashGroup
  actionDropItem : ActionHeader × Coord × Coord × HashGroup × HashGroup

namespace ActionBuffers

def zero : ActionBuffers :=
  ⟨⟨0, 0, 0⟩, (⟨0, 0, 0⟩, 0, 0), (⟨0, 0, 0⟩, 0, 0, 0), (⟨0, 0, 0⟩, 0, 0, 0, 0)⟩

def get (b : ActionBuffers) : BufferKind → ActionPacket
  | .action => .action b.action
  | .actionPoint => .actionPoint b.actionPoint.1 b.actionPoint.2.1 b.actionPoint.2.2
  | .actionTarget =>
    .actionTarget b.actionTarget.1 b.actionTarget.2.1 b.actionTarget.2.2.1 b.actionTarget.2.2.2
  | .actionDropItem =>
    .actionDropItem b.actionDropItem.1 b.actionDropItem.2.1 b.actionDropItem.2.2.1
      b.actionDropItem.2.2.2.1 b.actionDropItem.2.2.2.2

/-- The packet is written to the buffer of its kind, and the buffer is answered. `UnitGroup.cpp` has
none for 0x14. -/
def fill (b : ActionBuffers) : ActionPacket → Option (BufferKind × ActionBuffers)
  | .action h => some (.action, { b with action := h })
  | .actionPoint h x y => some (.actionPoint, { b with actionPoint := (h, x, y) })
  | .actionTarget h x y w => some (.actionTarget, { b with actionTarget := (h, x, y, w) })
  | .actionDropItem h x y t i =>
    some (.actionDropItem, { b with actionDropItem := (h, x, y, t, i) })
  | .actionIndirect .. => none

end ActionBuffers

/-- A pointer to a packet: to one of the sender's own, or to a static buffer. -/
inductive PacketPtr where
  | own (p : Packet)
  | buffer (k : BufferKind)
  deriving DecidableEq

namespace PacketPtr

def deref (b : ActionBuffers) : PacketPtr → Packet
  | .own p => p
  | .buffer k => .action (b.get k)

/-- The id does not depend on what a buffer holds. -/
def id : PacketPtr → ℕ
  | .own p => p.id
  | .buffer .action => 0x10
  | .buffer .actionPoint => 0x11
  | .buffer .actionTarget => 0x12
  | .buffer .actionDropItem => 0x13

theorem id_deref (b : ActionBuffers) (p : PacketPtr) : (p.deref b).id = p.id := by
  cases p with
  | own p => rfl
  | buffer k => cases k <;> rfl

end PacketPtr

/-! ## Senders, events and the game -/

/-- On whose behalf a packet is sent. -/
inductive Purpose where
  /-- A selection packet of the program. -/
  | internal
  /-- The action of `PacketJustInTimeActionSend`, for the units of the set. -/
  | jit (set : UnitSet)
  /-- Any other call of `PacketSend`. -/
  | program
  /-- The game. -/
  | player
  deriving DecidableEq

/-- A `PacketSender`, by its number. -/
structure Sender where
  serial : ℕ
  packet : PacketPtr
  sendAsProgramm : Bool
  purpose : Purpose
  deriving DecidableEq

inductive ActionType where
  | targetNone
  | targetPoint
  | target
  | dropItem
  deriving DecidableEq, Repr

/-- `ActionEventData`. `transferItem` is set for 0x13 alone. -/
structure ActionEventData where
  packetSender : ℕ
  byProgramm : Bool
  id : ℕ
  type : ActionType
  flag : ℕ
  usingItem : ℕ
  x : Coord
  y : Coord
  target : ℕ
  transferItem : Option ℕ
  deriving DecidableEq, Repr

/-- What `setData` leaves in the event object: a new block with a copy of the data. -/
structure EventBlock where
  block : ℕ
  data : ActionEventData
  deriving DecidableEq, Repr

/-- What the program asks of the game, which stays as it is during a run. Two unit objects have
different hashes. -/
structure Game where
  isInGame : Bool
  hash : UnitPtr → HashGroup
  typeId : UnitPtr → ℕ
  itemFromHash : HashGroup → ℕ
  agentFromHash : HashGroup → ℕ
  hash_injective : Function.Injective hash

/-- A game in progress in which objects and hashes are the same. -/
def plainGame : Game := ⟨true, id, id, id, id, Function.injective_id⟩

def packetEvtObj : Event := ⟨1, 1009⟩

def packetEventObject : Event := ⟨2, 1015⟩

def controlGroupEventObj : Event := ⟨3, 1010⟩

/-- The data that `PacketEventDispatch` fills in. -/
def actionEventData (G : Game) (sender : ℕ) (byProgramm : Bool) (a : ActionPacket) :
    ActionEventData :=
  let data : ActionEventData :=
    { packetSender := sender
      byProgramm := byProgramm
      id := a.header.actionId
      type := .targetNone
      flag := a.header.flag
      usingItem := G.itemFromHash a.header.hashUsedItem
      x := 0
      y := 0
      target := 0
      transferItem := none }
  match a with
  | .actionPoint _ x y => { data with type := .targetPoint, x := x, y := y }
  | .actionTarget _ x y w =>
    { data with type := .target, x := x, y := y, target := G.agentFromHash w }
  | .actionDropItem _ x y t i =>
    { data with
      type := .dropItem, x := x, y := y, target := G.agentFromHash t
      transferItem := some (G.itemFromHash i) }
  | _ => data

/-! ## The state -/

/-- The selections: those shown to the player, those that the transmitted packets have produced, and
the one that the just-in-time selection keeps. -/
structure SelectionState where
  /-- `ActionProcessing`. -/
  processing : Bool
  justInTimeSelection : UnitSet
  wire : Finset HashGroup
  wireGroups : ℕ → Finset HashGroup
  /-- What `SelectedUnitGet` answers. -/
  ui : UnitSet
  /-- What `ActiveSubgroupGet` answers. -/
  activeSubgroup : UnitSet
  uiGroups : ℕ → UnitSet

/-- The packet is received. -/
def SelectionState.receive (s : SelectionState) : Packet → SelectionState
  | .selection .select _ objects => { s with wire := s.wire ∪ objects.toFinset }
  | .selection .deselect _ objects => { s with wire := s.wire \ objects.toFinset }
  | .controlGroupAssign n objects =>
    { s with wireGroups := Function.update s.wireGroups n objects.toFinset }
  | .controlGroupSelect n => { s with wire := s.wireGroups n }
  | _ => s

/-- A read of `ACTION_PROGRAMM` for a packet, and the `sendAsProgramm` of the packet's sender. -/
structure FlagRead where
  value : Bool
  sendAsProgramm : Bool
  deriving DecidableEq, Repr

/-- A dispatch of `EVENT_LOCAL_ACTION`: its data, and the `sendAsProgramm` of the sender. -/
structure LocalAction where
  data : ActionEventData
  sendAsProgramm : Bool
  deriving DecidableEq, Repr

/-- The end of a send: whether the packet was transmitted, and what was selected then. -/
structure Transmission where
  packet : Packet
  purpose : Purpose
  sent : Bool
  wire : Finset HashGroup
  ui : UnitSet
  deriving DecidableEq

/-- A read of the event's data by a callback of a dispatch that `PacketEventDispatch` made. -/
structure DataRead where
  own : EventBlock
  answer : Option EventBlock
  deriving DecidableEq, Repr

structure PacketCore where
  selection : SelectionState
  actionSentByScript : Bool
  buffers : ActionBuffers
  nextSender : ℕ
  sizePacket : ℕ → ℕ
  nextBlock : ℕ
  /-- The data of `PacketEventObject`. -/
  eventData : Option EventBlock
  /-- The ids in `LocalActionPacketQueue`. -/
  localActionPacketQueue : List ℕ
  flagReads : List FlagRead
  events : List LocalAction
  transmissions : List Transmission

structure PacketState where
  core : PacketCore
  dataReads : List DataRead

namespace PacketCore

def noteFlagRead (σ : PacketCore) (s : Sender) : PacketCore :=
  { σ with flagReads := σ.flagReads ++ [⟨σ.actionSentByScript, s.sendAsProgramm⟩] }

/-- `PacketSenderDestroy`. -/
def senderDestroy (σ : PacketCore) (serial : ℕ) : PacketCore :=
  { σ with sizePacket := Function.update σ.sizePacket serial 0 }

end PacketCore

/-! ## The calls -/

/-- The ids of the player's actions, which end the processing. -/
def selectBackIds : List ℕ := [0x10, 0x11, 0x12, 0x13, 0x14, 0x1D, 0x1E, 0x61, 0x66, 0x67]

/-- The packets of the player's actions. -/
abbrev PlayerAction := { p : Packet // p.id ∈ selectBackIds }

/-- What a callback may call, what the game does for the player, and the timer of the select-back.
-/
inductive PacketCall where
  | packetSend (p : Packet) (sendAsProgramm : Bool)
  | justInTimeActionSend (useJIT : Bool) (set : UnitSet) (a : ActionPacket) (sendAsProgramm : Bool)
  /-- `UnitGroup::sendAction` and `sendActionDropItem`, with the packet they compute, for a group of
  `size` members whose unit objects are `set`. -/
  | sendAction (size : ℕ) (set : UnitSet) (a : ActionPacket) (flagReduceAPM sendAsProgramm : Bool)
  | playerAction (p : PlayerAction)
  | playerSelect (units : UnitSet)
  | playerDeselect (units : UnitSet)
  | playerControlGroupAssign (numGroup : ℕ)
  | playerControlGroupSelect (numGroup : ℕ)
  | playerSubgroup (set : UnitSet) (typeId : ℕ) (object : HashGroup)
  | playerPreSubSelection
  | playerSelectItem (hashItem : HashGroup)
  | playerOther (o : OtherPacket)
  /-- `JITSelectBackTimerFunc`, and whether the random number is below the chance. -/
  | selectBackTimer (below : Bool)
  /-- `data->discard()`, by a listener of `EVENT_LOCAL_ACTION`. -/
  | discardAction
  /-- `evt->data<ActionEventData>()`, by a listener of `EVENT_LOCAL_ACTION`. -/
  | readEventData

/-! ## The instructions -/

/-- What a call expands to. The game's own sends pass the same hook as those of `PacketSend`. -/
inductive PacketInstr where
  /-- `PacketSend`, up to the dispatch of `EVENT_PACKET`. -/
  | send (p : PacketPtr) (sendAsProgramm : Bool) (purpose : Purpose)
  /-- `PacketAnalyze`, from the dispatch of `EVENT_PACKET` on. -/
  | analyzeRest (s : Sender)
  /-- `PacketEventDispatch`. -/
  | eventDispatch (s : Sender)
  /-- The entry in `LocalActionPacketQueue`. -/
  | queue (s : Sender)
  /-- The hooked function, which transmits the packet if its size is not 0. -/
  | transmit (s : Sender)
  /-- `ACTION_PROGRAMM_END`. -/
  | programmEnd
  /-- `PacketSelectionSend`. -/
  | selectionSend (set : UnitSet) (select : Bool)
  /-- `JustInTimeSelection = *unitSetToSelect`. -/
  | jitAssign (set : UnitSet)
  /-- `PacketJustInTimeActionSelectBack`. -/
  | selectBack
  /-- `PacketJustInTimeActionClear`. -/
  | clear
  deriving DecidableEq

/-- The ids of the selection packets that are not to be transmitted while processing. -/
def destroyIds : List ℕ := [0x16, 0x1A, 0x19, 0x1C]

/-- The ids of the action packets. -/
def actionIds : List ℕ := [0x10, 0x11, 0x12, 0x13, 0x14]

def PacketPtr.isAction (p : PacketPtr) : Bool := decide (p.id ∈ actionIds)

/-- The loop of `UnitSetCheckIdent`. -/
def sameElements : List UnitPtr → List UnitPtr → Bool
  | a :: l, b :: m => a == b && sameElements l m
  | _, _ => true

def unitSetCheckIdent (set1 set2 : UnitSet) : Bool :=
  set1.toList.length == set2.toList.length && sameElements set1.toList set2.toList

/-- The packet of `PacketSelectionSend`. -/
def selectionPacket (G : Game) (set : UnitSet) (select : Bool) : Packet :=
  .selection (if select then .select else .deselect) set.toList.length (set.toList.map G.hash)

/-- The packets 0x1A and 0x19 that follow a selection, for the first unit of a set. -/
def subgroupSends (G : Game) (set : UnitSet) : List PacketInstr :=
  match set.toList with
  | [] => []
  | u :: _ =>
    [.send (.own .preSubSelection) true .internal,
      .send (.own (.subgroup (G.typeId u) (G.hash u))) true .internal]

/-- Step 1 of `PacketJustInTimeActionSend`. -/
def SelectionState.processBegin (s : SelectionState) : SelectionState :=
  if s.processing then s
  else
    { s with
      processing := true
      justInTimeSelection := s.justInTimeSelection.insertAll s.ui.toList }

/-- `PacketJustInTimeActionSend`. -/
def justInTimeActionSend (G : Game) (useJIT : Bool) (set : UnitSet) (p : PacketPtr)
    (sendAsProgramm : Bool) (σ : PacketCore) : List PacketInstr × PacketCore :=
  let sel := σ.selection.processBegin
  let code :=
    if unitSetCheckIdent sel.justInTimeSelection set then []
    else
      [.selectionSend sel.justInTimeSelection false, .selectionSend set true] ++
        subgroupSends G set ++ [.jitAssign set]
  (code ++ [.send p sendAsProgramm (.jit set)] ++ (if useJIT then [] else [.selectBack]),
    { σ with selection := sel })

/-- `PacketJustInTimeActionSelectBack`. -/
def selectBack (G : Game) (σ : PacketCore) : List PacketInstr :=
  let sel := σ.selection
  let code :=
    if unitSetCheckIdent sel.justInTimeSelection sel.ui then []
    else
      [.selectionSend sel.justInTimeSelection false, .selectionSend sel.ui true] ++
        subgroupSends G sel.activeSubgroup
  code ++ [.clear]

/-- `PacketAnalyze` up to the dispatch of `EVENT_PACKET`. `ACTION_PROGRAMM` is read only if
`ACTION_PROCESS` holds. -/
def packetAnalyze (s : Sender) (σ : PacketCore) : List PacketInstr × PacketCore :=
  let noted := if σ.selection.processing then σ.noteFlagRead s else σ
  if σ.selection.processing && !σ.actionSentByScript then
    if s.packet.id ∈ selectBackIds then ([.selectBack, .analyzeRest s], noted)
    else if s.packet.id = 0x18 then ([.clear, .analyzeRest s], noted)
    else if s.packet.id ∈ destroyIds then ([], noted.senderDestroy s.serial)
    else ([.analyzeRest s], noted)
  else ([.analyzeRest s], noted)

/-- `DetourPacketAnalyze`. -/
def detourPacketAnalyze (s : Sender) (σ : PacketCore) : List PacketInstr × PacketCore :=
  if s.packet.id = 4 ∧ σ.sizePacket s.serial = 5 then ([], σ) else packetAnalyze s σ

/-- The sender that the next send makes. -/
def PacketCore.sender (σ : PacketCore) (p : PacketPtr) (sendAsProgramm : Bool)
    (purpose : Purpose) : Sender :=
  ⟨σ.nextSender, p, sendAsProgramm, purpose⟩

/-- `PacketSend` up to the call of the hook. -/
def PacketCore.beginSend (σ : PacketCore) (p : PacketPtr) (sendAsProgramm : Bool) : PacketCore :=
  { σ with
    nextSender := σ.nextSender + 1
    sizePacket := Function.update σ.sizePacket σ.nextSender (p.deref σ.buffers).size
    actionSentByScript := sendAsProgramm || σ.actionSentByScript }

def packetQueueRefresh (queue : List ℕ) : List ℕ := queue.drop (queue.length - 0x100)

/-- An operation of the packet client. -/
inductive PacketCode where
  | call (c : PacketCall)
  | instr (i : PacketInstr)

/-- A piece of code. The tag of a dispatch is the block that `PacketEventDispatch` made for it. -/
abbrev PacketOp : Type := Op PacketCode EventBlock

/-- Instructions as code. -/
def instrs (is : List PacketInstr) : List PacketOp := is.map fun i => .instr (.instr i)

/-- One instruction. -/
def PacketInstr.exec (G : Game) (i : PacketInstr) (σ : PacketCore) : List PacketOp × PacketCore :=
  match i with
  | .send p sendAsProgramm purpose =>
    let s := σ.sender p sendAsProgramm purpose
    let r := detourPacketAnalyze s (σ.beginSend p sendAsProgramm)
    (instrs (r.1 ++ [.transmit s] ++ if sendAsProgramm then [.programmEnd] else []), r.2)
  | .analyzeRest s =>
    ((if G.isInGame then [.dispatch packetEvtObj none] else []) ++
      (if s.packet.isAction then instrs [.eventDispatch s] else []) ++
      (if s.packet.id = 0x17 then [.dispatch controlGroupEventObj none] else []) ++
      (if s.packet.isAction then instrs [.queue s] else []), σ)
  | .eventDispatch s =>
    match G.isInGame, s.packet.deref σ.buffers with
    | true, .action a =>
      let data := actionEventData G s.serial σ.actionSentByScript a
      ([.dispatch packetEventObject (some ⟨σ.nextBlock, data⟩)],
        { σ.noteFlagRead s with
          nextBlock := σ.nextBlock + 1
          eventData := some ⟨σ.nextBlock, data⟩
          events := σ.events ++ [⟨data, s.sendAsProgramm⟩] })
    | _, _ => ([], σ)
  | .queue s =>
    ([], { σ with
      localActionPacketQueue := packetQueueRefresh (σ.localActionPacketQueue ++ [s.packet.id]) })
  | .transmit s =>
    let p := s.packet.deref σ.buffers
    let sent := σ.sizePacket s.serial != 0
    ([], { σ with
      selection := if sent then σ.selection.receive p else σ.selection
      transmissions := σ.transmissions ++
        [⟨p, s.purpose, sent, σ.selection.wire, σ.selection.ui⟩] })
  | .programmEnd => ([], { σ with actionSentByScript := false })
  | .selectionSend set select =>
    (if set.toList = [] then []
      else instrs [.send (.own (selectionPacket G set select)) true .internal], σ)
  | .jitAssign set =>
    ([], { σ with selection := { σ.selection with justInTimeSelection := set } })
  | .selectBack => (instrs (DreamDota.selectBack G σ), σ)
  | .clear =>
    ([], { σ with selection := { σ.selection with justInTimeSelection := ∅, processing := false } })

/-! ## The execution of the calls -/

/-- The game sends a packet. -/
def gameSend (p : Packet) : List PacketInstr := [.send (.own p) false .player]

/-- A call that sends packets. -/
def PacketCall.exec (G : Game) (c : PacketCall) (σ : PacketCore) :
    List PacketInstr × PacketCore :=
  let sel := σ.selection
  match c with
  | .packetSend p sendAsProgramm => ([.send (.own p) sendAsProgramm .program], σ)
  | .justInTimeActionSend useJIT set a sendAsProgramm =>
    DreamDota.justInTimeActionSend G useJIT set (.own (.action a)) sendAsProgramm σ
  | .sendAction size set a flagReduceAPM sendAsProgramm =>
    match size, σ.buffers.fill a with
    | _ + 1, some (k, buffers) =>
      DreamDota.justInTimeActionSend G flagReduceAPM set (.buffer k) sendAsProgramm
        { σ with buffers := buffers }
    | _, _ => ([], σ)
  | .playerAction p => (gameSend p.val, σ)
  | .playerSelect units =>
    (gameSend (selectionPacket G units true),
      { σ with selection := { sel with ui := sel.ui.insertAll units.toList } })
  | .playerDeselect units =>
    (gameSend (selectionPacket G units false),
      { σ with selection := { sel with ui := sel.ui.filter fun u => !decide (u ∈ units) } })
  | .playerControlGroupAssign n =>
    (gameSend (.controlGroupAssign n (sel.ui.toList.map G.hash)),
      { σ with selection := { sel with uiGroups := Function.update sel.uiGroups n sel.ui } })
  | .playerControlGroupSelect n =>
    (gameSend (.controlGroupSelect n), { σ with selection := { sel with ui := sel.uiGroups n } })
  | .playerSubgroup set typeId object =>
    (gameSend (.subgroup typeId object), { σ with selection := { sel with activeSubgroup := set } })
  | .playerPreSubSelection => (gameSend .preSubSelection, σ)
  | .playerSelectItem hashItem => (gameSend (.selectionItem hashItem), σ)
  | .playerOther o => (gameSend (.other o), σ)
  | .selectBackTimer below => (if sel.processing && below then [.selectBack] else [], σ)
  | .discardAction | .readEventData => ([], σ)

/-- A call, by a callback of a dispatch with the given tag. The two calls of a listener of
`EVENT_LOCAL_ACTION` find their data in the event object. -/
def PacketCall.execIn (G : Game) (tag : Option EventBlock) (c : PacketCall) (σ : PacketState) :
    List PacketInstr × PacketState :=
  match c, tag with
  | .readEventData, some own =>
    ([], { σ with dataReads := σ.dataReads ++ [⟨own, σ.core.eventData⟩] })
  | .discardAction, some _ =>
    match σ.core.eventData with
    | some b => ([], { σ with core := σ.core.senderDestroy b.data.packetSender })
    | none => ([], σ)
  | _, _ => ((c.exec G σ.core).1, { σ with core := (c.exec G σ.core).2 })

/-- The packet client. -/
abbrev packetClient (G : Game) : Client where
  Tag := EventBlock
  Call := PacketCall
  Instr := PacketCode
  State := PacketState
  enter := .call
  exec tag code σ :=
    match code with
    | .instr i => ((i.exec G σ.core).1, { σ with core := (i.exec G σ.core).2 })
    | .call c => (instrs (c.execIn G tag σ).1, (c.execIn G tag σ).2)

/-- The state before the first packet. -/
def PacketState.init : PacketState where
  core :=
    { selection := ⟨false, ∅, ∅, fun _ => ∅, ∅, ∅, fun _ => ∅⟩
      actionSentByScript := false
      buffers := .zero
      nextSender := 0
      sizePacket := fun _ => 0
      nextBlock := 0
      eventData := none
      localActionPacketQueue := []
      flagReads := []
      events := []
      transmissions := [] }
  dataReads := []

end DreamDota
