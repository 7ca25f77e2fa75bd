import DreamDota.Packet.SelectionPacket
import DreamDota.Packet.Step

/-!
# The packets of nested actions

`UnitGroup::sendAction` and `sendActionDropItem` fill one of four static packets, and
`PacketJustInTimeActionSend` sends up to four other packets before that one leaves. The listeners of
their events may call `sendAction` again, and so may those of the action packet itself, which is
copied from the static packet only after its analysis.

`Payload` is history: the packet that each call on a group has computed, until it is transmitted, and
what was transmitted for it then. The calls nest, so the packet transmitted next is the one of the
call begun last.

1. `UnitGroup.sendAction`, `UnitGroup.sendActionDropItem`: the packet of a call.
2. `InFlight`: what is known of the packets still to come, kept by every step under the guard.
3. `payloadOk_run`: the whole run.
-/

namespace DreamDota

/-! ## The packet of a call -/

/-- An item, by its Jass handle id. -/
abbrev ItemHandle := ℕ

/-- `HashGroup()`. -/
def emptyHash : HashGroup := 0xFFFFFFFFFFFFFFFF

def actionDropItem : ℕ := 0xD0021

/-- The hashes of the unit and item objects, and `none` where a handle has no object. -/
structure ObjectHashes where
  unit : UnitHandle → Option HashGroup
  item : ItemHandle → Option HashGroup

/-- The hash of an object, if the pointer is not null and its handle has an object. -/
def hashOrEmpty (hashOf : ℕ → Option HashGroup) (handle : Option ℕ) : HashGroup :=
  (handle.bind hashOf).getD emptyHash

/-- The arguments of `sendAction`. -/
structure ActionArgs where
  actionId : ℕ
  actionType : ActionType
  actionFlag : ℕ
  usingItem : Option ItemHandle
  targetX : Coord
  targetY : Coord
  targetUnit : Option UnitHandle
  targetItem : Option ItemHandle
  deriving DecidableEq, Repr

/-- The packet that `sendAction` fills, whose flag has 16 bits. -/
def ActionArgs.packet (O : ObjectHashes) (args : ActionArgs) : Option ActionPacket :=
  let flag := args.actionFlag % 2 ^ 16
  match args.actionType with
  | .targetNone => some (.action ⟨flag, args.actionId, hashOrEmpty O.item args.usingItem⟩)
  | .targetPoint =>
    some (.actionPoint ⟨flag, args.actionId, emptyHash⟩ args.targetX args.targetY)
  | .target =>
    some (.actionTarget ⟨flag, args.actionId, emptyHash⟩ args.targetX args.targetY
      (match args.targetUnit with
      | some unit => hashOrEmpty O.unit (some unit)
      | none => hashOrEmpty O.item args.targetItem))
  | .dropItem => none

/-- The packet that `sendActionDropItem` fills. -/
def dropItemPacket (O : ObjectHashes) (actionFlag : ℕ) (targetX targetY : Coord)
    (targetUnit : Option UnitHandle) (dropItemHandle : ItemHandle) : ActionPacket :=
  .actionDropItem ⟨actionFlag % 2 ^ 16, actionDropItem, emptyHash⟩ targetX targetY
    (hashOrEmpty O.unit targetUnit)
    (hashOrEmpty O.item (if dropItemHandle = 0 then none else some dropItemHandle))

namespace UnitGroup

variable (O : ObjectHashes) (gameUnitGetObject : UnitHandle → UnitPtr) (g : UnitGroup)

/-- `sendAction`, as a call of the machine, where the switch over the type has a case. -/
def sendAction (args : ActionArgs) (flagReduceAPM sendAsProgramm : Bool) : Option PacketCall :=
  (args.packet O).map fun a =>
    .sendAction g.size (g.fillUnitObjectSet gameUnitGetObject) a flagReduceAPM sendAsProgramm

def sendActionDropItem (actionFlag : ℕ) (targetX targetY : Coord) (targetUnit : Option UnitHandle)
    (dropItemHandle : ItemHandle) (flagReduceAPM sendAsProgramm : Bool) : PacketCall :=
  .sendAction g.size (g.fillUnitObjectSet gameUnitGetObject)
    (dropItemPacket O actionFlag targetX targetY targetUnit dropItemHandle) flagReduceAPM
    sendAsProgramm

end UnitGroup

/-! ## The history of the calls -/

/-- What was transmitted for a call. -/
structure Delivery where
  own : ActionPacket
  transmitted : Packet
  sent : Bool
  deriving DecidableEq

structure Payload where
  /-- The packets of the calls whose packet has not been transmitted, the call begun last first. -/
  own : List ActionPacket
  /-- The packets of all calls on groups that are not empty, in the order of the calls. -/
  calls : List ActionPacket
  deliveries : List Delivery
  deriving DecidableEq

/-- The packet of a call on a group that is not empty. -/
def PacketCall.ownPacket (σ : PacketCore) : PacketCall → Option ActionPacket
  | .sendAction (_ + 1) _ a _ _ => if (σ.buffers.fill a).isSome then some a else none
  | _ => none

/-- The static packet that an instruction transmits. -/
def PacketInstr.transmitted : PacketInstr → Option (BufferKind × ℕ)
  | .transmit ⟨serial, .buffer k, _, _⟩ => some (k, serial)
  | _ => none

/-- The packet of a call is filled in. -/
def Payload.begin (h : Payload) (a : ActionPacket) : Payload :=
  { h with own := a :: h.own, calls := h.calls ++ [a] }

/-- The packet of the call begun last is transmitted. -/
def Payload.deliver (h : Payload) (p : Packet) (sent : Bool) : Payload :=
  match h.own with
  | [] => h
  | a :: own => { h with own := own, deliveries := h.deliveries ++ [⟨a, p, sent⟩] }

variable {G : Game}

/-- What the next step of the machine adds to the history. -/
def Payload.next (c : PacketMachine G) (h : Payload) : Payload :=
  match c.next with
  | some (.instr (.call p)) =>
    match p.ownPacket c.core with
    | some a => h.begin a
    | none => h
  | some (.instr (.instr i)) =>
    match i.transmitted with
    | some (k, serial) =>
      h.deliver (.action (c.core.buffers.get k)) (c.core.sizePacket serial != 0)
    | none => h
  | _ => h

/-- The machine with the history of the calls. -/
abbrev PayloadMachine (G : Game) := PacketMachine G × Payload

def PayloadMachine.step (beh : ℕ → List (UserOp PacketCall)) (c : PayloadMachine G) :
    PayloadMachine G :=
  (c.1.step beh, c.2.next c.1)

def payloadRun (G : Game) (main : List (UserOp PacketCall)) (beh : ℕ → List (UserOp PacketCall))
    (n : ℕ) : PayloadMachine G :=
  (PayloadMachine.step beh)^[n] (packetRun G main beh 0, ⟨[], [], []⟩)

/-- The history does not change the run. -/
theorem payloadRun_fst (G : Game) (main : List (UserOp PacketCall))
    (beh : ℕ → List (UserOp PacketCall)) (n : ℕ) :
    (payloadRun G main beh n).1 = packetRun G main beh n := by
  induction n with
  | zero => rfl
  | succ n ih =>
    have hs : packetRun G main beh (n + 1) = PacketMachine.step beh (packetRun G main beh n) :=
      Run.succ ..
    rw [hs, ← ih, payloadRun, Run.succ]
    rfl

/-- The ids of the static packets still to be transmitted. -/
def PacketInstr.comingId : PacketInstr → Option ℕ
  | .send (.buffer k) _ _ => some (PacketPtr.buffer k).id
  | .transmit ⟨_, .buffer k, _, _⟩ => some (PacketPtr.buffer k).id
  | _ => none

def comingIds (k : List PacketInstr) : List ℕ := k.filterMap PacketInstr.comingId

/-- Every call on a group that is not empty has one action packet of its own kind, which has been
transmitted with the fields that the call computed, or is still to come. -/
structure PayloadOk (c : PayloadMachine G) : Prop where
  calls : (c.2.own ++ c.2.deliveries.map Delivery.own).Perm c.2.calls
  coming : comingIds c.1.pending = c.2.own.map ActionPacket.id
  fields : ∀ d ∈ c.2.deliveries, d.sent = true ∧ d.transmitted = .action d.own

/-- While the packet of a call waits, no call with another packet of its kind begins, and no listener
discards it. -/
def PayloadGuard (c : PayloadMachine G) : Prop :=
  match c.1.next with
  | some (.instr (.call .discardAction)) =>
    ∀ b ∈ c.1.core.eventData, ∀ i ∈ c.1.pending, ∀ t ∈ i.transmitted, t.2 ≠ b.data.packetSender
  | some (.instr (.call p)) =>
    ∀ a ∈ p.ownPacket c.1.core, ∀ b ∈ c.2.own, b.id = a.id → b = a
  | _ => True

instance (c : PayloadMachine G) : Decidable (PayloadGuard c) := by
  unfold PayloadGuard
  split <;> infer_instance

/-! ## The instructions that a step adds -/

/-- The instruction is neither a send of a static packet nor a transmission. -/
def PacketInstr.quiet : PacketInstr → Bool
  | .send (.buffer _) _ _ | .transmit _ => false
  | _ => true

/-- What the packets in flight depend on is unchanged. -/
structure SameBuffers (σ τ : PacketCore) : Prop where
  buffers : τ.buffers = σ.buffers
  nextSender : τ.nextSender = σ.nextSender
  sizePacket : τ.sizePacket = σ.sizePacket

variable {σ τ : PacketCore} {h : Payload} {k l : List PacketInstr} {i : PacketInstr}

theorem comingId_of_quiet (hi : i.quiet = true) : i.comingId = none := by
  cases i with
  | send p b purpose =>
    cases p with
    | own p => rfl
    | buffer k => cases hi
  | transmit s => cases hi
  | _ => rfl

theorem comingIds_append (k l : List PacketInstr) :
    comingIds (k ++ l) = comingIds k ++ comingIds l :=
  List.filterMap_append ..

theorem comingIds_of_quiet (hl : l.all PacketInstr.quiet = true) : comingIds l = [] := by
  refine List.filterMap_eq_nil_iff.mpr fun i hi => ?_
  exact comingId_of_quiet (List.all_eq_true.mp hl i hi)

theorem subgroupSends_quiet (set : UnitSet) : (subgroupSends G set).all PacketInstr.quiet := by
  unfold subgroupSends
  split <;> rfl

theorem selectBack_quiet (σ : PacketCore) : (selectBack G σ).all PacketInstr.quiet := by
  simp only [selectBack, List.all_append, Bool.and_eq_true]
  refine ⟨?_, rfl⟩
  split_ifs
  · rfl
  · rw [List.all_append, subgroupSends_quiet]
    rfl

/-- The code of an action: its packet is sent between instructions that are quiet. -/
theorem justInTimeActionSend_split (G : Game) (useJIT : Bool) (set : UnitSet) (p : PacketPtr)
    (sendAsProgramm : Bool) (σ : PacketCore) :
    ∃ before after, (justInTimeActionSend G useJIT set p sendAsProgramm σ).1 =
        before ++ .send p sendAsProgramm (.jit set) :: after ∧
      before.all PacketInstr.quiet ∧ after.all PacketInstr.quiet := by
  simp only [justInTimeActionSend, List.append_assoc, List.cons_append, List.nil_append]
  refine ⟨_, _, rfl, ?_, ?_⟩
  · split_ifs
    · rfl
    · simp only [List.all_cons, List.all_append, subgroupSends_quiet]
      rfl
  · split_ifs <;> rfl

/-- Only a send adds instructions that are not quiet. -/
theorem exec_quiet (hi : ∀ p b purpose, i ≠ .send p b purpose) :
    (pendingIn (i.exec G σ).1).all PacketInstr.quiet = true ∧ SameBuffers σ (i.exec G σ).2 := by
  cases i with
  | send p b purpose => exact absurd rfl (hi p b purpose)
  | analyzeRest s =>
    rw [pendingIn_analyzeRest]
    refine ⟨?_, ⟨rfl, rfl, rfl⟩⟩
    split_ifs <;> rfl
  | eventDispatch s =>
    simp only [PacketInstr.exec]
    split <;> exact ⟨rfl, ⟨rfl, rfl, rfl⟩⟩
  | selectionSend set select =>
    refine ⟨?_, ⟨rfl, rfl, rfl⟩⟩
    simp only [PacketInstr.exec]
    split_ifs <;> rfl
  | selectBack =>
    refine ⟨?_, ⟨rfl, rfl, rfl⟩⟩
    simp only [PacketInstr.exec, pendingIn_instrs]
    exact selectBack_quiet σ
  | queue s =>
    simp only [PacketInstr.exec]
    exact ⟨rfl, ⟨rfl, rfl, rfl⟩⟩
  | _ => exact ⟨rfl, ⟨rfl, rfl, rfl⟩⟩

/-- A call without a packet of its own adds nothing but quiet instructions. -/
theorem PacketCall.exec_quiet {p : PacketCall} (hp : p.ownPacket σ = none) :
    (p.exec G σ).1.all PacketInstr.quiet = true ∧ SameBuffers σ (p.exec G σ).2 := by
  cases p with
  | justInTimeActionSend useJIT set a b =>
    obtain ⟨before, after, heq, hb, ha⟩ :=
      justInTimeActionSend_split G useJIT set (.own (.action a)) b σ
    refine ⟨?_, ⟨rfl, rfl, rfl⟩⟩
    simp only [exec, heq, List.all_append, List.all_cons, hb, ha]
    rfl
  | sendAction size set a flagReduceAPM b =>
    cases size with
    | zero => exact ⟨rfl, ⟨rfl, rfl, rfl⟩⟩
    | succ n =>
      cases hf : σ.buffers.fill a with
      | none =>
        simp only [exec, hf]
        exact ⟨rfl, ⟨rfl, rfl, rfl⟩⟩
      | some q =>
        simp [ownPacket, hf] at hp
  | selectBackTimer below =>
    refine ⟨?_, ⟨rfl, rfl, rfl⟩⟩
    simp only [exec]
    split_ifs <;> rfl
  | _ => exact ⟨rfl, ⟨rfl, rfl, rfl⟩⟩

/-- What the analysis of a packet does to the packets in flight: at most its own is given up, and
only one that the player has sent to change the selection. -/
theorem detourPacketAnalyze_sizes (s : Sender) (σ : PacketCore) :
    (detourPacketAnalyze s σ).2.buffers = σ.buffers ∧
      (detourPacketAnalyze s σ).2.nextSender = σ.nextSender ∧
      ∀ n, (detourPacketAnalyze s σ).2.sizePacket n = σ.sizePacket n ∨
        (n = s.serial ∧ s.packet.id ∈ destroyIds) := by
  simp only [detourPacketAnalyze, packetAnalyze]
  split_ifs
  all_goals refine ⟨rfl, rfl, fun n => ?_⟩
  all_goals first
    | exact .inl rfl
    | exact (em (n = s.serial)).symm.imp (fun hn => Function.update_of_ne hn _ _)
        fun hn => ⟨hn, ‹_›⟩

/-! ## The packets in flight -/

/-- Filling in a packet changes the static packet of its kind only. -/
theorem ActionBuffers.get_fill {b b' : ActionBuffers} {a : ActionPacket} {kind : BufferKind}
    (hf : b.fill a = some (kind, b')) :
    b'.get kind = a ∧ (PacketPtr.buffer kind).id = a.id ∧
      ∀ kind', kind' ≠ kind → b'.get kind' = b.get kind' := by
  cases a <;> simp only [fill, Option.some.injEq, Prod.mk.injEq, reduceCtorEq] at hf
  all_goals
    obtain ⟨rfl, rfl⟩ := hf
    refine ⟨rfl, rfl, fun kind' hne => ?_⟩
    cases kind' <;> first | rfl | exact absurd rfl hne

theorem ActionBuffers.id_get (b : ActionBuffers) (kind : BufferKind) :
    (b.get kind).id = (PacketPtr.buffer kind).id := by
  cases kind <;> rfl

theorem bufferId_injective {kind kind' : BufferKind}
    (h : (PacketPtr.buffer kind).id = (PacketPtr.buffer kind').id) : kind = kind' := by
  cases kind <;> cases kind' <;> first | rfl | cases h

/-- The calls, the static packets and the packets still to come agree. -/
structure InFlight (k : List PacketInstr) (σ : PacketCore) (h : Payload) : Prop where
  coming : comingIds k = h.own.map ActionPacket.id
  held : ∀ a ∈ h.own, ∃ kind, σ.buffers.get kind = a
  serial : ∀ s, .transmit s ∈ k → s.serial < σ.nextSender ∧
    ∀ kind, s.packet = .buffer kind → σ.sizePacket s.serial ≠ 0
  calls : (h.own ++ h.deliveries.map Delivery.own).Perm h.calls
  fields : ∀ d ∈ h.deliveries, d.sent = true ∧ d.transmitted = .action d.own

namespace InFlight

/-- Quiet instructions are added and nothing else changes. -/
theorem append_quiet (hk : InFlight k σ h) (hl : l.all PacketInstr.quiet = true)
    (hs : SameBuffers σ τ) : InFlight (l ++ k) τ h where
  coming := by rw [comingIds_append, comingIds_of_quiet hl, List.nil_append, hk.coming]
  held := by rw [hs.buffers]; exact hk.held
  serial := by
    intro s hm
    rw [hs.nextSender, hs.sizePacket]
    rcases List.mem_append.mp hm with hm | hm
    · cases List.all_eq_true.mp hl _ hm
    · exact hk.serial s hm
  calls := hk.calls
  fields := hk.fields

/-- An instruction that transmits no static packet has run. -/
theorem tail (hk : InFlight (i :: k) σ h) (hi : i.comingId = none) : InFlight k σ h where
  coming := by
    have hc := hk.coming
    rwa [comingIds, List.filterMap_cons_none hi] at hc
  held := hk.held
  serial := fun s hm => hk.serial s (List.mem_cons_of_mem _ hm)
  calls := hk.calls
  fields := hk.fields

/-- A send begins. -/
theorem send {p : PacketPtr} {b : Bool} {purpose : Purpose}
    (hk : InFlight (.send p b purpose :: k) σ h) :
    InFlight (pendingIn ((PacketInstr.send p b purpose).exec G σ).1 ++ k)
      ((PacketInstr.send p b purpose).exec G σ).2 h := by
  obtain ⟨hbuf, hnext, hsize⟩ :=
    detourPacketAnalyze_sizes (σ.sender p b purpose) (σ.beginSend p b)
  have hcode := detourPacketAnalyze_code (σ.sender p b purpose) (σ.beginSend p b)
  simp only [PacketInstr.exec, pendingIn_instrs]
  generalize (detourPacketAnalyze (σ.sender p b purpose) (σ.beginSend p b)).1 = code at hcode ⊢
  generalize (detourPacketAnalyze (σ.sender p b purpose) (σ.beginSend p b)).2 = τ at hbuf hnext hsize ⊢
  have hquiet : code.all PacketInstr.quiet = true := by
    refine List.all_eq_true.mpr fun i hi => ?_
    rcases hcode i hi with rfl | rfl | rfl <;> rfl
  have hend : (if b then [PacketInstr.programmEnd] else []).all PacketInstr.quiet = true := by
    cases b <;> rfl
  refine ⟨?_, ?_, fun s hm => ?_, hk.calls, hk.fields⟩
  · rw [← hk.coming, comingIds_append, comingIds_append, comingIds_append, comingIds_of_quiet hquiet,
      comingIds_of_quiet hend]
    cases p <;> rfl
  · rw [hbuf]
    exact hk.held
  · rw [hnext]
    simp only [List.mem_append, List.mem_singleton] at hm
    rcases hm with ((hm | hm) | hm) | hm
    · cases List.all_eq_true.mp hquiet _ hm
    · obtain rfl := PacketInstr.transmit.inj hm
      refine ⟨Nat.lt_succ_self _, fun kind hp => ?_⟩
      -- the size is that of an action packet, which the analysis does not give up
      rcases hsize σ.nextSender with hs | ⟨-, hid⟩
      · show τ.sizePacket σ.nextSender ≠ 0
        rw [hs]
        show Function.update σ.sizePacket σ.nextSender _ σ.nextSender ≠ 0
        rw [Function.update_self]
        obtain rfl : p = .buffer kind := hp
        cases kind <;> exact Nat.succ_ne_zero _
      · obtain rfl : p = .buffer kind := hp
        have hne : (PacketPtr.buffer kind).id ∉ destroyIds := by cases kind <;> decide
        exact absurd hid hne
    · cases List.all_eq_true.mp hend _ hm
    · obtain ⟨hlt, hpos⟩ := hk.serial s (List.mem_cons_of_mem _ hm)
      refine ⟨Nat.lt_succ_of_lt hlt, fun kind hp => ?_⟩
      rcases hsize s.serial with hs | ⟨hs, -⟩
      · rw [hs]
        show Function.update σ.sizePacket σ.nextSender _ s.serial ≠ 0
        rw [Function.update_of_ne hlt.ne]
        exact hpos kind hp
      · exact absurd hs hlt.ne

/-- The packet of a call is transmitted, as the call has computed it. -/
theorem transmit {s : Sender} {kind : BufferKind} (hp : s.packet = .buffer kind)
    (hk : InFlight (.transmit s :: k) σ h) :
    InFlight k ((PacketInstr.transmit s).exec G σ).2
      (h.deliver (.action (σ.buffers.get kind)) (σ.sizePacket s.serial != 0)) := by
  have hid : (PacketInstr.transmit s).comingId = some (PacketPtr.buffer kind).id := by
    obtain ⟨serial, packet, b, purpose⟩ := s
    obtain rfl : packet = .buffer kind := hp
    rfl
  have hcoming := hk.coming
  rw [comingIds, List.filterMap_cons_some hid] at hcoming
  cases hown : h.own with
  | nil =>
    rw [hown] at hcoming
    cases hcoming
  | cons a own =>
    rw [hown] at hcoming
    obtain ⟨hida, hrest⟩ := List.cons.inj hcoming
    have hget : σ.buffers.get kind = a := by
      obtain ⟨kind', hget⟩ := hk.held a (hown ▸ List.mem_cons_self)
      rw [← hget, ActionBuffers.id_get] at hida
      rw [bufferId_injective hida, hget]
    have hsent : (σ.sizePacket s.serial != 0) = true :=
      bne_iff_ne.mpr ((hk.serial s List.mem_cons_self).2 kind hp)
    have hdeliver : h.deliver (.action (σ.buffers.get kind)) (σ.sizePacket s.serial != 0) =
        { h with own := own, deliveries := h.deliveries ++ [⟨a, .action a, true⟩] } := by
      rw [Payload.deliver, hown, hget, hsent]
    rw [hdeliver]
    refine ⟨hrest, fun b hb => hk.held b (hown ▸ List.mem_cons_of_mem _ hb), ?_, ?_, ?_⟩
    · exact fun s' hm => hk.serial s' (List.mem_cons_of_mem _ hm)
    · rw [List.map_append, List.map_singleton, ← List.append_assoc]
      refine (List.perm_append_singleton a _).trans ?_
      have hcalls := hk.calls
      rwa [hown] at hcalls
    · intro d hd
      rcases List.mem_append.mp hd with hold | hnew
      · exact hk.fields d hold
      · rw [List.mem_singleton.mp hnew]
        exact ⟨rfl, rfl⟩

/-- A call begins while no call with another packet of its kind waits. -/
theorem begin {p : PacketCall} {a : ActionPacket} (hp : p.ownPacket σ = some a)
    (hguard : ∀ b ∈ h.own, b.id = a.id → b = a) (hk : InFlight k σ h) :
    InFlight ((p.exec G σ).1 ++ k) (p.exec G σ).2 (h.begin a) := by
  cases p with
  | sendAction size set a' flagReduceAPM b =>
    cases size with
    | zero => cases hp
    | succ n =>
      cases hf : σ.buffers.fill a' with
      | none => simp [PacketCall.ownPacket, hf] at hp
      | some q =>
        obtain ⟨kind, buffers⟩ := q
        obtain rfl : a' = a := by simpa [PacketCall.ownPacket, hf] using hp
        obtain ⟨hget, hid, hother⟩ := ActionBuffers.get_fill hf
        simp only [PacketCall.exec, hf]
        obtain ⟨before, after, heq, hb, ha⟩ := justInTimeActionSend_split G flagReduceAPM set
          (.buffer kind) b { σ with buffers := buffers }
        rw [heq]
        refine ⟨?_, fun d hd => ?_, fun s hm => ?_, ?_, hk.fields⟩
        · rw [comingIds_append, comingIds_append, comingIds_of_quiet hb, hk.coming]
          have hsend : comingIds (.send (.buffer kind) b (.jit set) :: after) = [a'.id] := by
            have hsplit : comingIds (.send (.buffer kind) b (.jit set) :: after) =
                (PacketPtr.buffer kind).id :: comingIds after := rfl
            rw [hsplit, hid, comingIds_of_quiet ha]
          rw [hsend]
          rfl
        · show ∃ kind', buffers.get kind' = d
          rcases List.mem_cons.mp hd with rfl | hd
          · exact ⟨kind, hget⟩
          · obtain ⟨kind', hold⟩ := hk.held d hd
            by_cases hkind : kind' = kind
            · refine ⟨kind, hget.trans (hguard d hd ?_).symm⟩
              rw [← hold, ActionBuffers.id_get, hkind, hid]
            · exact ⟨kind', (hother kind' hkind).trans hold⟩
        · simp only [List.mem_append, List.mem_cons] at hm
          rcases hm with (hm | hm | hm) | hm
          · cases List.all_eq_true.mp hb _ hm
          · cases hm
          · cases List.all_eq_true.mp ha _ hm
          · exact hk.serial s hm
        · show ((a' :: h.own) ++ h.deliveries.map Delivery.own).Perm (h.calls ++ [a'])
          exact (hk.calls.cons a').trans (List.perm_append_singleton a' _).symm
  | _ => cases hp

/-- A listener discards a packet that is not one in flight. -/
theorem discard {serial : ℕ} (hk : InFlight k σ h)
    (hguard : ∀ i ∈ k, ∀ t ∈ i.transmitted, t.2 ≠ serial) :
    InFlight k (σ.senderDestroy serial) h where
  coming := hk.coming
  held := hk.held
  serial := by
    intro s hm
    obtain ⟨hlt, hpos⟩ := hk.serial s hm
    refine ⟨hlt, fun kind hp => ?_⟩
    have hne : s.serial ≠ serial := by
      refine hguard _ hm (kind, s.serial) ?_
      obtain ⟨n, packet, b, purpose⟩ := s
      obtain rfl : packet = .buffer kind := hp
      rfl
    show Function.update σ.sizePacket serial 0 s.serial ≠ 0
    rw [Function.update_of_ne hne]
    exact hpos kind hp
  calls := hk.calls
  fields := hk.fields

end InFlight

/-! ## The run -/

/-- A guarded step keeps the packets in flight. -/
theorem inFlight_step {beh : ℕ → List (UserOp PacketCall)} {c : PayloadMachine G}
    (hk : InFlight c.1.pending c.1.core c.2) (hg : PayloadGuard c) :
    InFlight (c.step beh).1.pending (c.step beh).1.core (c.step beh).2 := by
  obtain ⟨m, h⟩ := c
  show InFlight (m.step beh).pending (m.step beh).core (h.next m)
  rcases m.pending_cases beh with ⟨i, k, hn, hpend, hp, hs⟩ | ⟨p, hn, hp, hs⟩ |
    ⟨b, hn, hb, hp, hs⟩ | ⟨hn, hp, hs⟩
  · have hnext : h.next m = match i.transmitted with
        | some (kind, serial) =>
          h.deliver (.action (m.core.buffers.get kind)) (m.core.sizePacket serial != 0)
        | none => h := by rw [Payload.next, hn]
    rw [hp, hs, hnext]
    rw [show (m, h).1.pending = i :: k from hpend] at hk
    cases i with
    | send p b purpose => exact hk.send
    | transmit s =>
      obtain ⟨serial, packet, b, purpose⟩ := s
      cases packet with
      | own p =>
        exact (hk.tail rfl).append_quiet (exec_quiet fun _ _ _ => PacketInstr.noConfusion).1
          (exec_quiet fun _ _ _ => PacketInstr.noConfusion).2
      | buffer kind => exact hk.transmit rfl
    | _ =>
      exact (hk.tail rfl).append_quiet (exec_quiet fun _ _ _ => PacketInstr.noConfusion).1
        (exec_quiet fun _ _ _ => PacketInstr.noConfusion).2
  · rw [hp, hs]
    cases hown : p.ownPacket m.core with
    | none =>
      have hnext : h.next m = h := by simp only [Payload.next, hn, hown]
      rw [hnext]
      exact hk.append_quiet (PacketCall.exec_quiet hown).1 (PacketCall.exec_quiet hown).2
    | some a =>
      have hnext : h.next m = h.begin a := by simp only [Payload.next, hn, hown]
      have hguard : ∀ b ∈ h.own, b.id = a.id → b = a := by
        cases p with
        | sendAction size set a' flagReduceAPM b =>
          simp only [PayloadGuard, hn] at hg
          exact hg a hown
        | _ => cases hown
      rw [hnext]
      exact hk.begin hown hguard
  · have hnext : h.next m = h := by simp only [Payload.next, hn, PacketCall.ownPacket]
    rw [hp, hs, hnext]
    refine hk.discard ?_
    simp only [PayloadGuard, hn] at hg
    exact hg b hb
  · have hnext : h.next m = h := by
      unfold Payload.next
      split
      · exact absurd ‹_› (hn _)
      · exact absurd ‹_› (hn _)
      · rfl
    rw [hp, hs, hnext]
    exact hk

theorem InFlight.payloadOk {c : PayloadMachine G} (hk : InFlight c.1.pending c.1.core c.2) :
    PayloadOk c :=
  ⟨hk.calls, hk.coming, hk.fields⟩

/-- **The packets of nested actions.** In a run in which no action begins while the packet of
another one of its kind with other fields waits, and no listener discards a waiting packet, every
call on a group that is not empty transmits one action packet of its own kind, with the fields that
it has computed. -/
theorem payloadOk_run (G : Game) (main : List (UserOp PacketCall))
    (beh : ℕ → List (UserOp PacketCall)) (hok : ∀ n, PayloadGuard (payloadRun G main beh n))
    (n : ℕ) : PayloadOk (payloadRun G main beh n) := by
  refine InFlight.payloadOk (Run.guarded (I := fun c : PayloadMachine G =>
    InFlight c.1.pending c.1.core c.2) (Q := PayloadGuard) (fun c hk hq => inFlight_step hk hq) ?_
    hok n)
  have hnone : (packetRun G main beh 0).pending = [] := pendingIn_lift main
  refine ⟨by rw [hnone]; rfl, fun a ha => absurd ha List.not_mem_nil, fun s hm => ?_,
    List.Perm.refl _, fun d hd => absurd hd List.not_mem_nil⟩
  rw [hnone] at hm
  exact absurd hm List.not_mem_nil

/-- When the program has ended, every call has transmitted its packet. -/
theorem PayloadOk.ended {c : PayloadMachine G} (h : PayloadOk c) (hend : c.1.pending = []) :
    (c.2.deliveries.map Delivery.own).Perm c.2.calls := by
  have hcoming := h.coming
  rw [hend] at hcoming
  have hown : c.2.own = [] := List.map_eq_nil_iff.mp hcoming.symm
  have hcalls := h.calls
  rwa [hown] at hcalls

/-! ## Two runs with nested actions -/

/-- Once the program has ended, nothing changes any more. -/
theorem payloadRun_ended {Q : PayloadMachine G → Prop} {main : List (UserOp PacketCall)}
    {beh : ℕ → List (UserOp PacketCall)} {N : ℕ}
    (hend : ((packetRun G main beh N).next.isNone && (packetRun G main beh N).infos.isEmpty) = true)
    (hQ : ∀ m < N + 1, Q (payloadRun G main beh m)) (n : ℕ) : Q (payloadRun G main beh n) := by
  obtain ⟨hn, hi⟩ := Bool.and_eq_true_iff.mp hend
  have hnone : (packetRun G main beh N).next = none := Option.isNone_iff_eq_none.mp hn
  have hstop : (payloadRun G main beh N).step beh = payloadRun G main beh N := by
    have hfst := payloadRun_fst G main beh N
    refine Prod.ext ?_ ?_
    · show PacketMachine.step beh (payloadRun G main beh N).1 = (payloadRun G main beh N).1
      rw [hfst]
      exact Reentrant.Lang.step_halt _ _ hnone (List.isEmpty_iff.mp hi)
    · show (payloadRun G main beh N).2.next (payloadRun G main beh N).1 = (payloadRun G main beh N).2
      rw [hfst, Payload.next, hnone]
  exact Run.of_stopped (Q := Q) hstop hQ n

/-- An action without a target, for one unit. -/
def plainOrder (set : UnitSet) (actionId : ℕ) : PacketCall :=
  .sendAction 1 set (.action ⟨0, actionId, emptyHash⟩) true true

/-- Order 11, with a listener of `EVENT_PACKET`. -/
def orderMain (set : UnitSet) : List (UserOp PacketCall) :=
  [.listen 1009 7, .call (plainOrder set 11)]

/-- The first event is answered with order 22, of the same kind. -/
def sameKindListeners (k : ℕ) : List (UserOp PacketCall) :=
  if k = 0 then [.call (plainOrder ((∅ : UnitSet).insert 1) 22)] else []

/-- The first event is answered with order 22, at a point. -/
def otherKindListeners (k : ℕ) : List (UserOp PacketCall) :=
  if k = 0 then [.call (.sendAction 1 ∅ (.actionPoint ⟨0, 22, emptyHash⟩ 3 4) true true)] else []

/-- An order of another kind nested in the first one meets the guard. -/
theorem payloadOk_run_otherKind :
    PayloadOk (payloadRun plainGame (orderMain ∅) otherKindListeners 27) :=
  payloadOk_run plainGame (orderMain ∅) otherKindListeners
    (payloadRun_ended (N := 27) (by decide +kernel) (by decide +kernel)) 27

/-- An order of the same kind is nested in the selection that the first one sends, and order 22 is
transmitted for both. -/
theorem payload_overwritten :
    (¬ ∀ n, PayloadOk (payloadRun plainGame (orderMain ((∅ : UnitSet).insert 1))
      sameKindListeners n)) ∧
    (payloadRun plainGame (orderMain ((∅ : UnitSet).insert 1)) sameKindListeners 80).2.deliveries =
      [⟨.action ⟨0, 22, emptyHash⟩, .action (.action ⟨0, 22, emptyHash⟩), true⟩,
        ⟨.action ⟨0, 11, emptyHash⟩, .action (.action ⟨0, 22, emptyHash⟩), true⟩] := by
  have hr : (payloadRun plainGame (orderMain ((∅ : UnitSet).insert 1)) sameKindListeners
      80).2.deliveries =
      [⟨.action ⟨0, 22, emptyHash⟩, .action (.action ⟨0, 22, emptyHash⟩), true⟩,
        ⟨.action ⟨0, 11, emptyHash⟩, .action (.action ⟨0, 22, emptyHash⟩), true⟩] := by
    decide +kernel
  refine ⟨fun h => ?_, hr⟩
  have hd := ((h 80).fields ⟨.action ⟨0, 11, emptyHash⟩, .action (.action ⟨0, 22, emptyHash⟩), true⟩
    (by rw [hr]; exact List.mem_of_getElem? (i := 1) rfl)).2
  exact absurd hd (by decide)

end DreamDota
