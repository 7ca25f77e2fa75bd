import DreamDota.Packet.Send

/-!
# Just-in-time selection

Between operations the selection that the transmitted packets have produced is the just-in-time
selection while processing, and the player's own otherwise (`Consistent`). Every operation leads
from such a state to such a state, and transmits its action while the right units are selected, if
`PacketJustInTimeActionSend` is not used without `sendAsProgramm` for other units than the player's.
Its packet then is taken for the player's own, `PacketAnalyze` selects the player's units back, and
they get the order.

1. `ends_selectBack`, `ends_justInTimeActionSend`: the program's operations.
2. `ends_playerAction`, `ends_playerSelection`, …: the player's.
3. `PacketCall.settles`: every operation, by cases.
4. `selectionOk_run`: the whole run.
-/

namespace DreamDota

open Expand

variable {G : Game} {σ : PacketCore} {sel : SelectionState}

/-- The selections agree, between operations. -/
structure SelectionState.Consistent (G : Game) (s : SelectionState) : Prop where
  groups : ∀ n, s.wireGroups n = (s.uiGroups n).image G.hash
  processing : s.processing = true → s.wire = s.justInTimeSelection.image G.hash
  idle : s.processing = false → s.justInTimeSelection = ∅ ∧ s.wire = s.ui.image G.hash

/-- An operation has ended well. -/
structure Settled (G : Game) (σ τ : PacketCore) : Prop extends Later σ τ where
  consistent : τ.selection.Consistent G
  flag : τ.actionSentByScript = false

theorem After.settled {τ : PacketCore} (h : After σ sel τ) (hc : sel.Consistent G) :
    Settled G σ τ :=
  ⟨h.toLater, h.selection.symm ▸ hc, h.flag⟩

/-! ## Unit sets -/

theorem sameElements_iff {l m : List UnitPtr} (h : l.length = m.length) :
    sameElements l m = true ↔ l = m := by
  induction l generalizing m with
  | nil =>
    obtain rfl := List.length_eq_zero_iff.mp h.symm
    exact ⟨fun _ => rfl, fun _ => rfl⟩
  | cons a l ih =>
    cases m with
    | nil => cases h
    | cons b m =>
      rw [sameElements, Bool.and_eq_true, beq_iff_eq, ih (Nat.succ.inj h), List.cons.injEq]

/-- `UnitSetCheckIdent` decides equality. -/
theorem unitSetCheckIdent_iff {s t : UnitSet} : unitSetCheckIdent s t = true ↔ s = t := by
  rw [unitSetCheckIdent, Bool.and_eq_true, beq_iff_eq, ← OrdSet.toList_inj]
  constructor
  · rintro ⟨hlen, hsame⟩
    exact (sameElements_iff hlen).mp hsame
  · intro h
    exact ⟨congrArg List.length h, (sameElements_iff (congrArg List.length h)).mpr h⟩

/-! ## What the packets do -/

/-- The selection that a selection packet of a set produces. -/
def SelectionState.picked (G : Game) (s : SelectionState) (set : UnitSet) (select : Bool) :
    SelectionState :=
  { s with wire := if select then s.wire ∪ set.image G.hash else s.wire \ set.image G.hash }

theorem receive_selectionPacket (s : SelectionState) (set : UnitSet) (select : Bool) :
    s.receive (selectionPacket G set select) = s.picked G set select := by
  cases select <;> rfl

theorem picked_empty (s : SelectionState) {set : UnitSet} (h : set.toList = []) (select : Bool) :
    s.picked G set select = s := by
  have himage : set.image G.hash = ∅ := by rw [OrdSet.image, h]; rfl
  cases select
  · simp [SelectionState.picked, himage]
  · simp [SelectionState.picked, himage]

/-- The actions do not change the selection. -/
theorem receive_action {p : Packet} (h : p.id ∈ selectBackIds) (s : SelectionState) :
    s.receive p = s := by
  have h16 : (0x16 : ℕ) ∉ selectBackIds := by decide
  have h17 : (0x17 : ℕ) ∉ selectBackIds := by decide
  have h18 : (0x18 : ℕ) ∉ selectBackIds := by decide
  cases p with
  | selection mode => exact absurd h h16
  | controlGroupAssign => exact absurd h h17
  | controlGroupSelect => exact absurd h h18
  | _ => rfl

/-! ## The program's operations -/

theorem ends_selectionSend (set : UnitSet) (select : Bool) (hT : TransmissionsOk G σ)
    (hflag : σ.actionSentByScript = false) :
    EndsIn G (After σ (σ.selection.picked G set select)) [.selectionSend set select] σ := by
  refine Ends.expand hT ?_
  simp only [runInstr, PacketInstr.exec]
  by_cases hset : set.toList = []
  · rw [if_pos hset, picked_empty _ hset]
    exact .nil hT (.refl hflag)
  · rw [if_neg hset, pendingIn_instrs]
    exact ends_send hT hflag (.inl rfl) (fun _ => trivial) fun _ => receive_selectionPacket ..

/-- The packets 0x1A and 0x19 of the program. -/
theorem ends_subgroupSends (set : UnitSet) (hT : TransmissionsOk G σ)
    (hflag : σ.actionSentByScript = false) :
    EndsIn G (After σ σ.selection) (subgroupSends G set) σ := by
  unfold subgroupSends
  split
  · exact .nil hT (.refl hflag)
  · rename_i u _ _
    have hsend : ∀ (q : Packet) (τ : PacketCore), TransmissionsOk G τ →
        τ.actionSentByScript = false → τ.selection.receive q = τ.selection →
        EndsIn G (After τ τ.selection) [.send (.own q) true .internal] τ :=
      fun q τ hτ hf hq => ends_send hτ hf (.inl rfl) (fun _ => trivial) fun _ => hq
    refine After.append (hsend .preSubSelection σ hT hflag rfl) fun τ hτ h => ?_
    rw [← h.selection]
    exact hsend (.subgroup (G.typeId u) (G.hash u)) τ hτ h.flag rfl

/-- The selection is exchanged. -/
theorem ends_reselect (fromSet toSet subgroup : UnitSet) (hT : TransmissionsOk G σ)
    (hflag : σ.actionSentByScript = false) :
    EndsIn G (After σ ((σ.selection.picked G fromSet false).picked G toSet true))
      ([.selectionSend fromSet false, .selectionSend toSet true] ++ subgroupSends G subgroup)
      σ := by
  refine After.append (l := [.selectionSend fromSet false])
    (ends_selectionSend fromSet false hT hflag) fun τ hτ h => ?_
  refine After.append (l := [.selectionSend toSet true])
    (ends_selectionSend toSet true hτ h.flag) fun υ hυ h' => ?_
  rw [← h.selection, ← h'.selection]
  exact ends_subgroupSends subgroup hυ h'.flag

/-- What a select-back leaves. -/
def SelectionState.back (G : Game) (s : SelectionState) : SelectionState :=
  { s with processing := false, justInTimeSelection := ∅, wire := s.ui.image G.hash }

theorem ends_selectBack (hT : TransmissionsOk G σ) (hflag : σ.actionSentByScript = false)
    (hW : σ.selection.wire = σ.selection.justInTimeSelection.image G.hash ∨
      (σ.selection.justInTimeSelection = ∅ ∧ σ.selection.wire = σ.selection.ui.image G.hash)) :
    EndsIn G (After σ (σ.selection.back G)) [.selectBack] σ := by
  refine Ends.expand hT ?_
  simp only [runInstr, PacketInstr.exec, pendingIn_instrs, selectBack]
  -- the code before the clear makes the player's selection the wire's
  have hcode : EndsIn G
      (After σ { σ.selection with wire := σ.selection.ui.image G.hash })
      (if unitSetCheckIdent σ.selection.justInTimeSelection σ.selection.ui then []
        else
          [.selectionSend σ.selection.justInTimeSelection false,
            .selectionSend σ.selection.ui true] ++
            subgroupSends G σ.selection.activeSubgroup) σ := by
    split_ifs with hid
    · have hwire : σ.selection.wire = σ.selection.ui.image G.hash := by
        rcases hW with h | h
        · rw [h, unitSetCheckIdent_iff.mp hid]
        · exact h.2
      rw [← hwire]
      exact .nil hT (.refl hflag)
    · have hwire : σ.selection.wire \ σ.selection.justInTimeSelection.image G.hash ∪
          σ.selection.ui.image G.hash = σ.selection.ui.image G.hash := by
        rcases hW with h | ⟨hJ, h⟩
        · rw [h, Finset.sdiff_self, Finset.empty_union]
        · rw [hJ, h, OrdSet.image_empty, Finset.sdiff_empty, Finset.union_self]
      have h := ends_reselect σ.selection.justInTimeSelection σ.selection.ui
        σ.selection.activeSubgroup hT hflag
      have hsel : (σ.selection.picked G σ.selection.justInTimeSelection false).picked G
          σ.selection.ui true = { σ.selection with wire := σ.selection.ui.image G.hash } := by
        simp [SelectionState.picked, hwire]
      rwa [hsel] at h
  refine After.append hcode fun τ hτ h => ?_
  have hclear := ends_clear hτ h.flag
  rwa [h.selection] at hclear

/-- A select-back that is due, or that has nothing to do. -/
theorem SelectionState.Consistent.wire_cases {s : SelectionState} (h : s.Consistent G) :
    s.wire = s.justInTimeSelection.image G.hash ∨
      (s.justInTimeSelection = ∅ ∧ s.wire = s.ui.image G.hash) := by
  cases hp : s.processing with
  | true => exact .inl (h.processing hp)
  | false => exact .inr (h.idle hp)

theorem back_consistent {s : SelectionState} (h : s.Consistent G) : (s.back G).Consistent G :=
  ⟨h.groups, fun hp => absurd hp (by simp [SelectionState.back]), fun _ => ⟨rfl, rfl⟩⟩

/-- An action that is taken for the player's own while processing is transmitted with the player's
units selected. -/
theorem settles_selectBackSend {p : PacketPtr} {purpose : Purpose} (hid : p.id ∈ selectBackIds)
    (hok : ∀ buffers, Transmission.Ok G
      ⟨p.deref buffers, purpose, true, σ.selection.ui.image G.hash, σ.selection.ui⟩)
    (hT : TransmissionsOk G σ) (hflag : σ.actionSentByScript = false)
    (hc : σ.selection.Consistent G) (hp : σ.selection.processing = true) :
    EndsIn G (Settled G σ) [.send p false purpose] σ := by
  have hrec : ∀ buffers, (σ.selection.back G).receive (p.deref buffers) = σ.selection.back G :=
    fun buffers => receive_action ((p.id_deref buffers).symm ▸ hid) _
  refine (ends_send_selectBack hT hflag hp hid (fun σ₁ h₁ hT₁ => ?_) hok hrec).mono
    fun _ _ h => h.settled (back_consistent hc)
  have hsel : σ₁.selection = σ.selection := h₁.selection
  have h := ends_selectBack (σ := σ₁) hT₁ (h₁.flag.trans (beginSend_flag hflag))
    (hsel ▸ hc.wire_cases)
  rwa [hsel] at h

/-- Step 1 of `PacketJustInTimeActionSend`. -/
theorem processBegin_consistent {s : SelectionState} (h : s.Consistent G) :
    s.processBegin.Consistent G ∧ s.processBegin.processing = true ∧
      s.processBegin.ui = s.ui := by
  unfold SelectionState.processBegin
  split_ifs with hp
  · exact ⟨h, hp, rfl⟩
  · obtain ⟨hJ, hwire⟩ := h.idle (Bool.not_eq_true _ ▸ hp)
    refine ⟨⟨h.groups, fun _ => ?_, fun hf => absurd hf (by simp)⟩, rfl, rfl⟩
    show s.wire = (s.justInTimeSelection.insertAll s.ui.toList).image G.hash
    rw [hJ, OrdSet.insertAll_empty, hwire]

/-- The just-in-time selection is made: its units are selected. -/
def SelectionState.chosen (G : Game) (s : SelectionState) (set : UnitSet) : SelectionState :=
  { s with wire := set.image G.hash, justInTimeSelection := set }

theorem chosen_consistent {s : SelectionState} (h : s.Consistent G) (hp : s.processing = true)
    (set : UnitSet) : (s.chosen G set).Consistent G :=
  ⟨h.groups, fun _ => rfl, fun hf => absurd (hp.symm.trans hf) (by decide)⟩

/-- Steps 2 and 3 of `PacketJustInTimeActionSend`. -/
theorem ends_choose (set : UnitSet) (hT : TransmissionsOk G σ)
    (hflag : σ.actionSentByScript = false) (hc : σ.selection.Consistent G)
    (hp : σ.selection.processing = true) :
    EndsIn G (After σ (σ.selection.chosen G set))
      (if unitSetCheckIdent σ.selection.justInTimeSelection set then []
        else
          [.selectionSend σ.selection.justInTimeSelection false, .selectionSend set true] ++
            subgroupSends G set ++ [.jitAssign set]) σ := by
  have hW := hc.processing hp
  split_ifs with hid
  · have hsel : σ.selection.chosen G set = σ.selection := by
      rw [SelectionState.chosen, ← unitSetCheckIdent_iff.mp hid, ← hW]
    rw [hsel]
    exact .nil hT (.refl hflag)
  · refine After.append (ends_reselect _ set set hT hflag) fun τ hτ h => ?_
    refine Ends.single hτ rfl hτ ⟨⟨le_rfl, fun _ _ => rfl, rfl⟩, ?_, h.flag⟩
    show { τ.selection with justInTimeSelection := set } = _
    rw [h.selection]
    simp [SelectionState.picked, SelectionState.chosen, hW]

theorem actionIds_subset : actionIds ⊆ selectBackIds := by decide

/-- Step 4, and the analysis of its packet: a packet that is not the program's is taken for the
player's own. -/
theorem ends_jitAction {p : PacketPtr} {b : Bool} {set : UnitSet} (hid : p.id ∈ actionIds)
    (hb : b = false → set = σ.selection.ui) (hT : TransmissionsOk G σ)
    (hflag : σ.actionSentByScript = false) (hc : σ.selection.Consistent G)
    (hp : σ.selection.processing = true) (hset : σ.selection.wire = set.image G.hash) :
    EndsIn G (Settled G σ) [.send p b (.jit set)] σ := by
  cases b with
  | true =>
    have hok : ∀ buffers, Transmission.Ok G
        ⟨p.deref buffers, .jit set, true, σ.selection.wire, σ.selection.ui⟩ :=
      fun _ => ⟨rfl, hset⟩
    have hrec : ∀ buffers, σ.selection.receive (p.deref buffers) = σ.selection :=
      fun buffers => receive_action ((p.id_deref buffers).symm ▸ actionIds_subset hid) _
    exact (ends_send hT hflag (.inl rfl) hok hrec).mono fun _ _ h => h.settled hc
  | false =>
    refine settles_selectBackSend (actionIds_subset hid) (fun _ => ?_) hT hflag hc hp
    rw [hb rfl]
    exact ⟨rfl, rfl⟩

/-- A piece of code, and then one that settles. -/
theorem Settled.append {Q : PacketCore → Prop} {k l : List PacketInstr} (h : EndsIn G Q l σ)
    (hlater : ∀ τ, Q τ → Later σ τ)
    (hk : ∀ τ, TransmissionsOk G τ → Q τ → EndsIn G (Settled G τ) k τ) :
    EndsIn G (Settled G σ) (l ++ k) σ :=
  h.append fun τ hT hτ => (hk τ hT hτ).mono fun _ _ h' =>
    ⟨(hlater τ hτ).trans h'.toLater, h'.consistent, h'.flag⟩

theorem settles_selectBack (hT : TransmissionsOk G σ) (hflag : σ.actionSentByScript = false)
    (hc : σ.selection.Consistent G) : EndsIn G (Settled G σ) [.selectBack] σ :=
  (ends_selectBack hT hflag hc.wire_cases).mono fun _ _ h => h.settled (back_consistent hc)

/-- `PacketJustInTimeActionSend`, with `sendAsProgramm` or for the player's units. -/
theorem settles_justInTimeActionSend {useJIT : Bool} {set : UnitSet} {p : PacketPtr} {b : Bool}
    (hid : p.id ∈ actionIds) (hb : b = false → set = σ.selection.ui) (hT : TransmissionsOk G σ)
    (hflag : σ.actionSentByScript = false) (hc : σ.selection.Consistent G) :
    EndsIn G (Settled G σ) (justInTimeActionSend G useJIT set p b σ).1
      (justInTimeActionSend G useJIT set p b σ).2 := by
  obtain ⟨hc₁, hp₁, hui⟩ := processBegin_consistent hc
  simp only [justInTimeActionSend]
  generalize hσ₁ : { σ with selection := σ.selection.processBegin } = σ₁
  have hlater : Later σ σ₁ := by rw [← hσ₁]; exact ⟨le_rfl, fun _ _ => rfl, rfl⟩
  have hsel : σ.selection.processBegin = σ₁.selection := by rw [← hσ₁]
  have hflag₁ : σ₁.actionSentByScript = false := by rw [← hσ₁]; exact hflag
  have hT₁ : TransmissionsOk G σ₁ := by rw [← hσ₁]; exact hT
  rw [hsel] at hc₁ hp₁ hui ⊢
  have hlast : ∀ τ, TransmissionsOk G τ → τ.actionSentByScript = false →
      τ.selection.Consistent G →
      EndsIn G (Settled G τ) (if useJIT then [] else [.selectBack]) τ := by
    intro τ hτ hf hcτ
    split_ifs
    · exact .nil hτ ⟨.refl τ, hcτ, hf⟩
    · exact settles_selectBack hτ hf hcτ
  have hsend : ∀ τ, TransmissionsOk G τ → After σ₁ (σ₁.selection.chosen G set) τ →
      EndsIn G (Settled G τ) [.send p b (.jit set)] τ := by
    intro τ hτ h
    refine ends_jitAction hid (fun hf => ?_) hτ h.flag ?_ ?_ ?_
    · rw [hb hf, h.selection, ← hui]
      rfl
    · rw [h.selection]
      exact chosen_consistent hc₁ hp₁ set
    · rw [h.selection]
      exact hp₁
    · rw [h.selection]
      rfl
  have hend : EndsIn G (Settled G σ₁) _ σ₁ := Settled.append
    (Settled.append (ends_choose set hT₁ hflag₁ hc₁ hp₁) (fun _ h => h.toLater) hsend)
    (fun _ h => h.toLater) fun τ hτ h => hlast τ hτ h.flag h.consistent
  exact hend.mono fun _ _ h => ⟨hlater.trans h.toLater, h.consistent, h.flag⟩

/-! ## The player's operations -/

section Player

variable {q : Packet}

/-- Nothing is asked of the player's other packets. -/
theorem transmission_ok_other (hid : q.id ∉ selectBackIds) (sent : Bool)
    (wire : Finset HashGroup) (ui : UnitSet) :
    Transmission.Ok G ⟨q, .player, sent, wire, ui⟩ :=
  fun h => absurd h hid

/-- An action of the player: the player's units are selected when it is transmitted. -/
theorem settles_playerAction (hid : q.id ∈ selectBackIds) (hT : TransmissionsOk G σ)
    (hflag : σ.actionSentByScript = false) (hc : σ.selection.Consistent G) :
    EndsIn G (Settled G σ) (gameSend q) σ := by
  cases hp : σ.selection.processing with
  | true =>
    exact settles_selectBackSend (p := .own q) hid (fun _ _ => ⟨rfl, rfl⟩) hT hflag hc hp
  | false =>
    have hok : ∀ buffers, Transmission.Ok G
        ⟨(PacketPtr.own q).deref buffers, .player, true, σ.selection.wire, σ.selection.ui⟩ :=
      fun _ _ => ⟨rfl, (hc.idle hp).2⟩
    exact (ends_send hT hflag (.inr (.inl hp)) hok fun _ => receive_action hid _).mono
      fun _ _ h => h.settled hc

/-- A selection packet of the player: it is not transmitted while processing. -/
theorem settles_playerSelection (hid : q.id ∈ destroyIds) (hT : TransmissionsOk G σ)
    (hflag : σ.actionSentByScript = false)
    (hheld : σ.selection.processing = true → σ.selection.Consistent G)
    (hsent : σ.selection.processing = false → (σ.selection.receive q).Consistent G) :
    EndsIn G (Settled G σ) (gameSend q) σ := by
  have hno : q.id ∉ selectBackIds := by
    generalize q.id = id at hid
    simp only [destroyIds, List.mem_cons, List.not_mem_nil, or_false] at hid
    rcases hid with rfl | rfl | rfl | rfl <;> decide
  cases hp : σ.selection.processing with
  | true =>
    exact (ends_send_destroyed (p := .own q) hT hflag hp hid fun _ =>
      transmission_ok_other hno _ _ _).mono fun _ _ h => h.settled (hheld hp)
  | false =>
    exact (ends_send (p := .own q) hT hflag (.inr (.inl hp))
      (fun _ => transmission_ok_other hno _ _ _) fun _ => rfl).mono
        fun _ _ h => h.settled (hsent hp)

/-- A packet that `PacketAnalyze` does not look for. -/
theorem settles_unwatched (hw : ¬ (PacketPtr.own q).Watched) (hT : TransmissionsOk G σ)
    (hflag : σ.actionSentByScript = false) (hc : (σ.selection.receive q).Consistent G) :
    EndsIn G (Settled G σ) (gameSend q) σ :=
  (ends_send (p := .own q) hT hflag (.inr (.inr hw))
    (fun _ => transmission_ok_other (fun h => hw (.inl h)) _ _ _) fun _ => rfl).mono
      fun _ _ h => h.settled hc

/-- The choice of a control group: the just-in-time selection is given up. -/
theorem settles_controlGroupSelect (n : ℕ) (hT : TransmissionsOk G σ)
    (hflag : σ.actionSentByScript = false)
    (hgroups : ∀ m, σ.selection.wireGroups m = (σ.selection.uiGroups m).image G.hash)
    (hui : σ.selection.ui = σ.selection.uiGroups n)
    (hJ : σ.selection.processing = false → σ.selection.justInTimeSelection = ∅) :
    EndsIn G (Settled G σ) (gameSend (.controlGroupSelect n)) σ := by
  have hno : (Packet.controlGroupSelect n).id ∉ selectBackIds := by
    show (0x18 : ℕ) ∉ selectBackIds
    decide
  have hwire : σ.selection.wireGroups n = σ.selection.ui.image G.hash := by rw [hgroups, hui]
  cases hp : σ.selection.processing with
  | true =>
    refine (ends_send_clear (p := .own (.controlGroupSelect n)) hT hflag hp rfl
      (fun _ => transmission_ok_other hno _ _ _) fun _ => rfl).mono fun _ _ h => h.settled ?_
    exact ⟨hgroups, fun h => absurd h (by simp), fun _ => ⟨rfl, hwire⟩⟩
  | false =>
    refine (ends_send (p := .own (.controlGroupSelect n)) hT hflag (.inr (.inl hp))
      (fun _ => transmission_ok_other hno _ _ _) fun _ => rfl).mono fun _ _ h => h.settled ?_
    refine ⟨hgroups, fun h => ?_, fun _ => ⟨hJ hp, hwire⟩⟩
    exact absurd (hp.symm.trans h) (by decide)

end Player

/-! ## Every operation -/

/-- The operations of the protocol: all of those that the program offers and the game performs,
except a packet sent past `PacketJustInTimeActionSend` and the discard of a packet. An action
without `sendAsProgramm` is for the units that the player has selected. -/
def PacketCall.InProtocol (c : PacketCall) (sel : SelectionState) : Prop :=
  match c with
  | .packetSend .. | .discardAction => False
  | .justInTimeActionSend _ set _ b => b = false → set = sel.ui
  | .sendAction size set _ _ b => b = false → size ≠ 0 → set = sel.ui
  | _ => True

instance (c : PacketCall) (sel : SelectionState) : Decidable (c.InProtocol sel) :=
  match c with
  | .packetSend .. | .discardAction => inferInstanceAs (Decidable False)
  | .justInTimeActionSend _ set _ b => inferInstanceAs (Decidable (b = false → set = sel.ui))
  | .sendAction size set _ _ b =>
    inferInstanceAs (Decidable (b = false → size ≠ 0 → set = sel.ui))
  | .playerAction _ | .playerSelect _ | .playerDeselect _ | .playerControlGroupAssign _
  | .playerControlGroupSelect _ | .playerSubgroup .. | .playerPreSubSelection
  | .playerSelectItem _ | .playerOther _ | .selectBackTimer _ | .readEventData =>
    inferInstanceAs (Decidable True)

theorem isAction_buffer (k : BufferKind) : (PacketPtr.buffer k).id ∈ actionIds := by
  cases k <;> decide

theorem isAction_own (a : ActionPacket) : (PacketPtr.own (.action a)).id ∈ actionIds := by
  show a.id ∈ actionIds
  cases a <;> simp [ActionPacket.id, actionIds]

theorem notWatched_controlGroupAssign (n : ℕ) (objects : List HashGroup) :
    ¬ (PacketPtr.own (.controlGroupAssign n objects)).Watched := by
  show ¬ ((0x17 : ℕ) ∈ selectBackIds ∨ (0x17 : ℕ) = 0x18 ∨ (0x17 : ℕ) ∈ destroyIds)
  decide

theorem notWatched_other {o : OtherPacket} (h : o.id ∉ selectBackIds) :
    ¬ (PacketPtr.own (.other o)).Watched := by
  have h18 : (0x18 : ℕ) ∈ knownIds := by decide
  have hdes : destroyIds ⊆ knownIds := by decide
  rintro (hid | hid | hid)
  · exact h hid
  · exact o.other (show o.id ∈ knownIds from (show o.id = 0x18 from hid) ▸ h18)
  · exact o.other (hdes hid)

/-- The selection shown has changed, and what the operation does from there settles. -/
theorem settles_from {l : List PacketInstr} {s : SelectionState}
    (h : EndsIn G (Settled G { σ with selection := s }) l { σ with selection := s }) :
    EndsIn G (Settled G σ) l { σ with selection := s } :=
  h.mono fun _ _ hs => ⟨⟨hs.next, hs.sizes, hs.counted⟩, hs.consistent, hs.flag⟩

/-- The player selects or deselects units, and sees the selection `ui` then. -/
theorem settles_playerPick (units : UnitSet) (select : Bool) {ui : UnitSet}
    (hui : (if select then σ.selection.ui.image G.hash ∪ units.image G.hash
      else σ.selection.ui.image G.hash \ units.image G.hash) = ui.image G.hash)
    (hT : TransmissionsOk G σ) (hflag : σ.actionSentByScript = false)
    (hc : σ.selection.Consistent G) :
    EndsIn G (Settled G σ) (gameSend (selectionPacket G units select))
      { σ with selection := { σ.selection with ui := ui } } := by
  have hid : (selectionPacket G units select).id ∈ destroyIds := List.mem_cons_self
  refine settles_from (settles_playerSelection hid hT hflag (fun hp => ?_) fun hp => ?_)
  · exact ⟨hc.groups, hc.processing, fun hf => absurd (hp.symm.trans hf) (by decide)⟩
  · obtain ⟨hJ, hwire⟩ := hc.idle hp
    rw [receive_selectionPacket]
    refine ⟨hc.groups, fun hf => absurd (hp.symm.trans hf) (by decide), fun _ => ⟨hJ, ?_⟩⟩
    rw [← hwire] at hui
    exact hui

/-- An operation begun in a consistent state settles. -/
theorem PacketCall.settles {c : PacketCall} (hin : c.InProtocol σ.selection)
    (hT : TransmissionsOk G σ) (hflag : σ.actionSentByScript = false)
    (hc : σ.selection.Consistent G) :
    EndsIn G (Settled G σ) (c.exec G σ).1 (c.exec G σ).2 := by
  have hdone : EndsIn G (Settled G σ) [] σ := .nil hT ⟨.refl σ, hc, hflag⟩
  have h19 : (0x19 : ℕ) ∈ destroyIds := by decide
  have h1A : (0x1A : ℕ) ∈ destroyIds := by decide
  have h1C : (0x1C : ℕ) ∈ destroyIds := by decide
  cases c with
  | packetSend p b => exact hin.elim
  | justInTimeActionSend useJIT set a b =>
    exact settles_justInTimeActionSend (isAction_own a) hin hT hflag hc
  | sendAction size set a flagReduceAPM b =>
    simp only [exec]
    split
    · rename_i n k buffers _
      have hb : b = false → set = σ.selection.ui := fun hb => hin hb (Nat.succ_ne_zero n)
      exact (settles_justInTimeActionSend (σ := { σ with buffers := buffers }) (isAction_buffer k)
        hb hT hflag hc).mono fun _ _ hs => ⟨⟨hs.next, hs.sizes, hs.counted⟩, hs.consistent, hs.flag⟩
    · exact hdone
  | playerAction p => exact settles_playerAction p.property hT hflag hc
  | playerSelect units =>
    exact settles_playerPick units true (OrdSet.image_insertAll ..).symm hT hflag hc
  | playerDeselect units =>
    exact settles_playerPick units false (OrdSet.image_filter_notMem G.hash_injective ..).symm hT
      hflag hc
  | playerControlGroupAssign n =>
    refine settles_from (settles_unwatched (notWatched_controlGroupAssign n _) hT hflag ?_)
    refine ⟨fun m => ?_, hc.processing, hc.idle⟩
    show Function.update σ.selection.wireGroups n _ m =
      (Function.update σ.selection.uiGroups n σ.selection.ui m).image G.hash
    by_cases hm : m = n
    · rw [hm, Function.update_self, Function.update_self, OrdSet.image]
    · rw [Function.update_of_ne hm, Function.update_of_ne hm, hc.groups]
  | playerControlGroupSelect n =>
    exact settles_from (settles_controlGroupSelect n hT hflag hc.groups rfl
      fun hp => (hc.idle hp).1)
  | playerSubgroup set typeId object =>
    have hid : (Packet.subgroup typeId object).id ∈ destroyIds := h19
    have hc' : ({ σ.selection with activeSubgroup := set } : SelectionState).Consistent G :=
      ⟨hc.groups, hc.processing, hc.idle⟩
    exact settles_from (settles_playerSelection hid hT hflag (fun _ => hc') fun _ => hc')
  | playerPreSubSelection =>
    exact settles_playerSelection h1A hT hflag (fun _ => hc) fun _ => hc
  | playerSelectItem hashItem =>
    have hid : (Packet.selectionItem hashItem).id ∈ destroyIds := h1C
    exact settles_playerSelection hid hT hflag (fun _ => hc) fun _ => hc
  | playerOther o =>
    by_cases hid : o.id ∈ selectBackIds
    · exact settles_playerAction (q := .other o) hid hT hflag hc
    · exact settles_unwatched (notWatched_other hid) hT hflag hc
  | selectBackTimer below =>
    simp only [exec]
    split_ifs
    · exact settles_selectBack hT hflag hc
    · exact hdone
  | discardAction => exact hin.elim
  | readEventData => exact hdone

/-! ## Runs -/

/-- Between operations the selections agree and every send has come to its transmission; and every
transmission so far was right. -/
structure SelectionOk (c : PacketMachine G) : Prop where
  transmissions : TransmissionsOk G c.core
  consistent : c.pending = [] → c.core.selection.Consistent G
  counted : c.pending = [] → c.core.transmissions.length = c.core.nextSender

/-- The call of a step that begins an operation. -/
def callOf : PacketOp → Option PacketCall
  | .instr (.call c) => some c
  | _ => none

/-- The next step begins no operation, or one of the protocol while no other one is under way. -/
def OperationGuard (c : PacketMachine G) : Prop :=
  ∀ p ∈ c.next.bind callOf, c.pending = [] ∧ p.InProtocol c.core.selection

instance (c : PacketMachine G) : Decidable (OperationGuard c) :=
  inferInstanceAs (Decidable (∀ p ∈ c.next.bind callOf, _ ∧ _))

/-- What a run keeps: what is left of the operation under way settles. -/
def Settling (G : Game) (k : List PacketInstr) (σ : PacketCore) : Prop :=
  EndsIn G (fun τ => τ.selection.Consistent G ∧ τ.actionSentByScript = false ∧
    τ.transmissions.length = τ.nextSender) k σ

theorem settling_step {beh : ℕ → List (UserOp PacketCall)} {c : PacketMachine G}
    (h : Settling G c.pending c.core) (hok : OperationGuard c) :
    Settling G (c.step beh).pending (c.step beh).core := by
  refine PacketMachine.pending_step (Φ := Settling G) h ?_ ?_ ?_
  · intro i k _ hk
    rw [hk] at h
    exact h.rest
  · intro p hn
    obtain ⟨hidle, hin⟩ := hok p (by rw [hn]; rfl)
    rw [hidle] at h ⊢
    obtain ⟨hc, hflag, hcount⟩ := h.post
    rw [List.append_nil]
    refine (PacketCall.settles hin h.head hflag hc).mono fun τ _ hτ => ?_
    refine ⟨hτ.consistent, hτ.flag, ?_⟩
    have hcounted := hτ.counted
    omega
  · intro b hn _
    exact (hok .discardAction (by rw [hn]; rfl)).2.elim

/-- **Just-in-time selection.** In a run whose operations are those of the protocol, one after the
other, the selections agree between operations, and every action is transmitted while the units it
is for are selected. -/
theorem selectionOk_run (G : Game) (main : List (UserOp PacketCall))
    (beh : ℕ → List (UserOp PacketCall)) (hok : ∀ n, OperationGuard (packetRun G main beh n))
    (n : ℕ) : SelectionOk (packetRun G main beh n) := by
  have hinit : PacketMachine.pending (Machine.init PacketState.init main : PacketMachine G) = [] :=
    pendingIn_lift main
  have h : Settling G (packetRun G main beh n).pending (packetRun G main beh n).core := by
    refine Run.guarded (I := fun c : PacketMachine G => Settling G c.pending c.core)
      (Q := OperationGuard) (fun c h hq => settling_step h hq) ?_ hok n
    rw [hinit]
    refine .nil (fun t ht => absurd ht List.not_mem_nil) ⟨⟨fun _ => rfl, fun _ => rfl, fun _ => ?_⟩,
      rfl, rfl⟩
    exact ⟨rfl, rfl⟩
  refine ⟨h.head, fun hidle => ?_, fun hidle => ?_⟩
  · rw [hidle] at h
    exact h.post.1
  · rw [hidle] at h
    exact h.post.2.2

/-! ## Three runs -/

/-- The player selects unit 1, the program orders unit 2 around, and the player gives an order. -/
def orderedMain (sendAsProgramm : Bool) : List (UserOp PacketCall) :=
  [.call (.playerSelect ⟨[1], by decide⟩),
    .call (.justInTimeActionSend true ⟨[2], by decide⟩ (.action ⟨0, 11, 0⟩) sendAsProgramm),
    .call (.playerAction ⟨.action (.action ⟨0, 22, 0⟩), by decide⟩)]

/-- With `sendAsProgramm` set the order goes to unit 2, and the player's own to unit 1. -/
theorem selectionOk_run_ordered :
    SelectionOk (packetRun plainGame (orderedMain true) (fun _ => []) 70) :=
  selectionOk_run plainGame (orderedMain true) (fun _ => [])
    (packetRun_ended (N := 70) (by decide +kernel) (by decide +kernel)) 70

/-- The program orders unit 2 around. -/
def nestedOrderMain : List (UserOp PacketCall) :=
  [.listen 1015 7,
    .call (.justInTimeActionSend true ⟨[2], by decide⟩ (.action ⟨0, 11, 0⟩) true)]

/-- A listener of `EVENT_LOCAL_ACTION` answers with an order for unit 3. -/
def nestedOrderListeners (k : ℕ) : List (UserOp PacketCall) :=
  if k = 0 then
    [.call (.justInTimeActionSend true ⟨[3], by decide⟩ (.action ⟨0, 33, 0⟩) true)]
  else []

/-- Without `sendAsProgramm` the order is taken for the player's, the select-back runs before it is
transmitted, and unit 1 gets it. With it, but with another operation begun before it is transmitted,
the units of that one get it. -/
theorem jit_order_misdirected :
    (¬ ∀ n, SelectionOk (packetRun plainGame (orderedMain false) (fun _ => []) n)) ∧
    (packetRun plainGame (orderedMain false) (fun _ => []) 69).core.transmissions.filter
      (fun t => t.purpose = .jit ⟨[2], by decide⟩) =
        [⟨.action (.action ⟨0, 11, 0⟩), .jit ⟨[2], by decide⟩, true, {1}, ⟨[1], by decide⟩⟩] ∧
    (packetRun plainGame nestedOrderMain nestedOrderListeners 75).core.transmissions.filter
      (fun t => t.purpose = .jit ⟨[2], by decide⟩) =
        [⟨.action (.action ⟨0, 11, 0⟩), .jit ⟨[2], by decide⟩, true, {3}, ∅⟩] := by
  have hr : (packetRun plainGame (orderedMain false) (fun _ => []) 69).core.transmissions.filter
      (fun t => t.purpose = .jit ⟨[2], by decide⟩) =
        [⟨.action (.action ⟨0, 11, 0⟩), .jit ⟨[2], by decide⟩, true, {1}, ⟨[1], by decide⟩⟩] := by
    decide +kernel
  refine ⟨fun h => ?_, hr, by decide +kernel⟩
  have hmem := List.mem_of_mem_filter (hr ▸ List.mem_singleton.mpr rfl)
  have hok := ((h 69).transmissions _ hmem).2
  exact absurd hok (by decide)

end DreamDota
