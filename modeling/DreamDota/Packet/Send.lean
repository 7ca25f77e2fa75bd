import DreamDota.Packet.Step
import DreamDota.Lib.Expand

/-!
# What one send does to the selection

The specifications of the instructions, in a run whose callbacks send nothing. A send whose packet
passes `PacketAnalyze` is transmitted with the selection that it finds (`ends_send`). While
processing, a packet that is not the program's may be held up: behind a select-back
(`ends_send_selectBack`) or a clear (`ends_send_clear`), or for good (`ends_send_destroyed`).

`After σ sel σ'` is the shape of their postconditions: whole sends lead from `σ` to `σ'`, and leave
the selection `sel`.
-/

namespace DreamDota

open Expand

variable {G : Game} {σ σ' σ'' : PacketCore} {sel sel' : SelectionState}

/-- An instruction, without the dispatches of its code. -/
def runInstr (G : Game) (i : PacketInstr) (σ : PacketCore) : List PacketInstr × PacketCore :=
  (pendingIn (i.exec G σ).1, (i.exec G σ).2)

/-! ## The transmissions -/

/-- An action of `PacketJustInTimeActionSend` is transmitted while its units are selected, and an
action of the player while those that the player sees are. -/
def Transmission.Ok (G : Game) (t : Transmission) : Prop :=
  match t.purpose with
  | .jit set => t.sent = true ∧ t.wire = set.image G.hash
  | .player => t.packet.id ∈ selectBackIds → t.sent = true ∧ t.wire = t.ui.image G.hash
  | .internal | .program => True

def TransmissionsOk (G : Game) (σ : PacketCore) : Prop := ∀ t ∈ σ.transmissions, t.Ok G

/-- The instructions, run from the state, come to their end, and all transmissions are right. -/
abbrev EndsIn (G : Game) (Q : PacketCore → Prop) (l : List PacketInstr) (σ : PacketCore) : Prop :=
  Ends (runInstr G) (TransmissionsOk G) Q l σ

/-! ## States that agree, and states after whole sends -/

/-- Nothing that a send depends on has changed. -/
structure Quiet (σ σ' : PacketCore) : Prop where
  selection : σ'.selection = σ.selection
  flag : σ'.actionSentByScript = σ.actionSentByScript
  buffers : σ'.buffers = σ.buffers
  next : σ'.nextSender = σ.nextSender
  sizes : σ'.sizePacket = σ.sizePacket
  transmissions : σ'.transmissions = σ.transmissions

theorem Quiet.refl (σ : PacketCore) : Quiet σ σ := ⟨rfl, rfl, rfl, rfl, rfl, rfl⟩

theorem Quiet.trans (h : Quiet σ σ') (h' : Quiet σ' σ'') : Quiet σ σ'' :=
  ⟨h'.selection.trans h.selection, h'.flag.trans h.flag, h'.buffers.trans h.buffers,
    h'.next.trans h.next, h'.sizes.trans h.sizes, h'.transmissions.trans h.transmissions⟩

theorem TransmissionsOk.congr (h : TransmissionsOk G σ)
    (ht : σ'.transmissions = σ.transmissions) : TransmissionsOk G σ' := by
  intro t hmem
  exact h t (ht ▸ hmem)

/-- Whole sends lead from `σ` to `σ'`. Each of them has come to its transmission, and the senders
made before are as they were. -/
structure Later (σ σ' : PacketCore) : Prop where
  next : σ.nextSender ≤ σ'.nextSender
  sizes : ∀ n < σ.nextSender, σ'.sizePacket n = σ.sizePacket n
  counted : σ'.transmissions.length + σ.nextSender = σ.transmissions.length + σ'.nextSender

theorem Later.refl (σ : PacketCore) : Later σ σ := ⟨le_rfl, fun _ _ => rfl, rfl⟩

theorem Later.trans (h : Later σ σ') (h' : Later σ' σ'') : Later σ σ'' := by
  refine ⟨h.next.trans h'.next, fun n hn => ?_, ?_⟩
  · rw [h'.sizes n (hn.trans_le h.next), h.sizes n hn]
  · have h₁ := h.counted
    have h₂ := h'.counted
    omega

/-- Whole sends lead to a state with this selection, with the flag reset. -/
structure After (σ : PacketCore) (sel : SelectionState) (σ' : PacketCore) : Prop
    extends Later σ σ' where
  selection : σ'.selection = sel
  flag : σ'.actionSentByScript = false

theorem After.refl (hflag : σ.actionSentByScript = false) : After σ σ.selection σ :=
  ⟨.refl σ, rfl, hflag⟩

theorem After.trans (h : After σ sel σ') (h' : After σ' sel' σ'') : After σ sel' σ'' :=
  ⟨h.toLater.trans h'.toLater, h'.selection, h'.flag⟩

/-- One piece of code after the other. -/
theorem After.append {k l : List PacketInstr} (h : EndsIn G (After σ sel) l σ)
    (hk : ∀ τ, TransmissionsOk G τ → After σ sel τ → EndsIn G (After τ sel') k τ) :
    EndsIn G (After σ sel') (l ++ k) σ :=
  h.append fun τ hT hτ => (hk τ hT hτ).mono fun _ _ h' => hτ.trans h'

/-! ## The rest of a send -/

/-- `PacketEventDispatch` changes nothing that a send depends on. -/
theorem ends_eventDispatch (s : Sender) (hT : TransmissionsOk G σ) :
    EndsIn G (Quiet σ) [.eventDispatch s] σ := by
  have hquiet : Quiet σ (runInstr G (.eventDispatch s) σ).2 := by
    simp only [runInstr, PacketInstr.exec]
    split
    · exact ⟨rfl, rfl, rfl, rfl, rfl, rfl⟩
    · exact .refl σ
  refine Ends.single hT ?_ (hT.congr hquiet.transmissions) hquiet
  simp only [runInstr, PacketInstr.exec]
  split <;> rfl

theorem ends_queue (s : Sender) (hT : TransmissionsOk G σ) :
    EndsIn G (Quiet σ) [.queue s] σ := by
  have hquiet : Quiet σ (runInstr G (.queue s) σ).2 := by
    simp only [runInstr, PacketInstr.exec]
    exact ⟨rfl, rfl, rfl, rfl, rfl, rfl⟩
  exact Ends.single hT rfl (hT.congr hquiet.transmissions) hquiet

/-- The events of a packet change nothing that its send depends on. -/
theorem ends_analyzeRest (s : Sender) (hT : TransmissionsOk G σ) :
    EndsIn G (Quiet σ) [.analyzeRest s] σ := by
  refine Ends.expand hT ?_
  simp only [runInstr, pendingIn_analyzeRest]
  split_ifs
  · refine Ends.append (ends_eventDispatch s hT) fun τ hτ hquiet => ?_
    exact (ends_queue s hτ).mono fun _ _ => hquiet.trans
  · exact .nil hT (.refl σ)

/-- The end of a send: the packet is received, if it has not been destroyed. -/
structure Delivered (σ : PacketCore) (sel : SelectionState) (σ' : PacketCore) : Prop where
  selection : σ'.selection = sel
  flag : σ'.actionSentByScript = σ.actionSentByScript
  next : σ'.nextSender = σ.nextSender
  sizes : σ'.sizePacket = σ.sizePacket
  counted : σ'.transmissions.length = σ.transmissions.length + 1

theorem ends_transmit (s : Sender) (hT : TransmissionsOk G σ) (hsize : σ.sizePacket s.serial ≠ 0)
    (hok : Transmission.Ok G
      ⟨s.packet.deref σ.buffers, s.purpose, true, σ.selection.wire, σ.selection.ui⟩) :
    EndsIn G (Delivered σ (σ.selection.receive (s.packet.deref σ.buffers))) [.transmit s] σ := by
  have hsent : (σ.sizePacket s.serial != 0) = true := bne_iff_ne.mpr hsize
  refine Ends.single hT rfl (fun t ht => ?_) ⟨?_, rfl, rfl, rfl, ?_⟩
  · rcases List.mem_append.mp ht with hold | hnew
    · exact hT t hold
    · rw [List.mem_singleton.mp hnew, hsent]
      exact hok
  · exact if_pos hsent
  · exact List.length_append ..

/-- A packet that passes the analysis is transmitted with the selection that it finds. -/
theorem ends_passOn {l : List PacketInstr} (s : Sender) (hl : l = [] ∨ l = [.analyzeRest s])
    (hT : TransmissionsOk G σ) (hsize : σ.sizePacket s.serial ≠ 0)
    (hok : Transmission.Ok G
      ⟨s.packet.deref σ.buffers, s.purpose, true, σ.selection.wire, σ.selection.ui⟩) :
    EndsIn G (Delivered σ (σ.selection.receive (s.packet.deref σ.buffers)))
      (l ++ [.transmit s]) σ := by
  have hquiet : EndsIn G (Quiet σ) l σ := by
    rcases hl with rfl | rfl
    · exact .nil hT (.refl σ)
    · exact ends_analyzeRest s hT
  refine hquiet.append fun τ hτ h => ?_
  rw [← h.selection, ← h.buffers] at hok ⊢
  refine (ends_transmit s hτ (by rwa [h.sizes]) hok).mono fun υ _ hυ => ?_
  exact ⟨hυ.selection, hυ.flag.trans h.flag, hυ.next.trans h.next, hυ.sizes.trans h.sizes,
    by rw [hυ.counted, h.transmissions]⟩

/-! ## A send -/

theorem Packet.size_pos (p : Packet) : 0 < p.size := by
  cases p with
  | action a => cases a <;> exact Nat.succ_pos _
  | other o => exact o.size_pos
  | selection _ _ objects => exact Nat.lt_add_right _ (by decide)
  | controlGroupAssign _ objects => exact Nat.lt_add_right _ (by decide)
  | _ => exact Nat.succ_pos _

/-- The packet is one that `PacketAnalyze` looks for while processing. -/
def PacketPtr.Watched (p : PacketPtr) : Prop :=
  p.id ∈ selectBackIds ∨ p.id = 0x18 ∨ p.id ∈ destroyIds

theorem PacketPtr.Watched.ne_four {p : PacketPtr} (h : p.Watched) : p.id ≠ 4 := by
  intro h4
  rw [Watched, h4] at h
  exact absurd h (by decide)

section Analysis

variable {s : Sender}

theorem quiet_noted : Quiet σ (if σ.selection.processing then σ.noteFlagRead s else σ) := by
  split_ifs
  · exact ⟨rfl, rfl, rfl, rfl, rfl, rfl⟩
  · exact .refl σ

/-- A packet that the analysis lets pass at once. -/
theorem detour_passes (h : σ.actionSentByScript = true ∨ σ.selection.processing = false ∨
      ¬ s.packet.Watched) :
    ((detourPacketAnalyze s σ).1 = [] ∨ (detourPacketAnalyze s σ).1 = [.analyzeRest s]) ∧
      Quiet σ (detourPacketAnalyze s σ).2 := by
  unfold detourPacketAnalyze
  split_ifs
  · exact ⟨.inl rfl, .refl σ⟩
  · have hcode : (packetAnalyze s σ).1 = [.analyzeRest s] ∧
        (packetAnalyze s σ).2 = if σ.selection.processing then σ.noteFlagRead s else σ := by
      rcases h with h | h | h
      · simp [packetAnalyze, h]
      · simp [packetAnalyze, h]
      · simp only [PacketPtr.Watched, not_or] at h
        simp [packetAnalyze, h]
    rw [hcode.1, hcode.2]
    exact ⟨.inr rfl, quiet_noted⟩

variable (hp : σ.selection.processing = true) (hf : σ.actionSentByScript = false)

include hp hf

theorem detour_selectBack (hid : s.packet.id ∈ selectBackIds) :
    (detourPacketAnalyze s σ).1 = [.selectBack] ++ [.analyzeRest s] ∧
      Quiet σ (detourPacketAnalyze s σ).2 := by
  have h4 : s.packet.id ≠ 4 := PacketPtr.Watched.ne_four (.inl hid)
  have hr : detourPacketAnalyze s σ = ([.selectBack, .analyzeRest s], σ.noteFlagRead s) := by
    simp [detourPacketAnalyze, packetAnalyze, h4, hp, hf, hid]
  rw [hr]
  exact ⟨rfl, ⟨rfl, rfl, rfl, rfl, rfl, rfl⟩⟩

theorem detour_clear (hid : s.packet.id = 0x18) :
    (detourPacketAnalyze s σ).1 = [.clear] ++ [.analyzeRest s] ∧
      Quiet σ (detourPacketAnalyze s σ).2 := by
  have hr : detourPacketAnalyze s σ = ([.clear, .analyzeRest s], σ.noteFlagRead s) := by
    simp [detourPacketAnalyze, packetAnalyze, hp, hf, hid, selectBackIds]
  rw [hr]
  exact ⟨rfl, ⟨rfl, rfl, rfl, rfl, rfl, rfl⟩⟩

theorem detour_destroyed (hid : s.packet.id ∈ destroyIds) :
    detourPacketAnalyze s σ = ([], (σ.noteFlagRead s).senderDestroy s.serial) := by
  have h4 : s.packet.id ≠ 4 := PacketPtr.Watched.ne_four (.inr (.inr hid))
  have hsb : s.packet.id ∉ selectBackIds ∧ s.packet.id ≠ 0x18 := by
    revert hid
    generalize s.packet.id = id
    intro hid
    simp only [destroyIds, List.mem_cons, List.not_mem_nil, or_false] at hid
    rcases hid with rfl | rfl | rfl | rfl <;> decide
  simp [detourPacketAnalyze, packetAnalyze, h4, hp, hf, hid, hsb.1, hsb.2]

end Analysis

/-- A send whose analysis runs `before`, which leads to the selection `sel`, and then lets the
packet pass. -/
theorem ends_send_of {p : PacketPtr} {b : Bool} {purpose : Purpose} {before l : List PacketInstr}
    (hT : TransmissionsOk G σ)
    (hcode : (detourPacketAnalyze (σ.sender p b purpose) (σ.beginSend p b)).1 = before ++ l)
    (hl : l = [] ∨ l = [.analyzeRest (σ.sender p b purpose)])
    (hquiet : Quiet (σ.beginSend p b)
      (detourPacketAnalyze (σ.sender p b purpose) (σ.beginSend p b)).2)
    (hbefore : ∀ σ₁, Quiet (σ.beginSend p b) σ₁ → TransmissionsOk G σ₁ →
      EndsIn G (fun τ => Later σ₁ τ ∧ τ.selection = sel ∧ τ.actionSentByScript = b) before σ₁)
    (hok : ∀ buffers, Transmission.Ok G ⟨p.deref buffers, purpose, true, sel.wire, sel.ui⟩)
    (hsel : ∀ buffers, sel.receive (p.deref buffers) = sel') :
    EndsIn G (After σ sel') [.send p b purpose] σ := by
  refine Ends.expand hT ?_
  simp only [runInstr, PacketInstr.exec, pendingIn_instrs, hcode]
  generalize hσ₁ : (detourPacketAnalyze (σ.sender p b purpose) (σ.beginSend p b)).2 = σ₁
  rw [hσ₁] at hquiet
  rw [List.append_assoc, List.append_assoc, ← List.append_assoc l]
  have hT₁ : TransmissionsOk G σ₁ := hT.congr hquiet.transmissions
  refine (hbefore σ₁ hquiet hT₁).append fun τ hτ h => ?_
  obtain ⟨hlater, hsel₁, hb⟩ := h
  have hnext₁ : σ₁.nextSender = σ.nextSender + 1 := hquiet.next
  have hsize : τ.sizePacket σ.nextSender ≠ 0 := by
    rw [hlater.sizes _ (by omega), hquiet.sizes]
    show Function.update σ.sizePacket σ.nextSender _ σ.nextSender ≠ 0
    rw [Function.update_self]
    exact (Packet.size_pos _).ne'
  subst hsel₁
  refine (ends_passOn _ hl hτ hsize (hok _)).append fun υ hυ hd => ?_
  have hafter : Later σ υ ∧ υ.selection = sel' := by
    refine ⟨⟨?_, fun n hn => ?_, ?_⟩, hd.selection.trans (hsel _)⟩
    · have h := hlater.next
      rw [hd.next]
      omega
    · rw [hd.sizes, hlater.sizes n (by omega), hquiet.sizes]
      exact Function.update_of_ne hn.ne _ _
    · have h := hlater.counted
      rw [hquiet.transmissions] at h
      have h' : (σ.beginSend p b).transmissions = σ.transmissions := rfl
      rw [h'] at h
      rw [hd.counted, hd.next]
      omega
  cases b with
  | true =>
    obtain ⟨hlater', hsel'⟩ := hafter
    exact Ends.single hυ rfl hυ ⟨⟨hlater'.next, hlater'.sizes, hlater'.counted⟩, hsel', rfl⟩
  | false => exact .nil hυ ⟨hafter.1, hafter.2, hd.flag.trans hb⟩

section Send

variable {p : PacketPtr} {b : Bool} {purpose : Purpose}

theorem beginSend_flag (hflag : σ.actionSentByScript = false) :
    (σ.beginSend p b).actionSentByScript = b := by
  show (b || σ.actionSentByScript) = b
  rw [hflag, Bool.or_false]

/-- A send whose packet passes the analysis. -/
theorem ends_send (hT : TransmissionsOk G σ) (hflag : σ.actionSentByScript = false)
    (hpass : b = true ∨ σ.selection.processing = false ∨ ¬ p.Watched)
    (hok : ∀ buffers,
      Transmission.Ok G ⟨p.deref buffers, purpose, true, σ.selection.wire, σ.selection.ui⟩)
    (hsel : ∀ buffers, σ.selection.receive (p.deref buffers) = sel') :
    EndsIn G (After σ sel') [.send p b purpose] σ := by
  have hb : (σ.beginSend p b).actionSentByScript = b := beginSend_flag hflag
  obtain ⟨hl, hquiet⟩ := detour_passes (s := σ.sender p b purpose) (σ := σ.beginSend p b)
    (hpass.imp_left fun h => hb.trans h)
  refine ends_send_of hT (List.nil_append _).symm hl hquiet (fun σ₁ h₁ hT₁ => ?_) hok hsel
  exact .nil hT₁ ⟨.refl σ₁, h₁.selection, h₁.flag.trans hb⟩

theorem ends_clear (hT : TransmissionsOk G σ) (hflag : σ.actionSentByScript = false) :
    EndsIn G (After σ { σ.selection with justInTimeSelection := ∅, processing := false })
      [.clear] σ :=
  Ends.single hT rfl hT ⟨⟨le_rfl, fun _ _ => rfl, rfl⟩, rfl, hflag⟩

variable (hT : TransmissionsOk G σ) (hflag : σ.actionSentByScript = false)
  (hp : σ.selection.processing = true)

include hT hflag hp

/-- An action that is not the program's, while processing: the select-back comes first. -/
theorem ends_send_selectBack (hid : p.id ∈ selectBackIds)
    (hback : ∀ σ₁, Quiet (σ.beginSend p false) σ₁ → TransmissionsOk G σ₁ →
      EndsIn G (After σ₁ sel) [.selectBack] σ₁)
    (hok : ∀ buffers, Transmission.Ok G ⟨p.deref buffers, purpose, true, sel.wire, sel.ui⟩)
    (hsel : ∀ buffers, sel.receive (p.deref buffers) = sel') :
    EndsIn G (After σ sel') [.send p false purpose] σ := by
  obtain ⟨hcode, hquiet⟩ := detour_selectBack (s := σ.sender p false purpose)
    (σ := σ.beginSend p false) hp (beginSend_flag hflag) hid
  refine ends_send_of hT hcode (.inr rfl) hquiet (fun σ₁ h₁ hT₁ => ?_) hok
    hsel
  exact (hback σ₁ h₁ hT₁).mono fun τ _ h => ⟨h.toLater, h.selection, h.flag⟩

/-- The choice of a control group by the player, while processing: the just-in-time selection is
given up first. -/
theorem ends_send_clear (hid : p.id = 0x18)
    (hok : ∀ buffers, Transmission.Ok G
      ⟨p.deref buffers, purpose, true, σ.selection.wire, σ.selection.ui⟩)
    (hsel : ∀ buffers, ({ σ.selection with
      justInTimeSelection := ∅, processing := false } : SelectionState).receive
        (p.deref buffers) = sel') :
    EndsIn G (After σ sel') [.send p false purpose] σ := by
  obtain ⟨hcode, hquiet⟩ := detour_clear (s := σ.sender p false purpose)
    (σ := σ.beginSend p false) hp (beginSend_flag hflag) hid
  refine ends_send_of hT hcode (.inr rfl) hquiet (fun σ₁ h₁ hT₁ => ?_)
    (fun buffers => ?_) hsel
  · rw [← show σ₁.selection = σ.selection from h₁.selection]
    exact (ends_clear hT₁ (h₁.flag.trans (beginSend_flag hflag))).mono fun τ _ h =>
      ⟨h.toLater, h.selection, h.flag⟩
  · exact hok buffers

/-- A selection packet of the player, while processing: it is not transmitted. -/
theorem ends_send_destroyed (hid : p.id ∈ destroyIds)
    (hok : ∀ buffers, Transmission.Ok G
      ⟨p.deref buffers, purpose, false, σ.selection.wire, σ.selection.ui⟩) :
    EndsIn G (After σ σ.selection) [.send p false purpose] σ := by
  have hr := detour_destroyed (s := σ.sender p false purpose) (σ := σ.beginSend p false) hp
    (beginSend_flag hflag) hid
  refine Ends.expand hT ?_
  simp only [runInstr, PacketInstr.exec, pendingIn_instrs, hr]
  generalize hσ₁ : ((σ.beginSend p false).noteFlagRead (σ.sender p false purpose)).senderDestroy
    (σ.sender p false purpose).serial = σ₁
  have hsizes : σ₁.sizePacket =
      Function.update (σ.beginSend p false).sizePacket σ.nextSender 0 := by rw [← hσ₁]; rfl
  have hsent : (σ₁.sizePacket σ.nextSender != 0) = false := by
    rw [hsizes, Function.update_self]
    rfl
  have htrans : σ₁.transmissions = σ.transmissions := by rw [← hσ₁]; rfl
  have hselection : σ₁.selection = σ.selection := by rw [← hσ₁]; rfl
  have hnext : σ₁.nextSender = σ.nextSender + 1 := by rw [← hσ₁]; rfl
  refine Ends.single (hT.congr htrans) rfl ?_ ?_
  · intro t ht
    rcases List.mem_append.mp ht with hold | hnew
    · exact hT t (htrans ▸ hold)
    · rw [List.mem_singleton.mp hnew, hselection]
      show Transmission.Ok G ⟨_, purpose, σ₁.sizePacket σ.nextSender != 0, _, _⟩
      rw [hsent]
      exact hok _
  · refine ⟨⟨?_, fun n hn => ?_, ?_⟩, ?_, ?_⟩
    · show σ.nextSender ≤ σ₁.nextSender
      omega
    · show σ₁.sizePacket n = σ.sizePacket n
      rw [hsizes, Function.update_of_ne hn.ne]
      exact Function.update_of_ne hn.ne _ _
    · show (σ₁.transmissions ++ [_]).length + σ.nextSender = _ + σ₁.nextSender
      rw [List.length_append, htrans, hnext]
      simp only [List.length_singleton]
      omega
    · show (if σ₁.sizePacket σ.nextSender != 0 then _ else σ₁.selection) = _
      rw [hsent, hselection]
      rfl
    · show σ₁.actionSentByScript = false
      rw [← hσ₁]
      show (false || σ.actionSentByScript) = false
      rw [hflag]
      rfl

end Send

end DreamDota
