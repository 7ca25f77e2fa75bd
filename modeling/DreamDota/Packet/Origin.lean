import DreamDota.Packet.Step

/-!
# The origin of nested sends

`ACTION_PROGRAMM` is set when `PacketSend` begins with `sendAsProgramm`, and reset, not restored,
when it returns. So a send that is nested in the send of a program's packet may read the flag of the
outer one, and may leave it reset for the outer one's own read.

The flag is read at the head of `PacketAnalyze` and in `PacketEventDispatch`. `FlagsOk` says what
the reads still to come will find if no further send begins: it is what every step keeps
(`FlagsOk.exec`), as long as every nested send meets `SendOk`. With it, every read is right and the
flag is reset when the outermost send returns (`originOk_run`).
-/

namespace DreamDota

open Reentrant

variable {G : Game}

/-- The sender of the action packet for which the instruction reads `ACTION_PROGRAMM`, at once or
after the dispatch of `EVENT_PACKET`. -/
def PacketInstr.reader (G : Game) : PacketInstr → Option Sender
  | .analyzeRest s | .eventDispatch s => if G.isInGame && s.packet.isAction then some s else none
  | _ => none

/-- The instruction stands in a send that has not returned. -/
def PacketInstr.inSend : PacketInstr → Bool
  | .transmit _ | .programmEnd => true
  | _ => false

/-- Every read of the flag so far found the `sendAsProgramm` of the packet's own sender, every event
carries it, and the flag is reset while no send is under way. -/
structure OriginOk (k : List PacketInstr) (σ : PacketCore) : Prop where
  reads : ∀ r ∈ σ.flagReads, r.value = r.sendAsProgramm
  events : ∀ e ∈ σ.events, e.data.byProgramm = e.sendAsProgramm
  reset : (∀ i ∈ k, i.inSend = false) → σ.actionSentByScript = false

/-- The hook passes the packet on to `PacketAnalyze`. -/
def PacketCore.analysed (σ : PacketCore) (p : PacketPtr) : Bool :=
  !(decide (p.id = 4) && decide ((p.deref σ.buffers).size = 5))

/-- A send that begins while the flag is set. One that sets the flag, and so resets it, leaves no
program's action packet whose event is still to come. One that does not set it is of a packet for
which the flag is not read: while processing none that is analysed, and in the game no action
packet. -/
def SendOk (G : Game) (σ : PacketCore) (k : List PacketInstr) (p : PacketPtr)
    (sendAsProgramm : Bool) : Prop :=
  σ.actionSentByScript = true →
    (sendAsProgramm = true → ∀ i ∈ k, ∀ s ∈ i.reader G, s.sendAsProgramm = false) ∧
    (sendAsProgramm = false → (σ.analysed p && σ.selection.processing) = false ∧
      (G.isInGame && p.isAction) = false)

instance (G : Game) (σ : PacketCore) (k : List PacketInstr) (p : PacketPtr) (b : Bool) :
    Decidable (SendOk G σ k p b) :=
  inferInstanceAs (Decidable (_ → _ ∧ _))

/-- The packet and the `sendAsProgramm` of a send. -/
def sendOf : PacketOp → Option (PacketPtr × Bool)
  | .instr (.instr (.send p sendAsProgramm _)) => some (p, sendAsProgramm)
  | _ => none

/-- The next step begins no send, or one that meets `SendOk`. -/
def SendGuard (c : PacketMachine G) : Prop :=
  ∀ q ∈ c.next.bind sendOf, SendOk G c.core c.pending.tail q.1 q.2

instance (c : PacketMachine G) : Decidable (SendGuard c) :=
  inferInstanceAs (Decidable (∀ q ∈ c.next.bind sendOf, _))

/-! ## What the pending reads will find -/

/-- What is read by `k`, if the flag is `b` now and no further send begins, is right, and the flag
is reset in the end. -/
def FlagsOk (G : Game) : Bool → List PacketInstr → Prop
  | b, [] => b = false
  | b, i :: k =>
    (∀ s ∈ i.reader G, b = s.sendAsProgramm) ∧
      FlagsOk G (if i = .programmEnd then false else b) k

namespace FlagsOk

variable {b : Bool} {k l : List PacketInstr}

/-- Instructions that read the flag rightly and do not reset it. -/
theorem append (hl : ∀ i ∈ l, i ≠ .programmEnd ∧ ∀ s ∈ i.reader G, b = s.sendAsProgramm)
    (h : FlagsOk G b k) : FlagsOk G b (l ++ k) := by
  induction l with
  | nil => exact h
  | cons i l ih =>
    obtain ⟨hi, hl⟩ := List.forall_mem_cons.mp hl
    refine ⟨hi.2, ?_⟩
    rw [if_neg hi.1]
    exact ih hl

/-- A set flag is reset by an instruction still to run. -/
theorem programmEnd_mem (h : FlagsOk G true k) : .programmEnd ∈ k := by
  induction k with
  | nil => exact absurd h Bool.noConfusion
  | cons i k ih =>
    by_cases hi : i = .programmEnd
    · exact hi ▸ List.mem_cons_self
    · have hk := h.2
      rw [if_neg hi] at hk
      exact List.mem_cons_of_mem _ (ih hk)

/-- The flag may be reset early if no read waits for it. -/
theorem reset (h : FlagsOk G b k)
    (hk : b = true → ∀ i ∈ k, ∀ s ∈ i.reader G, s.sendAsProgramm = false) :
    FlagsOk G false k := by
  induction k with
  | nil => rfl
  | cons i k ih =>
    cases b with
    | false => exact h
    | true =>
      have hr := hk rfl
      refine ⟨fun s hs => (hr i List.mem_cons_self s hs).symm, ?_⟩
      have hk' := h.2
      split_ifs at hk' ⊢
      · exact hk'
      · exact ih hk' fun _ j hj => hr j (List.mem_cons_of_mem _ hj)

end FlagsOk

/-- What holds at every step: the reads to come and the reads so far are right. -/
def ReadsRight (G : Game) (k : List PacketInstr) (σ : PacketCore) : Prop :=
  FlagsOk G σ.actionSentByScript k ∧ (∀ r ∈ σ.flagReads, r.value = r.sendAsProgramm) ∧
    ∀ e ∈ σ.events, e.data.byProgramm = e.sendAsProgramm

theorem ReadsRight.originOk {k : List PacketInstr} {σ : PacketCore} (h : ReadsRight G k σ) :
    OriginOk k σ := by
  refine ⟨h.2.1, h.2.2, fun hk => ?_⟩
  cases hb : σ.actionSentByScript with
  | false => rfl
  | true =>
    have hmem : .programmEnd ∈ k := (hb ▸ h.1).programmEnd_mem
    exact absurd (hk _ hmem) (by decide)

/-! ## The steps -/

/-- The instruction neither reads nor resets the flag. -/
def PacketInstr.plain : PacketInstr → Bool
  | .analyzeRest _ | .eventDispatch _ | .programmEnd => false
  | _ => true

theorem FlagsOk.append_plain {b : Bool} {k l : List PacketInstr} (hl : l.all PacketInstr.plain)
    (h : FlagsOk G b k) : FlagsOk G b (l ++ k) := by
  refine h.append fun i hi => ?_
  have hp := List.all_eq_true.mp hl i hi
  cases i <;> simp_all [PacketInstr.plain, PacketInstr.reader]

theorem subgroupSends_plain (set : UnitSet) : (subgroupSends G set).all PacketInstr.plain := by
  unfold subgroupSends
  split <;> rfl

theorem selectBack_plain (σ : PacketCore) : (selectBack G σ).all PacketInstr.plain := by
  simp only [selectBack, List.all_append, Bool.and_eq_true]
  refine ⟨?_, rfl⟩
  split_ifs
  · rfl
  · rw [List.all_append, subgroupSends_plain]
    rfl

theorem justInTimeActionSend_plain (useJIT : Bool) (set : UnitSet) (p : PacketPtr)
    (sendAsProgramm : Bool) (σ : PacketCore) :
    (justInTimeActionSend G useJIT set p sendAsProgramm σ).1.all PacketInstr.plain := by
  simp only [justInTimeActionSend, List.all_append, Bool.and_eq_true]
  refine ⟨⟨?_, rfl⟩, ?_⟩
  · split_ifs
    · rfl
    · simp only [List.all_append, subgroupSends_plain]
      rfl
  · split_ifs <;> rfl

/-- A call does not touch the flag before its first send. -/
theorem PacketCall.exec_plain (p : PacketCall) (σ : PacketCore) :
    (p.exec G σ).1.all PacketInstr.plain ∧
      (p.exec G σ).2.actionSentByScript = σ.actionSentByScript ∧
      (p.exec G σ).2.flagReads = σ.flagReads ∧ (p.exec G σ).2.events = σ.events := by
  cases p with
  | justInTimeActionSend useJIT set a b =>
    exact ⟨justInTimeActionSend_plain .., rfl, rfl, rfl⟩
  | sendAction size set a flagReduceAPM b =>
    simp only [exec]
    split
    · exact ⟨justInTimeActionSend_plain .., rfl, rfl, rfl⟩
    · exact ⟨rfl, rfl, rfl, rfl⟩
  | selectBackTimer below =>
    refine ⟨?_, rfl, rfl, rfl⟩
    simp only [exec]
    split_ifs <;> rfl
  | _ => exact ⟨rfl, rfl, rfl, rfl⟩

/-- The packets that are passed on to `PacketAnalyze`. -/
theorem analysed_of_not_skipped {σ : PacketCore} {p : PacketPtr} {b : Bool} {purpose : Purpose}
    (h : ¬((σ.sender p b purpose).packet.id = 4 ∧
      (σ.beginSend p b).sizePacket (σ.sender p b purpose).serial = 5)) : σ.analysed p = true := by
  have hsize : (σ.beginSend p b).sizePacket (σ.sender p b purpose).serial =
      (p.deref σ.buffers).size := Function.update_self ..
  rw [hsize] at h
  have hp : ¬(p.id = 4 ∧ (p.deref σ.buffers).size = 5) := h
  simpa [PacketCore.analysed, ← imp_iff_not_or] using hp

/-- A send that meets `SendOk` is analysed with the right flag. -/
theorem SendOk.flag_eq {σ : PacketCore} {k : List PacketInstr} {p : PacketPtr} {b : Bool}
    (hok : SendOk G σ k p b)
    (hread : (σ.analysed p && σ.selection.processing) = true ∨ (G.isInGame && p.isAction) = true) :
    (b || σ.actionSentByScript) = b := by
  cases b with
  | true => rfl
  | false =>
    cases hflag : σ.actionSentByScript with
    | false => rfl
    | true =>
      obtain ⟨h₁, h₂⟩ := (hok hflag).2 rfl
      rcases hread with h | h
      · exact absurd h₁ (by simp [h])
      · exact absurd h₂ (by simp [h])

theorem actionEventData_byProgramm (G : Game) (sender : ℕ) (b : Bool) (a : ActionPacket) :
    (actionEventData G sender b a).byProgramm = b := by
  cases a <;> rfl

namespace ReadsRight

variable {k : List PacketInstr} {σ : PacketCore}

/-- A send that meets `SendOk`. -/
theorem send {p : PacketPtr} {b : Bool} {purpose : Purpose}
    (h : ReadsRight G (.send p b purpose :: k) σ) (hok : SendOk G σ k p b) :
    ReadsRight G (pendingIn ((PacketInstr.send p b purpose).exec G σ).1 ++ k)
      ((PacketInstr.send p b purpose).exec G σ).2 := by
  obtain ⟨hflag, hreads, hevents⟩ := h
  replace hflag : FlagsOk G σ.actionSentByScript k := hflag.2
  obtain ⟨hb, hev, -, -⟩ := detourPacketAnalyze_fields (σ.sender p b purpose) (σ.beginSend p b)
  replace hb : ((PacketInstr.send p b purpose).exec G σ).2.actionSentByScript =
      (b || σ.actionSentByScript) := hb
  refine ⟨?_, fun r hr => ?_, fun e he => hevents e (hev ▸ he)⟩
  · rw [hb]
    show FlagsOk G _ (pendingIn (instrs _) ++ k)
    rw [pendingIn_instrs, List.append_assoc]
    refine FlagsOk.append (fun i hi => ?_) ?_
    · rcases List.mem_append.mp hi with hi | hi
      · rcases detourPacketAnalyze_code _ _ i hi with rfl | rfl | rfl
        · exact ⟨PacketInstr.noConfusion, fun s hs => (nomatch hs)⟩
        · exact ⟨PacketInstr.noConfusion, fun s hs => (nomatch hs)⟩
        · refine ⟨PacketInstr.noConfusion, fun s hs => ?_⟩
          simp only [PacketInstr.reader] at hs
          split_ifs at hs with hr
          · obtain rfl := Option.some.inj hs
            exact hok.flag_eq (.inr hr)
          · cases hs
      · rw [List.mem_singleton.mp hi]
        exact ⟨PacketInstr.noConfusion, fun s hs => (nomatch hs)⟩
    · cases b with
      | true => exact ⟨fun s hs => (nomatch hs), hflag.reset fun ht => (hok ht).1 rfl⟩
      | false => exact hflag
  · rcases detourPacketAnalyze_flagReads (σ.sender p b purpose) (σ.beginSend p b) r hr with
      hold | ⟨rfl, hproc, hskip⟩
    · exact hreads r hold
    · exact hok.flag_eq (.inl (Bool.and_eq_true_iff.mpr ⟨analysed_of_not_skipped hskip, hproc⟩))

/-- An instruction that begins no send. -/
theorem instr {i : PacketInstr} (h : ReadsRight G (i :: k) σ)
    (hi : ∀ p b purpose, i ≠ .send p b purpose) :
    ReadsRight G (pendingIn (i.exec G σ).1 ++ k) (i.exec G σ).2 := by
  obtain ⟨hflag, hreads, hevents⟩ := h
  cases i with
  | send p b purpose => exact absurd rfl (hi p b purpose)
  | analyzeRest s =>
    refine ⟨?_, hreads, hevents⟩
    rw [pendingIn_analyzeRest]
    split_ifs with ha
    · refine ⟨hflag.1, ?_⟩
      exact (hflag.2.append_plain (l := [.queue s]) rfl)
    · exact hflag.2
  | eventDispatch s =>
    cases hg : G.isInGame with
    | false => simpa [PacketInstr.exec, hg] using ⟨hflag.2, hreads, hevents⟩
    | true =>
      cases hp : s.packet.deref σ.buffers with
      | action a =>
        have ha : (G.isInGame && s.packet.isAction) = true := by
          rw [hg, PacketPtr.isAction_of_deref hp]; rfl
        have hb : σ.actionSentByScript = s.sendAsProgramm :=
          hflag.1 s (by simp only [PacketInstr.reader, ha]; rfl)
        simp only [PacketInstr.exec, hg, hp]
        refine ⟨hflag.2, fun r hr => ?_, fun e he => ?_⟩
        · rcases List.mem_append.mp hr with hold | hnew
          · exact hreads r hold
          · rw [List.mem_singleton.mp hnew]
            exact hb
        · rcases List.mem_append.mp he with hold | hnew
          · exact hevents e hold
          · rw [List.mem_singleton.mp hnew]
            exact (actionEventData_byProgramm ..).trans hb
      | _ => simpa [PacketInstr.exec, hg, hp] using ⟨hflag.2, hreads, hevents⟩
  | programmEnd => exact ⟨hflag.2, hreads, hevents⟩
  | selectionSend set select =>
    refine ⟨?_, hreads, hevents⟩
    simp only [PacketInstr.exec]
    split_ifs
    · exact hflag.2
    · exact hflag.2.append_plain rfl
  | selectBack =>
    refine ⟨?_, hreads, hevents⟩
    simp only [PacketInstr.exec, pendingIn_instrs]
    exact hflag.2.append_plain (selectBack_plain σ)
  | queue s =>
    simp only [PacketInstr.exec, pendingIn_nil, List.nil_append]
    exact ⟨hflag.2, hreads, hevents⟩
  | transmit s => exact ⟨hflag.2, hreads, hevents⟩
  | jitAssign set => exact ⟨hflag.2, hreads, hevents⟩
  | clear => exact ⟨hflag.2, hreads, hevents⟩

end ReadsRight

theorem readsRight_step {beh : ℕ → List (UserOp PacketCall)} {c : PacketMachine G}
    (h : ReadsRight G c.pending c.core) (hok : SendGuard c) :
    ReadsRight G (c.step beh).pending (c.step beh).core := by
  refine PacketMachine.pending_step (Φ := ReadsRight G) h ?_ ?_ fun _ _ _ => h
  · intro i k hn hk
    rw [hk] at h
    by_cases hi : ∀ p b purpose, i ≠ .send p b purpose
    · exact h.instr hi
    · push Not at hi
      obtain ⟨p, b, purpose, rfl⟩ := hi
      refine h.send ?_
      have hs := hok (p, b) (by rw [hn]; rfl)
      rwa [hk] at hs
  · intro p _
    obtain ⟨hplain, hb, hr, he⟩ := p.exec_plain c.core
    refine ⟨?_, hr ▸ h.2.1, he ▸ h.2.2⟩
    rw [hb]
    exact h.1.append_plain hplain

/-- **The origin of nested sends.** In a run in which every send that begins while the flag is set
meets `SendOk`, every read of the flag finds the `sendAsProgramm` of the packet's own sender, every
event carries it, and the flag is reset when the outermost send returns. -/
theorem originOk_run (G : Game) (main : List (UserOp PacketCall))
    (beh : ℕ → List (UserOp PacketCall)) (hok : ∀ n, SendGuard (packetRun G main beh n)) (n : ℕ) :
    OriginOk (packetRun G main beh n).pending (packetRun G main beh n).core := by
  refine ReadsRight.originOk (Run.guarded (I := fun c : PacketMachine G =>
    ReadsRight G c.pending c.core) (Q := SendGuard) (fun c h hq => readsRight_step h hq) ?_ hok n)
  have hk : PacketMachine.pending (Machine.init PacketState.init main : PacketMachine G) = [] :=
    pendingIn_lift main
  refine ⟨?_, fun r hr => absurd hr List.not_mem_nil, fun e he => absurd he List.not_mem_nil⟩
  rw [hk]
  rfl

/-! ## Two runs with nested sends -/

/-- An order of the player. -/
def answeredMain : List (UserOp PacketCall) :=
  [.listen 1015 7, .call (.playerAction ⟨.action (.action ⟨0, 11, 0⟩), by decide⟩)]

/-- The listener of `EVENT_LOCAL_ACTION` answers it with an order of the program. -/
def answeredListeners (k : ℕ) : List (UserOp PacketCall) :=
  if k = 0 then [.call (.packetSend (.action (.action ⟨0, 22, 0⟩)) true)] else []

/-- A program's order nested in the player's meets `SendOk`, so both events carry the right
origin. -/
theorem originOk_run_answered :
    OriginOk (packetRun plainGame answeredMain answeredListeners 26).pending
      (packetRun plainGame answeredMain answeredListeners 26).core :=
  originOk_run plainGame answeredMain answeredListeners
    (packetRun_ended (N := 26) (by decide +kernel) (by decide +kernel)) 26

/-- An order of the program. -/
def interruptedMain : List (UserOp PacketCall) :=
  [.listen 1009 7, .call (.packetSend (.action (.action ⟨0, 11, 0⟩)) true)]

/-- The listener of `EVENT_PACKET` sends a packet of the program. -/
def interruptedListeners (k : ℕ) : List (UserOp PacketCall) :=
  if k = 0 then [.call (.packetSend .preSubSelection true)] else []

/-- The nested send resets the flag before the event of the order is made, so the program's order
appears as one of the player. -/
theorem nested_send_resets :
    (¬ ∀ n, OriginOk (packetRun plainGame interruptedMain interruptedListeners n).pending
      (packetRun plainGame interruptedMain interruptedListeners n).core) ∧
    (packetRun plainGame interruptedMain interruptedListeners 18).core.events.map
      (fun e => (e.data.id, e.data.byProgramm, e.sendAsProgramm)) = [(11, false, true)] := by
  have hr : (packetRun plainGame interruptedMain interruptedListeners 18).core.flagReads =
      [⟨false, true⟩] := by decide +kernel
  refine ⟨fun h => ?_, by decide +kernel⟩
  have hread := (h 18).reads ⟨false, true⟩ (by rw [hr]; exact List.mem_singleton.mpr rfl)
  exact absurd hread (by decide)

end DreamDota
