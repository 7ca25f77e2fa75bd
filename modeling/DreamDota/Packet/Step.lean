import DreamDota.Packet.Model

/-!
# What a step does to the packets

A step of the machine changes the packets' state in three ways: it executes an instruction, a call,
or the discard of an action. `pending` lists the instructions still to run, from the innermost call
out; the code of the callbacks has none, for it can only call. `PacketMachine.pending_step` is the
rule for properties of the packets' state together with them.
-/

namespace DreamDota

open Reentrant

variable {G : Game}

abbrev PacketMachine (G : Game) : Type := Machine (packetClient G)

/-- The program `main` run from the state before the first packet. -/
def packetRun (G : Game) (main : List (UserOp PacketCall)) (beh : ℕ → List (UserOp PacketCall))
    (n : ℕ) : PacketMachine G :=
  run (C := packetClient G) PacketState.init main beh n

namespace PacketMachine

abbrev step (beh : ℕ → List (UserOp PacketCall)) (c : PacketMachine G) : PacketMachine G :=
  Machine.step beh c

def core (c : PacketMachine G) : PacketCore := c.globals.client.core

end PacketMachine

/-! ## The instructions still to run -/

def asInstr : PacketOp → Option PacketInstr
  | .instr (.instr i) => some i
  | _ => none

/-- The instructions in a piece of code. -/
def pendingIn (code : List PacketOp) : List PacketInstr := code.filterMap asInstr

@[simp] theorem pendingIn_nil : pendingIn [] = [] := rfl

theorem pendingIn_cons (o : PacketOp) (l : List PacketOp) :
    pendingIn (o :: l) = (asInstr o).toList ++ pendingIn l := by
  cases h : asInstr o <;> simp [pendingIn, h]

@[simp] theorem pendingIn_append (k l : List PacketOp) :
    pendingIn (k ++ l) = pendingIn k ++ pendingIn l :=
  List.filterMap_append ..

@[simp] theorem pendingIn_instrs (is : List PacketInstr) :
    pendingIn (instrs is) = is := by
  induction is with
  | nil => rfl
  | cons i is ih => exact congrArg (i :: ·) ih

/-- The code of a callback can only call. -/
theorem pendingIn_lift (l : List (UserOp PacketCall)) :
    pendingIn (l.map (Client.lift (C := packetClient G))) = [] := by
  induction l with
  | nil => rfl
  | cons o l ih => cases o <;> exact ih

/-- The instructions still to run, innermost call first. -/
def PacketMachine.pending (c : PacketMachine G) : List PacketInstr := pendingIn c.cont

/-! ## The analysis of a packet -/

/-- What `PacketAnalyze` has still to do when it dispatches `EVENT_PACKET`, and before that. -/
theorem detourPacketAnalyze_code (s : Sender) (σ : PacketCore) :
    ∀ i ∈ (detourPacketAnalyze s σ).1, i = .selectBack ∨ i = .clear ∨ i = .analyzeRest s := by
  simp only [detourPacketAnalyze, packetAnalyze]
  split_ifs <;> simp

/-- A read of the flag by `PacketAnalyze`. -/
theorem detourPacketAnalyze_flagReads (s : Sender) (σ : PacketCore) :
    ∀ r ∈ (detourPacketAnalyze s σ).2.flagReads, r ∈ σ.flagReads ∨
      (r = ⟨σ.actionSentByScript, s.sendAsProgramm⟩ ∧ σ.selection.processing = true ∧
        ¬(s.packet.id = 4 ∧ σ.sizePacket s.serial = 5)) := by
  intro r hr
  by_cases hskip : s.packet.id = 4 ∧ σ.sizePacket s.serial = 5
  · rw [detourPacketAnalyze, if_pos hskip] at hr
    exact .inl hr
  · rw [detourPacketAnalyze, if_neg hskip] at hr
    have hnoted : (packetAnalyze s σ).2.flagReads =
        if σ.selection.processing then (σ.noteFlagRead s).flagReads else σ.flagReads := by
      simp only [packetAnalyze]
      split_ifs <;> rfl
    rw [hnoted] at hr
    split_ifs at hr with hp
    · rcases List.mem_append.mp hr with hold | hnew
      · exact .inl hold
      · exact .inr ⟨List.mem_singleton.mp hnew, hp, hskip⟩
    · exact .inl hr

/-- What the analysis leaves alone. -/
theorem detourPacketAnalyze_fields (s : Sender) (σ : PacketCore) :
    (detourPacketAnalyze s σ).2.actionSentByScript = σ.actionSentByScript ∧
      (detourPacketAnalyze s σ).2.events = σ.events ∧
      (detourPacketAnalyze s σ).2.nextBlock = σ.nextBlock ∧
      (detourPacketAnalyze s σ).2.eventData = σ.eventData := by
  simp only [detourPacketAnalyze, packetAnalyze]
  split_ifs <;> exact ⟨rfl, rfl, rfl, rfl⟩

/-- The instructions that follow the dispatch of `EVENT_PACKET`. -/
theorem pendingIn_analyzeRest (s : Sender) (σ : PacketCore) :
    pendingIn ((PacketInstr.analyzeRest s).exec G σ).1 =
      if s.packet.isAction then [.eventDispatch s, .queue s] else [] := by
  simp only [PacketInstr.exec, pendingIn_append]
  split_ifs <;> rfl

/-- The packet of `PacketEventDispatch` is an action packet. -/
theorem PacketPtr.isAction_of_deref {b : ActionBuffers} {p : PacketPtr} {a : ActionPacket}
    (h : p.deref b = .action a) : p.isAction = true := by
  have hid : p.id = a.id := by rw [← id_deref b p, h]; rfl
  rw [isAction, hid]
  cases a <;> rfl

/-! ## The rule for one step -/

/-- A call changes the packets' state as `exec` has it, or discards the action whose data the event
object holds. -/
theorem PacketCall.execIn_core (G : Game) (tag : Option EventBlock) (p : PacketCall)
    (σ : PacketState) :
    ((p.execIn G tag σ).1 = (p.exec G σ.core).1 ∧
      (p.execIn G tag σ).2.core = (p.exec G σ.core).2) ∨
    (p = .discardAction ∧ ∃ b, σ.core.eventData = some b ∧ (p.execIn G tag σ).1 = [] ∧
      (p.execIn G tag σ).2.core = σ.core.senderDestroy b.data.packetSender) := by
  cases p with
  | discardAction =>
    cases tag with
    | none => exact .inl ⟨rfl, rfl⟩
    | some own =>
      cases hb : σ.core.eventData with
      | none => left; simp [execIn, hb, exec]
      | some b => right; simp [execIn, hb]
  | readEventData => cases tag <;> exact .inl ⟨rfl, rfl⟩
  | _ => exact .inl ⟨rfl, rfl⟩

/-- What the return of a callback leaves alone: the client's state, and the tag of the dispatch. -/
def Next.KeepsClient {C : Client} (f : Dispatch C.Tag) (g : Globals C) :
    Next (Globals C) (Dispatch C.Tag) → Prop
  | .call f' g' | .skip f' g' => f'.tag = f.tag ∧ g'.client = g.client
  | .leave g' => g'.client = g.client

theorem resume_keepsClient {C : Client} (f : Dispatch C.Tag) (g : Globals C) :
    Next.KeepsClient f g (resume f g) := by
  cases hp : f.phase with
  | subscribers i =>
    simp only [resume, hp, afterSubscribers]
    split
    · exact ⟨rfl, rfl⟩
    · exact ⟨rfl, rfl⟩
    · split
      · rfl
      · exact ⟨rfl, rfl⟩
  | listeners i =>
    simp only [resume, hp]
    split
    · rfl
    · split
      · exact ⟨rfl, rfl⟩
      · rfl

namespace PacketMachine

/-- What a step does to the instructions still to run and the packets' state. -/
theorem pending_cases (beh : ℕ → List (UserOp PacketCall)) (c : PacketMachine G) :
    (∃ i k, c.next = some (.instr (.instr i)) ∧ c.pending = i :: k ∧
      (step beh c).pending = pendingIn (i.exec G c.core).1 ++ k ∧
      (step beh c).core = (i.exec G c.core).2) ∨
    (∃ p, c.next = some (.instr (.call p)) ∧
      (step beh c).pending = (p.exec G c.core).1 ++ c.pending ∧
      (step beh c).core = (p.exec G c.core).2) ∨
    (∃ b, c.next = some (.instr (.call .discardAction)) ∧ c.core.eventData = some b ∧
      (step beh c).pending = c.pending ∧
      (step beh c).core = c.core.senderDestroy b.data.packetSender) ∨
    ((∀ code, c.next ≠ some (.instr code)) ∧ (step beh c).pending = c.pending ∧
      (step beh c).core = c.core) := by
  cases hn : c.next with
  | some o =>
    obtain ⟨hg, -, hk, -⟩ := (lang (packetClient G)).step_exec
      (fun k => (beh k).map (Client.lift (C := packetClient G))) hn
    have hcore : (step beh c).core = (exec o c.here c.globals).globals.client.core :=
      congrArg (fun g => PacketState.core g.client) hg
    have hpend : (step beh c).pending =
        pendingIn (exec o c.here c.globals).code ++ pendingIn c.cont.tail := by
      rw [← pendingIn_append]
      exact congrArg pendingIn hk
    have hcont : c.pending = (asInstr o).toList ++ pendingIn c.cont.tail := by
      rw [pending, Lang.cont_eq_cons hn]
      exact pendingIn_cons o _
    cases o with
    | instr code =>
      cases code with
      | instr i => exact .inl ⟨i, _, rfl, hcont, hpend, hcore⟩
      | call p =>
        right
        replace hcont : c.pending = pendingIn c.cont.tail := hcont
        replace hpend : (step beh c).pending =
            pendingIn (instrs (p.execIn G (c.here.bind Dispatch.tag) c.globals.client).1) ++
              c.pending := by rw [hcont]; exact hpend
        rw [pendingIn_instrs] at hpend
        rcases p.execIn_core G (c.here.bind Dispatch.tag) c.globals.client with
          ⟨h₁, h₂⟩ | ⟨rfl, b, hb, h₁, h₂⟩
        · rw [h₁] at hpend
          exact .inl ⟨p, rfl, hpend, hcore.trans h₂⟩
        · rw [h₁] at hpend
          exact .inr (.inl ⟨b, rfl, hb, hpend, hcore.trans h₂⟩)
    | dispatch evt tag =>
      refine .inr (.inr (.inr ⟨(fun _ h => by cases h), ?_, ?_⟩))
      · rw [hpend, show c.pending = pendingIn c.cont.tail from hcont]
        simp only [exec]
        split <;> rfl
      · -- turned away or begun, the dispatch leaves the client alone
        rw [hcore]
        simp only [exec]
        split <;> rfl
    | listen id callback =>
      exact .inr (.inr (.inr ⟨(fun _ h => by cases h), hpend.trans hcont.symm, hcore⟩))
    | subscribe callback =>
      exact .inr (.inr (.inr ⟨(fun _ h => by cases h), hpend.trans hcont.symm, hcore⟩))
    | discardCurrentEvent =>
      exact .inr (.inr (.inr ⟨(fun _ h => by cases h), hpend.trans hcont.symm, hcore⟩))
    | currentEvent =>
      exact .inr (.inr (.inr ⟨(fun _ h => by cases h), hpend.trans hcont.symm, hcore⟩))
  | none =>
    refine .inr (.inr (.inr ⟨(fun _ h => by cases h), ?_⟩))
    cases hf : c.infos with
    | nil =>
      have hs : step beh c = c := (lang (packetClient G)).step_halt _ hn hf
      rw [hs]
      exact ⟨rfl, rfl⟩
    | cons f fs =>
      have hs := (lang (packetClient G)).step_resume
        (fun k => (beh k).map (Client.lift (C := packetClient G))) hn hf
      have hr := resume_keepsClient f c.globals
      rw [show (lang (packetClient G)).resume = resume from rfl] at hs
      cases hres : resume f c.globals <;> rw [hres] at hs hr
      · refine ⟨?_, ?_⟩
        · refine (congrArg pendingIn hs.2.2).trans ?_
          rw [pendingIn_append, pendingIn_lift]
          rfl
        · exact (congrArg (fun g => PacketState.core g.client) hs.1).trans
            (congrArg PacketState.core hr.2)
      · exact ⟨congrArg pendingIn hs.2.2, (congrArg (fun g => PacketState.core g.client) hs.1).trans
          (congrArg PacketState.core hr.2)⟩
      · have hclient : (_ : Globals (packetClient G)).client = c.globals.client := hr
        exact ⟨congrArg pendingIn hs.2.2, (congrArg (fun g => PacketState.core g.client) hs.1).trans
          (congrArg PacketState.core hclient)⟩

/-- A property of the instructions still to run and the packets' state: one case for each way in
which a step changes them. -/
theorem pending_step {Φ : List PacketInstr → PacketCore → Prop}
    {beh : ℕ → List (UserOp PacketCall)} {c : PacketMachine G} (hc : Φ c.pending c.core)
    (instr : ∀ i k, c.next = some (.instr (.instr i)) → c.pending = i :: k →
      Φ (pendingIn (i.exec G c.core).1 ++ k) (i.exec G c.core).2)
    (call : ∀ p, c.next = some (.instr (.call p)) →
      Φ ((p.exec G c.core).1 ++ c.pending) (p.exec G c.core).2)
    (discard : ∀ b, c.next = some (.instr (.call .discardAction)) → c.core.eventData = some b →
      Φ c.pending (c.core.senderDestroy b.data.packetSender)) :
    Φ (pending (step beh c)) (core (step beh c)) := by
  rcases c.pending_cases beh with ⟨i, k, hn, hk, hp, hs⟩ | ⟨p, hn, hp, hs⟩ | ⟨b, hn, hb, hp, hs⟩ |
    ⟨-, hp, hs⟩ <;> rw [hp, hs]
  · exact instr i k hn hk
  · exact call p hn
  · exact discard b hn hb
  · exact hc

end PacketMachine

/-- What holds of a run until its program ends holds of the whole run. -/
theorem packetRun_ended {Q : PacketMachine G → Prop} {main : List (UserOp PacketCall)}
    {beh : ℕ → List (UserOp PacketCall)} {N : ℕ}
    (hend : ((packetRun G main beh N).next.isNone && (packetRun G main beh N).infos.isEmpty) = true)
    (hQ : ∀ m < N + 1, Q (packetRun G main beh m)) (n : ℕ) : Q (packetRun G main beh n) := by
  obtain ⟨hn, hi⟩ := Bool.and_eq_true_iff.mp hend
  have hstop : Machine.step beh (packetRun G main beh N) = packetRun G main beh N :=
    Lang.step_halt _ _ (Option.isNone_iff_eq_none.mp hn) (List.isEmpty_iff.mp hi)
  exact Run.of_stopped (Q := Q) hstop hQ n

end DreamDota
