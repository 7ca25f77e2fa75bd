import DreamDota.Packet.Step

/-!
# The data of an event

`PacketEventObject` is static, and every `PacketEventDispatch` puts a new block of data into it. A
listener that reads the data finds the block of the last `PacketEventDispatch`, which may be one
that ran while a packet was sent by an earlier listener of the same dispatch. So a read is right if
and only if no `PacketEventDispatch` has run since the one whose listener reads (`dataReads_iff`).
-/

namespace DreamDota

open Reentrant

variable {G : Game}

/-- Every read so far found the data of the dispatch that the reader is a listener of. -/
def DataReadsOk (σ : PacketState) : Prop := ∀ r ∈ σ.dataReads, r.answer = some r.own

/-- The event's data is read only by callbacks of the last dispatch of `PacketEventDispatch`: no
other block has been made since. -/
def DataGuard (c : PacketMachine G) : Prop :=
  c.next = some (.instr (.call .readEventData)) →
    ∀ own, c.here.bind Dispatch.tag = some own → own.block + 1 = c.core.nextBlock

/-! ## The blocks -/

def asTag : PacketOp → Option EventBlock
  | .dispatch _ tag => tag
  | _ => none

/-- The event object holds the last block made. Every dispatch under way, or about to begin, is for
a block made before, and the one for the last block is for what the event object holds. -/
structure BlocksOk (tags : List (Option EventBlock)) (σ : PacketCore) : Prop where
  last : ∀ b, σ.eventData = some b → b.block + 1 = σ.nextBlock
  made : ∀ t, some t ∈ tags → t.block < σ.nextBlock
  held : ∀ t, some t ∈ tags → t.block + 1 = σ.nextBlock → σ.eventData = some t

/-- The tags of the dispatches under way, and of those about to begin. -/
def tagsOf (fs : List (Dispatch EventBlock)) (k : List PacketOp) : List (Option EventBlock) :=
  fs.map Dispatch.tag ++ k.map asTag

theorem mem_tagsOf {fs : List (Dispatch EventBlock)} {k : List PacketOp} {t : Option EventBlock} :
    t ∈ tagsOf fs k ↔ t ∈ fs.map Dispatch.tag ∨ t ∈ k.map asTag :=
  List.mem_append

namespace BlocksOk

variable {tags tags' : List (Option EventBlock)} {σ σ' : PacketCore}

theorem mono (h : BlocksOk tags σ) (hsub : ∀ t, some t ∈ tags' → some t ∈ tags) :
    BlocksOk tags' σ :=
  ⟨h.last, fun t ht => h.made t (hsub t ht), fun t ht => h.held t (hsub t ht)⟩

theorem congr (h : BlocksOk tags σ) (hn : σ'.nextBlock = σ.nextBlock)
    (hd : σ'.eventData = σ.eventData) : BlocksOk tags σ' := by
  refine ⟨fun b hb => ?_, fun t ht => ?_, fun t ht => ?_⟩
  · rw [hn]; exact h.last b (hd ▸ hb)
  · rw [hn]; exact h.made t ht
  · rw [hn, hd]; exact h.held t ht

/-- A new block is made: the tags made before are none of its own. -/
theorem push (h : BlocksOk tags σ) (d : ActionEventData)
    (hsub : ∀ t, some t ∈ tags' → t = ⟨σ.nextBlock, d⟩ ∨ some t ∈ tags)
    (hn : σ'.nextBlock = σ.nextBlock + 1) (hd : σ'.eventData = some ⟨σ.nextBlock, d⟩) :
    BlocksOk tags' σ' := by
  refine ⟨fun b hb => ?_, fun t ht => ?_, fun t ht hlast => ?_⟩
  · obtain rfl : ⟨σ.nextBlock, d⟩ = b := Option.some.inj (hd.symm.trans hb)
    exact hn.symm
  · rcases hsub t ht with rfl | hold
    · rw [hn]; exact Nat.lt_succ_self _
    · have hlt := h.made t hold
      omega
  · rcases hsub t ht with rfl | hold
    · exact hd
    · have hlt := h.made t hold
      omega

end BlocksOk

theorem instrs_asTag (is : List PacketInstr) (t : EventBlock) :
    some t ∉ (instrs is).map asTag := by
  simp [instrs, asTag]

/-- `PacketEventDispatch` makes a block and begins a dispatch for it. No other instruction touches
the event object or begins a dispatch with a tag. -/
theorem PacketInstr.exec_data (i : PacketInstr) (σ : PacketCore) :
    ((i.exec G σ).2.nextBlock = σ.nextBlock ∧ (i.exec G σ).2.eventData = σ.eventData ∧
      ∀ t, some t ∉ (i.exec G σ).1.map asTag) ∨
    ∃ d, (i.exec G σ).2.nextBlock = σ.nextBlock + 1 ∧
      (i.exec G σ).2.eventData = some ⟨σ.nextBlock, d⟩ ∧
      (i.exec G σ).1.map asTag = [some ⟨σ.nextBlock, d⟩] := by
  cases i with
  | send p sendAsProgramm purpose =>
    obtain ⟨-, -, hn, hd⟩ := detourPacketAnalyze_fields (σ.sender p sendAsProgramm purpose)
      (σ.beginSend p sendAsProgramm)
    exact .inl ⟨hn, hd, instrs_asTag _⟩
  | analyzeRest s =>
    refine .inl ⟨rfl, rfl, fun t => ?_⟩
    simp only [exec, instrs]
    split_ifs <;> simp [asTag]
  | eventDispatch s =>
    simp only [exec]
    split
    · exact .inr ⟨_, rfl, rfl, rfl⟩
    · exact .inl ⟨rfl, rfl, fun _ => List.not_mem_nil⟩
  | selectionSend set select =>
    refine .inl ⟨rfl, rfl, fun t => ?_⟩
    simp only [exec]
    split_ifs
    · exact List.not_mem_nil
    · exact instrs_asTag _ t
  | selectBack => exact .inl ⟨rfl, rfl, instrs_asTag _⟩
  | queue s =>
    simp only [exec]
    exact .inl ⟨trivial, trivial, fun _ => List.not_mem_nil⟩
  | transmit s => exact .inl ⟨rfl, rfl, fun _ => List.not_mem_nil⟩
  | programmEnd => exact .inl ⟨rfl, rfl, fun _ => List.not_mem_nil⟩
  | jitAssign set => exact .inl ⟨rfl, rfl, fun _ => List.not_mem_nil⟩
  | clear => exact .inl ⟨rfl, rfl, fun _ => List.not_mem_nil⟩

theorem PacketCall.exec_data (p : PacketCall) (σ : PacketCore) :
    (p.exec G σ).2.nextBlock = σ.nextBlock ∧ (p.exec G σ).2.eventData = σ.eventData := by
  cases p with
  | sendAction size set a flagReduceAPM sendAsProgramm =>
    simp only [exec]
    split <;> exact ⟨rfl, rfl⟩
  | _ => exact ⟨rfl, rfl⟩

theorem PacketCall.execIn_data (tag : Option EventBlock) (p : PacketCall) (σ : PacketState) :
    (p.execIn G tag σ).2.core.nextBlock = σ.core.nextBlock ∧
      (p.execIn G tag σ).2.core.eventData = σ.core.eventData := by
  rcases p.execIn_core G tag σ with ⟨-, h⟩ | ⟨-, b, -, -, h⟩
  · rw [h]
    exact p.exec_data σ.core
  · rw [h]
    exact ⟨rfl, rfl⟩

theorem PacketCall.execIn_dataReads (tag : Option EventBlock) (p : PacketCall) (σ : PacketState)
    (h : p = .readEventData → tag = none) :
    (p.execIn G tag σ).2.dataReads = σ.dataReads := by
  cases p with
  | readEventData =>
    rw [h rfl]
    rfl
  | discardAction =>
    cases tag with
    | none => rfl
    | some own =>
      simp only [execIn]
      split <;> rfl
  | _ => rfl

theorem lift_asTag (l : List (UserOp PacketCall)) (t : EventBlock) :
    some t ∉ (l.map (Client.lift (C := packetClient G))).map asTag := by
  intro ht
  obtain ⟨o, ho, htag⟩ := List.mem_map.mp ht
  obtain ⟨u, -, rfl⟩ := List.mem_map.mp ho
  cases u <;> cases htag

/-- Where a tag comes from when an operation is executed: the dispatch entered carries the
operation's own, and every other one is in the operation's code or was there before. -/
theorem exec_tags {o : PacketOp} {here : Option (Dispatch EventBlock)}
    {g : Globals (packetClient G)} {fs : List (Dispatch EventBlock)} {k : List PacketOp}
    {t : Option EventBlock}
    (ht : t ∈ tagsOf ((exec o here g).enter.toList ++ fs.modifyHead (exec o here g).touch)
      ((exec o here g).code ++ k)) :
    t ∈ (exec o here g).code.map asTag ∨ t ∈ tagsOf fs (o :: k) := by
  have henter : ∀ f, (exec o here g).enter = some f → f.tag = asTag o := by
    intro f hf
    cases o with
    | dispatch evt tag =>
      simp only [exec] at hf
      split at hf
      · cases hf
      · obtain rfl := Option.some.inj hf
        rfl
    | _ => cases hf
  have htouch : ∀ f, ((exec o here g).touch f).tag = f.tag := by
    intro f
    cases o with
    | dispatch evt tag => simp only [exec]; split <;> rfl
    | _ => rfl
  rcases mem_tagsOf.mp ht with hfs | hk
  · rw [List.map_append] at hfs
    rcases List.mem_append.mp hfs with hnew | hold
    · obtain ⟨f, hf, rfl⟩ := List.mem_map.mp hnew
      rw [henter f (Option.mem_toList.mp hf)]
      exact .inr (mem_tagsOf.mpr (.inr List.mem_cons_self))
    · right
      refine mem_tagsOf.mpr (.inl ?_)
      cases fs with
      | nil => exact hold
      | cons f fs =>
        rw [List.modifyHead_cons, List.map_cons, htouch] at hold
        exact hold
  · rw [List.map_append] at hk
    rcases List.mem_append.mp hk with hcode | hold
    · exact .inl hcode
    · exact .inr (mem_tagsOf.mpr (.inr (List.mem_cons_of_mem _ hold)))

/-- An operation that is no instruction does not reach the client. -/
theorem exec_noInstr {o : PacketOp} {here : Option (Dispatch EventBlock)}
    {g : Globals (packetClient G)} (hi : ∀ i, o ≠ .instr i) :
    (exec o here g).globals.client = g.client ∧ (exec o here g).code = [] := by
  cases o with
  | dispatch evt tag => simp only [exec]; split <;> exact ⟨rfl, rfl⟩
  | instr i => exact absurd rfl (hi i)
  | _ => exact ⟨rfl, rfl⟩

namespace PacketMachine

/-- The tags of the dispatches under way, and of those about to begin. -/
def tags (c : PacketMachine G) : List (Option EventBlock) := tagsOf c.infos c.cont

theorem blocks_step {beh : ℕ → List (UserOp PacketCall)} {c : PacketMachine G}
    (h : BlocksOk c.tags c.core) : BlocksOk (tags (step beh c)) (core (step beh c)) := by
  refine Lang.step_rule (lang (packetClient G)) _
    (Ψ := fun fs k g => BlocksOk (tagsOf fs k) g.client.core) h ?_ ?_
  · intro o ho
    have hk := Lang.cont_eq_cons ho
    rw [tags, hk] at h
    show BlocksOk (tagsOf ((exec o c.here c.globals).enter.toList ++
      c.infos.modifyHead (exec o c.here c.globals).touch)
      ((exec o c.here c.globals).code ++ c.cont.tail)) (exec o c.here c.globals).globals.client.core
    by_cases hi : ∀ i, o ≠ .instr i
    · obtain ⟨hg, hcode⟩ := exec_noInstr hi
      rw [hg]
      refine h.mono fun t ht => (exec_tags ht).resolve_left ?_
      rw [hcode]
      exact List.not_mem_nil
    · push Not at hi
      obtain ⟨code, rfl⟩ := hi
      cases code with
      | call p =>
        obtain ⟨hn, hd⟩ := p.execIn_data (c.here.bind Dispatch.tag) c.globals.client
        refine (h.mono fun t ht => (exec_tags ht).resolve_left ?_).congr hn hd
        exact instrs_asTag _ t
      | instr i =>
        rcases i.exec_data c.core with ⟨hn, hd, hnew⟩ | ⟨d, hn, hd, hnew⟩
        · exact (h.mono fun t ht => (exec_tags ht).resolve_left (hnew t)).congr hn hd
        · refine h.push d (fun t ht => (exec_tags ht).imp_left fun hcode => ?_) hn hd
          exact Option.some.inj (List.mem_singleton.mp (hnew ▸ hcode))
  · intro f fs hn hf
    have hr := resume_keepsClient f c.globals
    rw [show (lang (packetClient G)).resume = resume from rfl]
    rw [tags, hf] at h
    cases hres : resume f c.globals with
    | call f' g =>
      rw [hres] at hr
      refine (h.mono fun t ht => ?_).congr (congrArg (·.core.nextBlock) hr.2)
        (congrArg (·.core.eventData) hr.2)
      rcases mem_tagsOf.mp ht with hfs | hk
      · rw [List.map_cons, hr.1] at hfs
        exact mem_tagsOf.mpr (.inl hfs)
      · rw [List.map_append] at hk
        exact mem_tagsOf.mpr (.inr ((List.mem_append.mp hk).resolve_left (lift_asTag _ t)))
    | skip f' g =>
      rw [hres] at hr
      refine (h.mono fun t ht => ?_).congr (congrArg (·.core.nextBlock) hr.2)
        (congrArg (·.core.eventData) hr.2)
      rwa [tagsOf, List.map_cons, hr.1] at ht
    | leave g =>
      rw [hres] at hr
      exact (h.mono fun t ht => List.mem_cons_of_mem _ ht).congr
        (congrArg (·.core.nextBlock) hr) (congrArg (·.core.eventData) hr)

/-! ## The reads -/

theorem here_tag {c : PacketMachine G} {own : EventBlock}
    (h : c.here.bind Dispatch.tag = some own) : some own ∈ c.tags := by
  obtain ⟨f, hf, htag⟩ := Option.bind_eq_some_iff.mp h
  refine mem_tagsOf.mpr (.inl (List.mem_map.mpr ⟨f, ?_, htag⟩))
  exact List.mem_of_mem_head? hf

theorem step_read {beh : ℕ → List (UserOp PacketCall)} {c : PacketMachine G} {own : EventBlock}
    (hn : c.next = some (.instr (.call .readEventData)))
    (hown : c.here.bind Dispatch.tag = some own) :
    (step beh c).globals.client.dataReads =
      c.globals.client.dataReads ++ [⟨own, c.core.eventData⟩] := by
  have hg := (Lang.step_exec (lang (packetClient G)) (fun k => (beh k).map Client.lift) hn).1
  rw [show (step beh c).globals = _ from hg]
  show (PacketCall.execIn G (c.here.bind Dispatch.tag) .readEventData c.globals.client).2.dataReads
    = _
  rw [hown]
  rfl

/-- A step reads the event's data, or leaves the reads as they were. -/
theorem dataReads_step (beh : ℕ → List (UserOp PacketCall)) (c : PacketMachine G) :
    (step beh c).globals.client.dataReads = c.globals.client.dataReads ∨
    (c.next = some (.instr (.call .readEventData)) ∧
      ∃ own, c.here.bind Dispatch.tag = some own) := by
  refine Lang.infos_step (lang (packetClient G)) _
    (Ψ := fun _ g => g.client.dataReads = c.globals.client.dataReads ∨
      (c.next = some (.instr (.call .readEventData)) ∧
        ∃ own, c.here.bind Dispatch.tag = some own)) (.inl rfl) ?_ ?_
  · intro o ho
    show (exec o c.here c.globals).globals.client.dataReads = _ ∨ _
    by_cases hi : ∀ i, o ≠ .instr i
    · exact .inl (congrArg PacketState.dataReads (exec_noInstr hi).1)
    · push Not at hi
      obtain ⟨code, rfl⟩ := hi
      cases code with
      | instr i => exact .inl rfl
      | call p =>
        cases htag : c.here.bind Dispatch.tag with
        | some own =>
          cases p with
          | readEventData => exact .inr ⟨ho, own, rfl⟩
          | _ => exact .inl (PacketCall.execIn_dataReads _ _ _ (by simp))
        | none => exact .inl (PacketCall.execIn_dataReads _ _ _ (by simp [htag]))
  · intro f fs hn hf
    have hr := resume_keepsClient f c.globals
    rw [show (lang (packetClient G)).resume = resume from rfl]
    cases hres : resume f c.globals <;> rw [hres] at hr
    · exact .inl (congrArg PacketState.dataReads hr.2)
    · exact .inl (congrArg PacketState.dataReads hr.2)
    · exact .inl (congrArg PacketState.dataReads hr)

end PacketMachine

/-- A read under the guard finds the data of the reader's own dispatch. -/
theorem DataReadsOk.step {beh : ℕ → List (UserOp PacketCall)} {c : PacketMachine G}
    (hb : BlocksOk c.tags c.core) (h : DataReadsOk c.globals.client) (hok : DataGuard c) :
    DataReadsOk (c.step beh).globals.client := by
  intro r hr
  rcases c.dataReads_step beh with hs | ⟨hn, own, hown⟩
  · exact h r (hs ▸ hr)
  · rw [PacketMachine.step_read hn hown] at hr
    rcases List.mem_append.mp hr with hold | hnew
    · exact h r hold
    · rw [List.mem_singleton.mp hnew]
      exact hb.held own (PacketMachine.here_tag hown) (hok hn own hown)

/-- A read that found its own data met the guard. -/
theorem DataReadsOk.guard {beh : ℕ → List (UserOp PacketCall)} {c : PacketMachine G}
    (hb : BlocksOk c.tags c.core) (h' : DataReadsOk (c.step beh).globals.client) :
    DataGuard c := by
  intro hn own hown
  have hmem : ⟨own, c.core.eventData⟩ ∈ (c.step beh).globals.client.dataReads := by
    rw [PacketMachine.step_read hn hown]
    exact List.mem_append_right _ (List.mem_singleton.mpr rfl)
  exact hb.last own (h' _ hmem)

/-- **The data of an event.** Along a whole run every callback of a dispatch of
`PacketEventDispatch` that reads the event's data finds the data of that dispatch, if and only if it
reads before another `PacketEventDispatch` has put its data into the event object. -/
theorem dataReads_iff (G : Game) (main : List (UserOp PacketCall))
    (beh : ℕ → List (UserOp PacketCall)) :
    (∀ n, DataReadsOk (packetRun G main beh n).globals.client) ↔
      ∀ n, DataGuard (packetRun G main beh n) := by
  refine Run.guarded_iff (P := fun c : PacketMachine G => DataReadsOk c.globals.client)
    (Q := DataGuard) (K := fun c => BlocksOk c.tags c.core) ?_ ?_ ?_ ?_
  · intro c hk hp hok
    exact ⟨c.blocks_step hk, hp.step hk hok⟩
  · intro c hk _ hp'
    exact ⟨c.blocks_step hk, hp'.guard hk⟩
  · refine ⟨fun b hb => (nomatch hb), fun t ht => ?_, fun t ht => ?_⟩ <;>
      exact absurd ht (lift_asTag main t)
  · intro r hr
    exact absurd hr List.not_mem_nil

/-! ## A run in which a listener reads the data of another packet -/

/-- Two listeners of `EVENT_LOCAL_ACTION`, and an order that is sent. -/
def rereadMain : List (UserOp PacketCall) :=
  [.listen 1015 7, .listen 1015 8, .call (.packetSend (.action (.action ⟨0, 11, 0⟩)) false)]

/-- The first listener sends another order, in whose dispatch it does nothing. The second listener
reads the event's data, in both dispatches. -/
def rereadListeners (k : ℕ) : List (UserOp PacketCall) :=
  if k = 0 then [.call (.packetSend (.action (.action ⟨0, 22, 0⟩)) false)]
  else if k = 1 then []
  else [.call .readEventData]

/-- The data of an order that `PacketSend` sends with `sendAsProgramm` unset. -/
def orderData (sender id : ℕ) : ActionEventData :=
  ⟨sender, false, id, .targetNone, 0, 0, 0, 0, 0, none⟩

/-- The second listener is called for order 11 and finds the data of order 22, whose send has
returned. -/
theorem nested_data_read :
    (¬ ∀ n, DataReadsOk (packetRun plainGame rereadMain rereadListeners n).globals.client) ∧
    (packetRun plainGame rereadMain rereadListeners 27).globals.client.dataReads =
      [⟨⟨1, orderData 1 22⟩, some ⟨1, orderData 1 22⟩⟩,
        ⟨⟨0, orderData 0 11⟩, some ⟨1, orderData 1 22⟩⟩] := by
  have hr : (packetRun plainGame rereadMain rereadListeners 27).globals.client.dataReads =
      [⟨⟨1, orderData 1 22⟩, some ⟨1, orderData 1 22⟩⟩,
        ⟨⟨0, orderData 0 11⟩, some ⟨1, orderData 1 22⟩⟩] := by decide +kernel
  refine ⟨fun h => ?_, hr⟩
  have hans := h 27 _ (by rw [hr]; exact List.mem_of_getElem? (i := 1) rfl)
  exact absurd hans (by decide)

end DreamDota
