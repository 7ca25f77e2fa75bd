import DreamDota.Auth.UpdateDialog

/-!
# Cancelled updates

After `RemoveAll` the download has no handler but `onCancelComplete`, so that the update can no
longer succeed if its handlers have not been taken before.

1. `CancelInv`, `cancel_event`: what holds from the confirmation on.
2. `updateOk_run`: nothing is used after it was deleted, and a cancelled update has not succeeded.
-/

namespace DreamDota.AutoUpdate

variable {out : Outcome} {s s' : State}

/-! ## A cancelled update -/

/-- What is known after `RemoveAll`. -/
structure CancelOk (s : State) : Prop where
  updateSuccess : s.updateSuccess = false
  ending : .closeEnd ∈ s.code .dialog ∨ s.opened = false
  download : DownloadIdle s ∨
    CancelCode (s.code (.worker .downloadThread)) (s.handlers .downloadThread)

structure CancelInv (s : State) : Prop where
  begun : s.cancelled = true → .runGetInfoThread ∉ s.code .main
  cancel : s.cancelled = true → .removeAll ∈ s.code .dialog ∨ CancelOk s
  result : s.result = some true → s.cancelled = false ∧ s.opened = false

theorem cancelInv_start : CancelInv start := ⟨nofun, nofun, nofun⟩

theorem CancelInv.of_not (hnot : s.cancelled = false) (hresult : s.result ≠ some true) :
    CancelInv s :=
  ⟨fun hs => absurd (hnot.symm.trans hs) nofun, fun hs => absurd (hnot.symm.trans hs) nofun,
    fun hr => absurd hr hresult⟩

theorem CancelInv.ended (hc : CancelInv s) (hcancelled : s.cancelled = true)
    (hremove : .removeAll ∉ s.code .dialog) (hclose : .closeEnd ∉ s.code .dialog) :
    s.opened = false ∧ CancelOk s := by
  have hok := (hc.cancel hcancelled).resolve_left hremove
  exact ⟨hok.ending.resolve_left hclose, hok⟩

/-- While the dialog does something else, no cancel has been confirmed. -/
theorem CancelInv.not_cancelled (hc : CancelInv s)
    (hopened : s.opened = true) (hremove : .removeAll ∉ s.code .dialog)
    (hclose : .closeEnd ∉ s.code .dialog) : s.cancelled = false :=
  eq_false_of_ne_true fun hs =>
    absurd ((hc.ended hs hremove hclose).1.symm.trans hopened) nofun

theorem cancel_info (h : Inv s) (hc : CancelInv s) :
    CancelInv (step out s (.worker .getInfoThread)) := by
  rcases step_cases out s (.worker .getInfoThread) with heq | ⟨i, rest, s', next, hcode, he, heq⟩
  · rwa [heq]
  have hexec := exec_info (s := use i.uses s) (hcode ▸ h.info) h.infoHandlers he
  have hframe := workerFrame_of_keeps hcode (keeps_of_exec hexec.owner he) hexec.running
  have hsuccess : s'.updateSuccess = s.updateSuccess := hexec.updateSuccess
  rw [heq]
  have hdialog := hframe.code .dialog nofun
  have hdown := hframe.code (.worker .downloadThread) (by simp)
  have hdownload := hframe.worker .downloadThread nofun
  refine ⟨?_, fun hs => ?_, ?_⟩
  · rw [hframe.cancelled, hframe.code .main nofun]
    exact hc.begun
  · rw [hframe.cancelled] at hs
    rw [hdialog]
    refine (hc.cancel hs).imp_right fun hok => ⟨hsuccess.trans hok.updateSuccess, ?_, ?_⟩
    · rw [hdialog, hframe.opened]
      exact hok.ending
    · unfold DownloadIdle State.handlers
      rw [hdown, hdownload]
      exact hok.download
  · rw [hframe.result, hframe.cancelled, hframe.opened]
    exact hc.result

theorem cancel_download (h : Inv s) (hc : CancelInv s) :
    CancelInv (step out s (.worker .downloadThread)) := by
  rcases step_cases out s (.worker .downloadThread) with heq | ⟨i, rest, s', next, hcode, he, heq⟩
  · rwa [heq]
  have hexec := exec_download (s := use i.uses s) (hcode ▸ h.download) h.downloadHandlers
    (hcode ▸ h.success) he
  have hframe := workerFrame_of_keeps hcode (keeps_of_exec hexec.owner he) hexec.running
  have hcancel : CancelCode (i :: rest) (s.handlers .downloadThread) →
      CancelCode (next ++ rest) (s.handlers .downloadThread) ∧
        (s.updateSuccess = false → s'.updateSuccess = false) := hexec.cancel
  have hhandlers : s'.handlers .downloadThread = s.handlers .downloadThread := hexec.handlers
  rw [heq]
  have hdialog := hframe.code .dialog nofun
  refine ⟨?_, fun hs => ?_, ?_⟩
  · rw [hframe.cancelled, hframe.code .main nofun]
    exact hc.begun
  · rw [hframe.cancelled] at hs
    rw [hdialog]
    refine (hc.cancel hs).imp_right fun hok => ?_
    have hdown := hok.download
    rw [DownloadIdle, hcode] at hdown
    obtain ⟨hnext, hkeep⟩ := hcancel (hdown.resolve_left (List.cons_ne_nil _ _))
    refine ⟨hkeep hok.updateSuccess, ?_, .inr ?_⟩
    · rw [hdialog, hframe.opened]
      exact hok.ending
    · rw [code_setCode]
      show CancelCode _ (s'.handlers .downloadThread)
      rwa [hhandlers]
  · rw [hframe.result, hframe.cancelled, hframe.opened]
    exact hc.result

theorem cancel_dialog (h : Inv s) (hc : CancelInv s) (hfin : Finished s (.step .dialog)) :
    CancelInv (step out s .dialog) := by
  rcases step_cases out s .dialog with heq | ⟨i, rest, s', next, hcode, he, heq⟩
  · rwa [heq]
  rw [heq]
  have hopened : s.opened = true := by
    by_contra hclosed
    have hnil := (h.closed (eq_false_of_ne_true hclosed)).2
    rw [hcode] at hnil
    cases hnil
  have hresult : s.result ≠ some true := fun hr =>
    absurd ((hc.result hr).2.symm.trans hopened) (by decide)
  have hother (hremove : .removeAll ∉ i :: rest) (hclose : .closeEnd ∉ i :: rest) :
      s.cancelled = false := hc.not_cancelled hopened (hcode ▸ hremove) (hcode ▸ hclose)
  have hmem := hcode ▸ h.dialog
  simp only [dialogCodes, cancelCode, updateCode, List.tails, List.mem_append, List.mem_cons,
    List.not_mem_nil, or_false, or_assoc, List.cons.injEq, reduceCtorEq] at hmem
  rcases hmem with ⟨rfl, rfl⟩ | ⟨rfl, rfl⟩ | ⟨rfl, rfl⟩ | ⟨rfl, rfl⟩ | ⟨rfl, rfl⟩ | ⟨rfl, rfl⟩ |
    ⟨rfl, rfl⟩ | ⟨rfl, rfl⟩ | ⟨rfl, rfl⟩ <;> simp only [Point.uses, use_nil] at he
  · -- `closeTest`
    have hnot := hother (by decide) (by decide)
    rw [exec_closeTest] at he
    split_ifs at he <;> cases he <;> exact .of_not hnot hresult
  · -- `exitEnd`
    have hnot := hother (by decide) (by decide)
    cases he
    exact .of_not hnot hresult
  · -- `setStateCancel`
    cases he
    refine ⟨hc.begun, fun _ => .inl ?_, fun hr => absurd hr hresult⟩
    rw [code_setCode]
    decide
  · -- `removeAll`
    cases he
    refine ⟨hc.begun, fun hs => .inr ?_, fun hr => absurd hr hresult⟩
    have hnot := (hfin rfl).2 (by rw [hcode]; rfl) hs
    have hnone : ((s.mapWorker .downloadThread fun t =>
        { t with onThreadComplete := [] }).handlers .downloadThread) = [] := by
      rw [handlers_mapWorker]
      cases s.worker .downloadThread <;> rfl
    refine ⟨eq_false_of_ne_true fun hsuccess => ?_, .inl ?_, ?_⟩
    · have hcodes := h.success hsuccess
      simp only [successCodes, List.mem_cons, List.not_mem_nil, or_false] at hcodes
      rcases hcodes with hd | hd <;> rw [NotInvoked, hd] at hnot <;> revert hnot <;> decide
    · rw [code_setCode]
      decide
    · refine hnot.imp_right fun hinvoke => .inl ⟨hinvoke, ?_⟩
      show (s.mapWorker .downloadThread fun t =>
        { t with onThreadComplete := [] }).handlers .downloadThread ∈ _
      rw [hnone]
      decide
  · -- `addCancelComplete`
    cases he
    refine ⟨hc.begun, fun hs => .inr ?_, fun hr => absurd hr hresult⟩
    have hok := (hc.cancel hs).resolve_left (by rw [hcode]; decide)
    refine ⟨hok.updateSuccess, .inl (by rw [code_setCode]; decide), ?_⟩
    refine hok.download.imp_right fun hcancel => hcancel.imp_left fun hsafe => ⟨hsafe.1, ?_⟩
    have hnil := h.emptied hcode
    show (s.mapWorker .downloadThread fun t =>
        t.addHandler .onCancelComplete).handlers .downloadThread ∈ _
    rw [handlers_mapWorker]
    unfold State.handlers at hnil
    cases hw : s.worker .downloadThread with
    | none => exact List.mem_cons_self
    | some t =>
      rw [hw] at hnil
      have hnil : t.onThreadComplete = [] := hnil
      show t.onThreadComplete ++ [.onCancelComplete] ∈ _
      rw [hnil]
      decide
  · -- `stopSignal`
    cases he
    refine ⟨hc.begun, fun hs => .inr ?_, fun hr => absurd hr hresult⟩
    have hok := (hc.cancel hs).resolve_left (by rw [hcode]; decide)
    exact ⟨hok.updateSuccess, .inl (by rw [code_setCode]; decide), hok.download⟩
  · -- `closeEnd`
    cases he
    refine ⟨hc.begun, fun hs => .inr ?_, fun hr => absurd hr hresult⟩
    have hok := (hc.cancel hs).resolve_left (by rw [hcode]; decide)
    exact ⟨hok.updateSuccess, .inr rfl, hok.download⟩
  · -- `setStateDownloading`
    have hnot := hother (by decide) (by decide)
    cases he
    exact .of_not hnot hresult
  · -- `runDownloadThread`
    have hnot := hother (by decide) (by decide)
    cases he
    have hrun : (run .downloadThread s).cancelled = s.cancelled ∧
        (run .downloadThread s).result = s.result := by
      unfold run
      split_ifs <;> exact ⟨rfl, rfl⟩
    exact .of_not (hrun.1.trans hnot) (hrun.2.symm ▸ hresult)

theorem CancelInv.setMain (hc : CancelInv s) {i : Point} {rest : List Point}
    (hcode : s.code .main = i :: rest) : CancelInv (s.setCode .main rest) := by
  refine ⟨fun hs hm => hc.begun hs ?_, fun hs => ?_, hc.result⟩
  · rw [code_setCode] at hm
    rw [hcode]
    exact List.mem_cons_of_mem i hm
  · exact (hc.cancel hs).imp_right fun hok => ⟨hok.updateSuccess, hok.ending, hok.download⟩

theorem cancel_main (h : Inv s) (hc : CancelInv s) : CancelInv (step out s .main) := by
  rcases step_cases out s .main with heq | ⟨i, rest, s', next, hcode, he, heq⟩
  · rwa [heq]
  rw [heq]
  have hmem := hcode ▸ h.main
  have hrest := hc.setMain hcode
  simp only [mainCodes, autoUpdate, List.tails, List.mem_cons, List.not_mem_nil, or_false,
    List.cons.injEq, reduceCtorEq] at hmem
  have hbefore (hm : .runGetInfoThread ∈ i :: rest) :
      s.cancelled = false ∧ s.result ≠ some true := by
    refine ⟨eq_false_of_ne_true fun hs => hc.begun hs (hcode ▸ hm), fun hr => ?_⟩
    have hended := (h.closed (hc.result hr).2).1.1
    have hnil := h.notBegun (hcode ▸ hm)
    rw [hnil] at hended
    cases hended
  rcases hmem with ⟨rfl, rfl⟩ | ⟨rfl, rfl⟩ | ⟨rfl, rfl⟩ | ⟨rfl, rfl⟩ | ⟨rfl, rfl⟩ | ⟨rfl, rfl⟩ |
    ⟨rfl, rfl⟩ | ⟨rfl, rfl⟩ <;> simp only [Point.uses, use_nil] at he
  · -- `newGetInfoThread`
    obtain ⟨hnot, hresult⟩ := hbefore (by decide)
    cases he
    exact .of_not hnot hresult
  · -- `newDownloadThread`
    obtain ⟨hnot, hresult⟩ := hbefore (by decide)
    cases he
    exact .of_not hnot hresult
  · -- `runGetInfoThread`
    obtain ⟨hnot, hresult⟩ := hbefore (by decide)
    cases he
    have hrun : (run .getInfoThread s).cancelled = s.cancelled ∧
        (run .getInfoThread s).result = s.result := by
      unfold run
      split_ifs <;> exact ⟨rfl, rfl⟩
    exact .of_not (hrun.1.trans hnot) (hrun.2.symm ▸ hresult)
  · -- `waitClose`
    unfold exec at he
    cases hopened : s.opened with
    | true => simp [hopened] at he
    | false =>
      simp only [hopened] at he
      cases he
      exact hrest
  · cases he
    exact { hrest with
      cancel := fun hs => (hrest.cancel hs).imp_right fun hok => { hok with } }
  · cases he
    exact { hrest with
      cancel := fun hs => (hrest.cancel hs).imp_right fun hok => { hok with } }
  · cases he
    exact { hrest with
      cancel := fun hs => (hrest.cancel hs).imp_right fun hok => { hok with } }
  · -- `returnResult`
    cases he
    have hopened : s.opened = false := eq_false_of_ne_true fun hs => by
      have hwait := (h.waiting hs).1
      rw [hcode] at hwait
      exact absurd hwait (by decide)
    refine
      { begun := hrest.begun
        cancel := fun hs => (hrest.cancel hs).imp_right fun hok => { hok with }
        result := fun hr => ⟨eq_false_of_ne_true fun hs => ?_, hopened⟩ }
    have hnil := (h.closed hopened).2
    have hok := (hc.cancel hs).resolve_left (by rw [hnil]; decide)
    exact absurd (hok.updateSuccess.symm.trans (Option.some.inj hr)) (by decide)

theorem cancel_event (h : Inv s) (hc : CancelInv s) {e : Event} (hfin : Finished s e) :
    CancelInv (event out s e) := by
  unfold event
  by_cases hcrashed : s.crashed = true
  · rwa [if_pos hcrashed]
  rw [if_neg hcrashed]
  have hidle (hready : Ready s) : s.cancelled = false ∧ s.result ≠ some true := by
    refine ⟨hc.not_cancelled hready.1 ?_ ?_, fun hr => ?_⟩
    · rw [hready.2]
      decide
    · rw [hready.2]
      decide
    · exact absurd ((hc.result hr).2.symm.trans hready.1) nofun
  cases e with
  | step t =>
    cases t with
    | main => exact cancel_main h hc
    | dialog => exact cancel_dialog h hc hfin
    | worker w =>
      cases w with
      | getInfoThread => exact cancel_info h hc
      | downloadThread => exact cancel_download h hc
  | close =>
    dsimp only
    split_ifs with hready
    · exact .of_not (hidle hready.1).1 (hidle hready.1).2
    · exact hc
  | answer yes =>
    dsimp only
    split_ifs with hready hyes
    · refine ⟨fun _ => h.asked (.inl hready.2), fun _ => .inl ?_,
        fun hr => absurd hr (hidle hready.1).2⟩
      show Point.removeAll ∈ Function.update s.code .dialog cancelCode .dialog
      rw [Function.update_self]
      decide
    · exact .of_not (hidle hready.1).1 (hidle hready.1).2
    · exact hc
  | update =>
    dsimp only
    split_ifs with hready
    · exact .of_not (hidle hready.1).1 (hidle hready.1).2
    · exact hc
  | exitMessage =>
    dsimp only
    split_ifs with hready
    · exact .of_not (hidle hready.1).1 (hidle hready.1).2
    · exact hc
  | progress =>
    dsimp only
    split_ifs
    · exact { hc with cancel := fun hs => (hc.cancel hs).imp_right fun hok => { hok with } }
    · exact hc

/-! ## Runs -/

/-- In a run in which the dialog ends after `WM_CLOSE` only when the workers have ended, and a
confirmed cancel replaces the handlers before they are taken, nothing is used after it was deleted,
and a cancelled update has not succeeded. -/
theorem updateOk_run (out : Outcome) (events : List Event)
    (h : Session.Steps (event out) start events Finished) :
    Session.Always (event out) start events UpdateOk := by
  have hinv : Session.Always (event out) start events fun s => Inv s ∧ CancelInv s :=
    .of_steps (fun _ _ _ hs hfin => ⟨inv_event hs.1 hfin, cancel_event hs.1 hs.2 hfin⟩)
      ⟨inv_start, cancelInv_start⟩ h
  exact hinv.mono fun s hs => ⟨hs.1.dangling, fun hcancelled hr =>
    absurd ((hs.2.result hr).1.symm.trans hcancelled) nofun⟩

/-- The download succeeds and the installer is started. -/
def updatedEvents : List Event :=
  List.replicate 3 (Event.step .main) ++ List.replicate 9 (Event.step (.worker .getInfoThread)) ++
    [Event.step (.worker .getInfoThread), Event.update, Event.step .dialog, Event.step .dialog] ++
    List.replicate 10 (Event.step (.worker .downloadThread)) ++
    [Event.exitMessage, Event.step .dialog] ++ List.replicate 5 (Event.step .main)

theorem updateOk_updated :
    Session.Always (event ⟨true, true, true⟩) start updatedEvents UpdateOk ∧
      (updatedEvents.foldl (event ⟨true, true, true⟩) start).result = some true :=
  ⟨updateOk_run _ _ (by decide), by decide⟩

/-- The first worker still runs when the cancel is confirmed: it goes on to use what has been
deleted. -/
theorem not_updateOk_cancelled :
    ¬ Session.Always (event ⟨true, true, true⟩) start
      (List.replicate 3 (Event.step .main) ++
        [Event.step (.worker .getInfoThread), Event.close, Event.step .dialog,
          Event.answer true] ++
        List.replicate 5 (Event.step .dialog) ++ List.replicate 4 (Event.step .main) ++
        [Event.step (.worker .getInfoThread)])
      UpdateOk := fun h => absurd h.last.1 (by decide)

end DreamDota.AutoUpdate
