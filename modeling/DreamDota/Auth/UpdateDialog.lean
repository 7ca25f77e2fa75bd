import DreamDota.Auth.AutoUpdate

/-!
# The lifetime of the update dialog

As long as the dialog ends after `WM_CLOSE` only when the workers have ended, the window is open
while a worker has anything left to do, and `AutoUpdate` deletes nothing before. The message
`WM_EXIT_DIALOG` needs no condition: a handler posts it with its last access, and by then the other
worker has ended or was never started.

1. `Inv`: the invariant of the four threads.
2. `inv_info`, `inv_download`, `inv_dialog`, `inv_main`: each of them keeps it.
3. `inv_event`: so does the user.
-/

namespace DreamDota.AutoUpdate

variable {out : Outcome} {s s' : State}

/-! ## Nothing is used after it was deleted -/

def InfoEnded (s : State) : Prop := s.code (.worker .getInfoThread) = [.closeHandle]

def DownloadIdle (s : State) : Prop := s.code (.worker .downloadThread) = []

structure Inv (s : State) : Prop where
  main : s.code .main ∈ mainCodes
  dialog : s.code .dialog ∈ dialogCodes
  info : s.code (.worker .getInfoThread) ∈ infoCodes
  download : s.code (.worker .downloadThread) ∈ downloadCodes
  infoHandlers : s.HandlersOk .getInfoThread [[], [.onInfoThreadComplete]]
  downloadHandlers : s.HandlersOk .downloadThread knownHandlers
  success : s.updateSuccess = true → s.code (.worker .downloadThread) ∈ successCodes
  notBegun : .runGetInfoThread ∈ s.code .main → s.code (.worker .getInfoThread) = []
  infoRunning : s.RunningOk .getInfoThread
  downloadRunning : s.RunningOk .downloadThread
  started : InfoEnded s ∨ DownloadIdle s
  asked : s.asking = true ∨ .stopSignal ∈ s.code .dialog → .runGetInfoThread ∉ s.code .main
  emptied : s.code .dialog = [.addCancelComplete, .stopSignal, .closeEnd] →
    s.handlers .downloadThread = []
  enabled : s.updateEnabled = true → InfoEnded s ∧ DownloadIdle s
  updating : .runDownloadThread ∈ s.code .dialog → InfoEnded s ∧ DownloadIdle s
  updateStarted : s.code .dialog = [.runDownloadThread] → s.updateEnabled = false
  posted : s.exitPosted = true →
    Ended s ∧ s.updateEnabled = false ∧ .runDownloadThread ∉ s.code .dialog
  exiting : s.code .dialog = [.exitEnd] → Ended s
  closed : s.opened = false → Ended s ∧ s.code .dialog = []
  waiting : s.opened = true → .waitClose ∈ s.code .main ∧ s.deleted = []
  dangling : s.dangling = false

theorem inv_start : Inv start where
  main := by decide
  dialog := by decide
  info := by decide
  download := by decide
  infoHandlers := List.mem_cons_self
  downloadHandlers := List.mem_cons_self
  success := nofun
  notBegun _ := rfl
  infoRunning := nofun
  downloadRunning := nofun
  started := .inr rfl
  asked := by decide
  emptied := nofun
  enabled := nofun
  updating := nofun
  updateStarted := nofun
  posted := nofun
  exiting := nofun
  closed := nofun
  waiting _ := ⟨by decide, rfl⟩
  dangling := rfl

theorem use_nil (s : State) : use [] s = s := by
  unfold use
  rw [List.any_nil, Bool.or_false]

/-- A step of a thread changes nothing, or its next point is executed. -/
theorem step_cases (out : Outcome) (s : State) (t : Thread) :
    step out s t = s ∨ ∃ i rest s' next, s.code t = i :: rest ∧
      exec out i (use i.uses s) = some (s', next) ∧
      step out s t = s'.setCode t (next ++ rest) := by
  unfold step
  cases hcode : s.code t with
  | nil => exact .inl rfl
  | cons i rest =>
    cases he : exec out i (use i.uses s) with
    | none => exact .inl (by simp only [he])
    | some e => exact .inr ⟨i, rest, e.1, e.2, rfl, he, by simp only [he]⟩

theorem code_setCode (s : State) (t : Thread) (code : List Point) :
    (s.setCode t code).code t = code := Function.update_self ..

theorem inv_info (h : Inv s) : Inv (step out s (.worker .getInfoThread)) := by
  rcases step_cases out s (.worker .getInfoThread) with heq | ⟨i, rest, s', next, hcode, he, heq⟩
  · rwa [heq]
  have hbusy : ¬ InfoEnded s := by
    intro hended
    rw [InfoEnded, hcode] at hended
    obtain ⟨rfl, rfl⟩ := List.cons.inj hended
    cases he
  have hexec := exec_info (s := use i.uses s) (hcode ▸ h.info) h.infoHandlers he
  have hframe := workerFrame_of_keeps hcode (keeps_of_exec hexec.owner he) hexec.running
  have hnew := code_setCode s' (.worker .getInfoThread) (next ++ rest)
  rw [heq]
  set s₁ := s'.setCode (.worker .getInfoThread) (next ++ rest)
  have hmain : s₁.code .main = s.code .main := hframe.code _ nofun
  have hdialog : s₁.code .dialog = s.code .dialog := hframe.code _ nofun
  have hdown : s₁.code (.worker .downloadThread) = s.code (.worker .downloadThread) :=
    hframe.code _ (by simp)
  have hdownload : s₁.worker .downloadThread = s.worker .downloadThread := hframe.worker _ nofun
  -- the flags can only have been set at the end of the thread
  have hidle : DownloadIdle s := h.started.resolve_left hbusy
  have hupdating : .runDownloadThread ∉ s.code .dialog := fun hm => hbusy (h.updating hm).1
  have hopened : s.opened = true :=
    by_contra fun hc => hbusy (h.closed (eq_false_of_ne_true hc)).1.1
  have henabled : s.updateEnabled = false :=
    eq_false_of_ne_true fun hs => hbusy (h.enabled hs).1
  have hposted : s.exitPosted = false :=
    eq_false_of_ne_true fun hs => hbusy (h.posted hs).1.1
  have hidle' : DownloadIdle s₁ := hdown.trans hidle
  have hflags : s₁.updateEnabled = true ∨ s₁.exitPosted = true →
      InfoEnded s₁ ∧ ¬ (s₁.updateEnabled = true ∧ s₁.exitPosted = true) := by
    have hsame : s'.updateEnabled = s.updateEnabled ∧ s'.exitPosted = s.exitPosted ∨
        next ++ rest = [.closeHandle] ∧
          (s'.updateEnabled = s.updateEnabled ∨ s'.exitPosted = s.exitPosted) := hexec.flags
    rw [henabled, hposted] at hsame
    have hu : s₁.updateEnabled = s'.updateEnabled := rfl
    have hp : s₁.exitPosted = s'.exitPosted := rfl
    have hi : InfoEnded s₁ ↔ next ++ rest = [.closeHandle] := by rw [InfoEnded, hnew]
    rw [hu, hp, hi]
    rcases hsame with ⟨h₁, h₂⟩ | ⟨hend, h₁ | h₂⟩
    · simp [h₁, h₂]
    · simp [h₁, hend]
    · simp [h₂, hend]
  refine
    { main := hmain ▸ h.main
      dialog := hdialog ▸ h.dialog
      info := hnew ▸ hexec.codes
      download := hdown ▸ h.download
      infoHandlers := hexec.handlers
      downloadHandlers := ?_
      success := fun hs => ?_
      notBegun := fun hm => ?_
      infoRunning := hframe.running h.infoRunning
      downloadRunning := ?_
      started := .inr hidle'
      asked := ?_
      emptied := fun hc => ?_
      enabled := fun hs => ⟨(hflags (.inl hs)).1, hidle'⟩
      updating := fun hm => absurd (hdialog ▸ hm) hupdating
      updateStarted := fun hc => ?_
      posted := fun hs => ?_
      exiting := fun hc => absurd (h.exiting (hdialog ▸ hc)).1 hbusy
      closed := fun hc => ?_
      waiting := fun _ => ?_
      dangling := ?_ }
  · unfold State.HandlersOk State.handlers
    rw [hdownload]
    exact h.downloadHandlers
  · rw [hdown]
    exact h.success (hexec.updateSuccess.symm.trans hs)
  · have hnil := h.notBegun (hmain ▸ hm)
    rw [hcode] at hnil
    cases hnil
  · unfold State.RunningOk State.running
    rw [hdown, hdownload]
    exact h.downloadRunning
  · rw [hmain, hdialog, hframe.asking]
    exact h.asked
  · unfold State.handlers
    rw [hdownload]
    exact h.emptied (hdialog ▸ hc)
  · rw [hdialog] at hc
    exact absurd (by rw [hc]; exact List.mem_cons_self) hupdating
  · obtain ⟨hend, hboth⟩ := hflags (.inr hs)
    refine ⟨⟨hend, .inl hidle'⟩, eq_false_of_ne_true fun hu => hboth ⟨hu, hs⟩, ?_⟩
    rwa [hdialog]
  · rw [hframe.opened, hopened] at hc
    cases hc
  · rw [hmain, hframe.deleted]
    exact h.waiting hopened
  · rw [hframe.dangling (h.waiting hopened).2]
    exact h.dangling

theorem inv_download (h : Inv s) : Inv (step out s (.worker .downloadThread)) := by
  rcases step_cases out s (.worker .downloadThread) with heq | ⟨i, rest, s', next, hcode, he, heq⟩
  · rwa [heq]
  have hbusy : ¬ (DownloadIdle s ∨ s.code (.worker .downloadThread) = [.closeHandle]) := by
    rw [DownloadIdle, hcode]
    rintro (hnil | hended)
    · cases hnil
    · obtain ⟨rfl, rfl⟩ := List.cons.inj hended
      cases he
  have hexec := exec_download (s := use i.uses s) (hcode ▸ h.download) h.downloadHandlers
    (hcode ▸ h.success) he
  have hframe := workerFrame_of_keeps hcode (keeps_of_exec hexec.owner he) hexec.running
  have hnew := code_setCode s' (.worker .downloadThread) (next ++ rest)
  rw [heq]
  set s₁ := s'.setCode (.worker .downloadThread) (next ++ rest)
  have hmain : s₁.code .main = s.code .main := hframe.code _ nofun
  have hdialog : s₁.code .dialog = s.code .dialog := hframe.code _ nofun
  have hinfo : s₁.code (.worker .getInfoThread) = s.code (.worker .getInfoThread) :=
    hframe.code _ (by simp)
  have hgetInfo : s₁.worker .getInfoThread = s.worker .getInfoThread := hframe.worker _ nofun
  have hended : InfoEnded s := h.started.resolve_right fun hidle => hbusy (.inl hidle)
  have hupdating : .runDownloadThread ∉ s.code .dialog := fun hm => hbusy (.inl (h.updating hm).2)
  have hopened : s.opened = true :=
    by_contra fun hc => hbusy (h.closed (eq_false_of_ne_true hc)).1.2
  have henabled : s.updateEnabled = false :=
    eq_false_of_ne_true fun hs => hbusy (.inl (h.enabled hs).2)
  have hposted : s.exitPosted = false :=
    eq_false_of_ne_true fun hs => hbusy (h.posted hs).1.2
  have henabled' : s₁.updateEnabled = false := hexec.updateEnabled.trans henabled
  have hended' : InfoEnded s₁ := hinfo.trans hended
  refine
    { main := hmain ▸ h.main
      dialog := hdialog ▸ h.dialog
      info := hinfo ▸ h.info
      download := hnew ▸ hexec.codes
      infoHandlers := ?_
      downloadHandlers := ?_
      success := fun hs => hnew ▸ hexec.success hs
      notBegun := fun hm => ?_
      infoRunning := ?_
      downloadRunning := hframe.running h.downloadRunning
      started := .inl hended'
      asked := ?_
      emptied := fun hc => hexec.handlers.trans (h.emptied (hdialog ▸ hc))
      enabled := fun hs => absurd (henabled'.symm.trans hs) nofun
      updating := fun hm => absurd (hdialog ▸ hm) hupdating
      updateStarted := fun _ => henabled'
      posted := fun hs => ⟨⟨hended', .inr ?_⟩, henabled', hdialog ▸ hupdating⟩
      exiting := fun hc => absurd (h.exiting (hdialog ▸ hc)).2 hbusy
      closed := fun hc => ?_
      waiting := fun _ => ?_
      dangling := ?_ }
  · unfold State.HandlersOk State.handlers
    rw [hgetInfo]
    exact h.infoHandlers
  · have hw : s₁.handlers .downloadThread = s.handlers .downloadThread := hexec.handlers
    unfold State.HandlersOk
    rw [hw]
    exact h.downloadHandlers
  · rw [hinfo]
    exact h.notBegun (hmain ▸ hm)
  · unfold State.RunningOk State.running
    rw [hinfo, hgetInfo]
    exact h.infoRunning
  · rw [hmain, hdialog, hframe.asking]
    exact h.asked
  · rcases hexec.exitPosted with hsame | hend
    · have hfalse : s₁.exitPosted = false := hsame.trans hposted
      exact absurd (hfalse.symm.trans hs) nofun
    · exact hnew.trans hend
  · rw [hframe.opened, hopened] at hc
    cases hc
  · rw [hmain, hframe.deleted]
    exact h.waiting hopened
  · rw [hframe.dangling (h.waiting hopened).2]
    exact h.dangling

/-! ## The steps of the dialog -/

theorem Inv.setDialog (h : Inv s) {c : List Point} (hc : c ∈ dialogCodes)
    (hopened : s.opened = true)
    (hupdating : .runDownloadThread ∈ c →
      InfoEnded s ∧ DownloadIdle s ∧ s.exitPosted = false)
    (hstarted : c = [.runDownloadThread] → s.updateEnabled = false)
    (hexit : c = [.exitEnd] → Ended s)
    (hasked : .stopSignal ∈ c → .runGetInfoThread ∉ s.code .main)
    (hempty : c = [.addCancelComplete, .stopSignal, .closeEnd] →
      s.handlers .downloadThread = []) : Inv (s.setCode .dialog c) := by
  have hdialog : (s.setCode .dialog c).code .dialog = c := code_setCode ..
  -- the other codes are those of `s` by computation
  exact
    { main := h.main
      dialog := hdialog.symm ▸ hc
      info := h.info
      download := h.download
      infoHandlers := h.infoHandlers
      downloadHandlers := h.downloadHandlers
      success := h.success
      notBegun := h.notBegun
      infoRunning := h.infoRunning
      downloadRunning := h.downloadRunning
      started := h.started
      asked := fun hs => hs.elim (fun hs => h.asked (.inl hs)) fun hs => hasked (hdialog ▸ hs)
      emptied := fun hm => hempty (hdialog ▸ hm)
      enabled := h.enabled
      updating := fun hm => ⟨(hupdating (hdialog ▸ hm)).1, (hupdating (hdialog ▸ hm)).2.1⟩
      updateStarted := fun hm => hstarted (hdialog ▸ hm)
      posted := fun hs => ⟨(h.posted hs).1, (h.posted hs).2.1, fun hm =>
        absurd (hs.symm.trans (hupdating (hdialog ▸ hm)).2.2) nofun⟩
      exiting := fun hm => hexit (hdialog ▸ hm)
      closed := fun hm => absurd (hopened.symm.trans hm) nofun
      waiting := h.waiting
      dangling := h.dangling }

theorem Inv.close (h : Inv s) (hended : Ended s) (hdialog : s.code .dialog = []) :
    Inv { s with opened := false } :=
  { h with
    closed := fun _ => ⟨hended, hdialog⟩
    waiting := nofun }

theorem Inv.ask (h : Inv s) (b : Bool) (hasked : b = true → .runGetInfoThread ∉ s.code .main) :
    Inv { s with asking := b } :=
  { h with asked := fun hs => hs.elim hasked fun hs => h.asked (.inr hs) }

theorem Inv.disable (h : Inv s) : Inv { s with updateEnabled := false } :=
  { h with
    enabled := nofun
    updateStarted := fun _ => rfl
    posted := fun hs => ⟨(h.posted hs).1, rfl, (h.posted hs).2.2⟩ }

theorem Inv.setDownloadHandlers (h : Inv s) (f : WorkerThread Handler → WorkerThread Handler)
    (hrunning : ∀ t, (f t).running = t.running)
    (hhandlers : (s.mapWorker .downloadThread f).HandlersOk .downloadThread knownHandlers)
    (hempty : s.code .dialog = [.addCancelComplete, .stopSignal, .closeEnd] →
      (s.mapWorker .downloadThread f).handlers .downloadThread = []) :
    Inv (s.mapWorker .downloadThread f) :=
  { h with
    downloadHandlers := hhandlers
    emptied := hempty
    downloadRunning := by
      intro hrun
      rw [running_mapWorker] at hrun
      simp only [hrunning] at hrun
      exact h.downloadRunning hrun }

/-- `WorkerThread::Run` of the download. -/
theorem Inv.runDownload (h : Inv s) (hended : InfoEnded s) (hidle : DownloadIdle s)
    (hdisabled : s.updateEnabled = false) (hposted : s.exitPosted = false)
    (hdialog : s.code .dialog = []) (hopened : s.opened = true) : Inv (run .downloadThread s) := by
  have hsuccess : s.updateSuccess = false :=
    eq_false_of_ne_true fun hs => by
      have hmem := h.success hs
      rw [hidle] at hmem
      revert hmem
      decide
  unfold run
  split_ifs
  · exact h
  · set s₁ := (s.mapWorker .downloadThread fun t => (t.setRunning true).setThread true).setCode
      (.worker .downloadThread) (threadProc .downloadThread) with hs₁
    have hcode : s₁.code (.worker .downloadThread) = threadProc .downloadThread :=
      code_setCode ..
    have hhandlers : s₁.handlers .downloadThread = s.handlers .downloadThread :=
      handlers_mapWorker s .downloadThread fun t => (t.setRunning true).setThread true
    exact
      { main := h.main
        dialog := h.dialog
        info := h.info
        download := hcode.symm ▸ by decide
        infoHandlers := h.infoHandlers
        downloadHandlers := by
          unfold State.HandlersOk
          rw [hhandlers]
          exact h.downloadHandlers
        success := fun hs => absurd (hsuccess.symm.trans hs) nofun
        notBegun := h.notBegun
        infoRunning := h.infoRunning
        downloadRunning := fun _ => hcode.symm ▸ by decide
        started := .inl hended
        asked := h.asked
        emptied := fun hm => absurd (hdialog.symm.trans hm) nofun
        enabled := fun hs => absurd (hdisabled.symm.trans hs) nofun
        updating := fun hm => absurd (hdialog ▸ hm : _ ∈ ([] : List Point)) List.not_mem_nil
        updateStarted := fun _ => hdisabled
        posted := fun hs => absurd (hposted.symm.trans hs) nofun
        exiting := fun hm => absurd (hdialog.symm.trans hm) nofun
        closed := fun hs => absurd (hopened.symm.trans hs) nofun
        waiting := h.waiting
        dangling := h.dangling }

theorem setCode_run (s : State) (t : Thread) (w : Worker) (code : List Point)
    (h : t ≠ .worker w) : (run w s).setCode t code = run w (s.setCode t code) := by
  unfold run
  split_ifs with h₁ h₂ h₂
  · rfl
  · exact absurd h₁ h₂
  · exact absurd h₂ h₁
  · exact congrArg
      (fun c => { s.mapWorker w (fun t => (t.setRunning true).setThread true) with code := c })
      (Function.update_comm h.symm _ _ s.code)

/-- A worker that runs has been started by `AutoUpdate`. -/
theorem Inv.begun_of_running (h : Inv s)
    (hrun : (s.running .getInfoThread || s.running .downloadThread) = true) :
    .runGetInfoThread ∉ s.code .main := by
  intro hm
  have hnil := h.notBegun hm
  rcases Bool.or_eq_true_iff.mp hrun with hinfo | hdown
  · have hmem := h.infoRunning hinfo
    rw [hnil] at hmem
    exact List.not_mem_nil hmem
  · have hmem := h.downloadRunning hdown
    rcases h.started with hended | hidle
    · rw [InfoEnded, hnil] at hended
      cases hended
    · rw [hidle] at hmem
      exact List.not_mem_nil hmem

/-- The dialog goes on with the rest of its code. -/
theorem Inv.restDialog (h : Inv s) (hopened : s.opened = true) {i : Point} {rest : List Point}
    (hcode : s.code .dialog = i :: rest) (hc : rest ∈ dialogCodes)
    (hempty : rest ≠ [.addCancelComplete, .stopSignal, .closeEnd])
    (hupdating : .runDownloadThread ∉ rest) (hexit : rest ≠ [.exitEnd]) :
    Inv (s.setCode .dialog rest) :=
  h.setDialog hc hopened (fun hm => absurd hm hupdating)
    (fun hm => absurd (hm ▸ List.mem_cons_self) hupdating) (fun hm => absurd hm hexit)
    (fun hm => h.asked (.inr (hcode ▸ List.mem_cons_of_mem i hm)))
    fun hm => absurd hm hempty

theorem exec_closeTest (out : Outcome) (s : State) :
    exec out .closeTest s =
      if s.worker .getInfoThread = none ∨
          s.running .getInfoThread = false ∧ s.worker .downloadThread = none then
        some ({ s with crashed := true }, [])
      else if s.running .getInfoThread || s.running .downloadThread then
        some ({ s with asking := true }, [])
      else some (s, [.closeEnd]) := rfl

theorem inv_dialog (h : Inv s) (hfin : Finished s (.step .dialog)) :
    Inv (step out s .dialog) := by
  rcases step_cases out s .dialog with heq | ⟨i, rest, s', next, hcode, he, heq⟩
  · rwa [heq]
  rw [heq]
  have hopened : s.opened = true := by
    by_contra hc
    have hnil := (h.closed (eq_false_of_ne_true hc)).2
    rw [hcode] at hnil
    cases hnil
  have hmem := hcode ▸ h.dialog
  simp only [dialogCodes, cancelCode, updateCode, List.tails, List.mem_append, List.mem_cons,
    List.not_mem_nil, or_false, or_assoc, List.cons.injEq, reduceCtorEq] at hmem
  rcases hmem with ⟨rfl, rfl⟩ | ⟨rfl, rfl⟩ | ⟨rfl, rfl⟩ | ⟨rfl, rfl⟩ | ⟨rfl, rfl⟩ | ⟨rfl, rfl⟩ |
    ⟨rfl, rfl⟩ | ⟨rfl, rfl⟩ | ⟨rfl, rfl⟩ <;> simp only [Point.uses, use_nil] at he
  · -- `closeTest`
    have hrest := h.restDialog hopened hcode (by decide) (by simp) (by simp) (by simp)
    rw [exec_closeTest] at he
    split_ifs at he with hnull hrun <;> cases he
    · exact { hrest with }
    · exact hrest.ask true fun _ => h.begun_of_running hrun
    · exact h.setDialog (by decide) hopened (by simp) (by simp) (by simp) (by simp) (by simp)
  · -- `exitEnd`
    cases he
    exact (h.restDialog hopened hcode (by decide) (by simp) (by simp) (by simp)).close
      (h.exiting hcode) rfl
  · -- `setStateCancel`
    cases he
    exact h.restDialog hopened hcode (by decide) (by simp) (by decide) (by simp)
  · -- `removeAll`
    cases he
    have hnone : ((s.mapWorker .downloadThread fun t =>
        { t with onThreadComplete := [] }).handlers .downloadThread) = [] := by
      rw [handlers_mapWorker]
      cases s.worker .downloadThread <;> rfl
    have hempty := h.setDownloadHandlers (fun t => { t with onThreadComplete := [] })
      (fun _ => rfl) (by rw [State.HandlersOk, hnone]; decide) fun _ => hnone
    exact hempty.setDialog (by decide) hopened (by simp) (by simp) (by simp)
      (fun _ => h.asked (.inr (by rw [hcode]; decide))) fun _ => hnone
  · -- `addCancelComplete`
    cases he
    have hnil := h.emptied hcode
    have hadd : ((s.mapWorker .downloadThread fun t =>
        t.addHandler .onCancelComplete).handlers .downloadThread) ∈ knownHandlers := by
      rw [handlers_mapWorker]
      unfold State.handlers at hnil
      cases hw : s.worker .downloadThread with
      | none => decide
      | some t =>
        rw [hw] at hnil
        have hnil : t.onThreadComplete = [] := hnil
        show t.onThreadComplete ++ [.onCancelComplete] ∈ knownHandlers
        rw [hnil]
        decide
    exact (h.restDialog hopened hcode (by decide) (by decide) (by decide)
      (by decide)).setDownloadHandlers _ (fun _ => rfl) hadd fun hm =>
        absurd ((code_setCode ..).symm.trans hm) (by decide)
  · -- `stopSignal`
    cases he
    exact { h.restDialog hopened hcode (by decide) (by decide) (by decide) (by decide) with }
  · -- `closeEnd`
    cases he
    have hended := (hfin rfl).1 (by rw [hcode]; rfl)
    exact (h.restDialog hopened hcode (by decide) (by simp) (by simp) (by simp)).close hended rfl
  · -- `setStateDownloading`
    cases he
    obtain ⟨hended, hidle⟩ := h.updating (by rw [hcode]; decide)
    have hposted : s.exitPosted = false := eq_false_of_ne_true fun hs =>
      (h.posted hs).2.2 (by rw [hcode]; decide)
    exact h.disable.setDialog (by decide) hopened (fun _ => ⟨hended, hidle, hposted⟩)
      (fun _ => rfl) (by simp) (by simp) (by simp)
  · -- `runDownloadThread`
    cases he
    obtain ⟨hended, hidle⟩ := h.updating (by rw [hcode]; decide)
    have hposted : s.exitPosted = false := eq_false_of_ne_true fun hs =>
      (h.posted hs).2.2 (by rw [hcode]; decide)
    have hrest := h.restDialog hopened hcode (by decide) (by simp) (by simp) (by simp)
    rw [setCode_run s .dialog .downloadThread _ (by simp)]
    exact hrest.runDownload hended hidle (h.updateStarted hcode) hposted rfl hopened

/-! ## The steps of `AutoUpdate` -/

/-- `AutoUpdate` goes on with the rest of its code. -/
theorem Inv.restMain (h : Inv s) {i : Point} {rest : List Point}
    (hcode : s.code .main = i :: rest) (hwait : i = .waitClose → s.opened = false) :
    Inv (s.setCode .main rest) := by
  have hmain : (s.setCode .main rest).code .main = rest := code_setCode ..
  have hsub {j : Point} (hj : j ∈ (s.setCode .main rest).code .main) : j ∈ s.code .main := by
    rw [hcode]
    exact List.mem_cons_of_mem i (hmain ▸ hj)
  -- the other codes are those of `s` by computation
  exact
    { h with
      main := by
        have hmem := h.main
        rw [hcode, mainCodes, List.mem_tails] at hmem
        rw [hmain, mainCodes, List.mem_tails]
        exact (List.suffix_cons i rest).trans hmem
      notBegun := fun hm => h.notBegun (hsub hm)
      asked := fun hs hm => h.asked hs (hsub hm)
      waiting := fun hs => by
        obtain ⟨hmem, hnil⟩ := h.waiting hs
        rw [hcode] at hmem
        refine ⟨hmain.symm ▸ (List.mem_cons.mp hmem).resolve_left fun hi => ?_, hnil⟩
        exact absurd ((hwait hi.symm).symm.trans hs) nofun }

/-- `WorkerThread::Run` of the first worker, which has not run before. -/
theorem Inv.runGetInfo (h : Inv s) (hnil : s.code (.worker .getInfoThread) = [])
    (hmain : .runGetInfoThread ∉ s.code .main) : Inv (run .getInfoThread s) := by
  have hbusy : ¬ InfoEnded s := fun hended => nomatch hnil.symm.trans hended
  unfold run
  split_ifs
  · exact h
  · set s₁ := (s.mapWorker .getInfoThread fun t => (t.setRunning true).setThread true).setCode
      (.worker .getInfoThread) (threadProc .getInfoThread) with hs₁
    have hcode : s₁.code (.worker .getInfoThread) = threadProc .getInfoThread := code_setCode ..
    have hhandlers : s₁.handlers .getInfoThread = s.handlers .getInfoThread :=
      handlers_mapWorker s .getInfoThread fun t => (t.setRunning true).setThread true
    exact
      { h with
        info := hcode.symm ▸ by decide
        infoHandlers := by
          unfold State.HandlersOk
          rw [hhandlers]
          exact h.infoHandlers
        notBegun := fun hm => absurd hm hmain
        infoRunning := fun _ => hcode.symm ▸ by decide
        started := .inr (h.started.resolve_left hbusy)
        enabled := fun hs => absurd (h.enabled hs).1 hbusy
        updating := fun hm => absurd (h.updating hm).1 hbusy
        posted := fun hs => absurd (h.posted hs).1.1 hbusy
        exiting := fun hm => absurd (h.exiting hm).1 hbusy
        closed := fun hs => absurd (h.closed hs).1.1 hbusy }

theorem inv_main (h : Inv s) : Inv (step out s .main) := by
  rcases step_cases out s .main with heq | ⟨i, rest, s', next, hcode, he, heq⟩
  · rwa [heq]
  rw [heq]
  have hmem := hcode ▸ h.main
  simp only [mainCodes, autoUpdate, List.tails, List.mem_cons, List.not_mem_nil, or_false,
    List.cons.injEq, reduceCtorEq] at hmem
  have hclosed (hm : .waitClose ∉ s.code .main) : s.opened = false :=
    eq_false_of_ne_true fun hs => hm (h.waiting hs).1
  rcases hmem with ⟨rfl, rfl⟩ | ⟨rfl, rfl⟩ | ⟨rfl, rfl⟩ | ⟨rfl, rfl⟩ | ⟨rfl, rfl⟩ | ⟨rfl, rfl⟩ |
    ⟨rfl, rfl⟩ | ⟨rfl, rfl⟩ <;> simp only [Point.uses, use_nil] at he
  · -- `newGetInfoThread`
    cases he
    exact
      { h.restMain hcode nofun with
        infoHandlers := by
          show [Handler.onInfoThreadComplete] ∈ [[], [Handler.onInfoThreadComplete]]
          decide
        infoRunning := nofun }
  · -- `newDownloadThread`
    cases he
    have hrest := h.restMain hcode nofun
    exact
      { hrest with
        downloadHandlers := by
          show [Handler.onDownloadThreadComplete] ∈ knownHandlers
          decide
        downloadRunning := nofun
        emptied := fun hm => by
          have hasked := h.asked (.inr ((hm : s.code .dialog = _).symm ▸ by decide))
          rw [hcode] at hasked
          exact absurd (by decide) hasked }
  · -- `runGetInfoThread`
    cases he
    rw [setCode_run s .main .getInfoThread _ nofun]
    refine (h.restMain hcode nofun).runGetInfo (h.notBegun (by rw [hcode]; decide)) ?_
    rw [code_setCode]
    decide
  · -- `waitClose`
    unfold exec at he
    cases hopened : s.opened with
    | true => simp [hopened] at he
    | false =>
      simp only [hopened] at he
      cases he
      exact h.restMain hcode fun _ => hopened
  all_goals
    -- the objects are deleted one after the other, and the result is returned
    cases he
    have hopened := hclosed (by rw [hcode]; decide)
    exact
      { h.restMain hcode nofun with
        waiting := fun hs => absurd (hopened.symm.trans hs) nofun }

/-! ## The user -/

theorem inv_event (h : Inv s) {e : Event} (hfin : Finished s e) : Inv (event out s e) := by
  unfold event
  by_cases hcrashed : s.crashed = true
  · rwa [if_pos hcrashed]
  rw [if_neg hcrashed]
  cases e with
  | step t =>
    cases t with
    | main => exact inv_main h
    | dialog => exact inv_dialog h hfin
    | worker w =>
      cases w with
      | getInfoThread => exact inv_info h
      | downloadThread => exact inv_download h
  | close =>
    dsimp only
    split_ifs with hready
    · exact h.setDialog (by decide) hready.1.1 (by simp) nofun nofun (by simp) nofun
    · exact h
  | answer yes =>
    dsimp only
    split_ifs with hready hyes
    · have hasked := h.asked (.inl hready.2)
      have hcancel : Inv (s.setCode .dialog cancelCode) :=
        h.setDialog (by decide) hready.1.1 (by simp [cancelCode]) nofun nofun (fun _ => hasked)
          nofun
      exact { hcancel.ask false nofun with }
    · exact h.ask false nofun
    · exact h
  | update =>
    dsimp only
    split_ifs with hready
    · obtain ⟨hended, hidle⟩ := h.enabled hready.2.2
      have hposted : s.exitPosted = false := eq_false_of_ne_true fun hs =>
        absurd ((h.posted hs).2.1.symm.trans hready.2.2) nofun
      exact h.setDialog (by decide) hready.1.1 (fun _ => ⟨hended, hidle, hposted⟩) nofun nofun
        (by simp) nofun
    · exact h
  | exitMessage =>
    dsimp only
    split_ifs with hready
    · have hexit : Inv (s.setCode .dialog [.exitEnd]) :=
        h.setDialog (by decide) hready.1.1 (by simp) nofun (fun _ => (h.posted hready.2).1)
          (by simp) nofun
      exact { hexit.ask false nofun with posted := nofun }
    · exact h
  | progress =>
    dsimp only
    split_ifs with hwork
    · have hopened : s.opened = true := by
        by_contra hc
        rcases (h.closed (eq_false_of_ne_true hc)).1.2 with hnil | hend
        · rw [hnil] at hwork
          cases hwork
        · rw [hend] at hwork
          cases hwork
      have hnil := (h.waiting hopened).2
      exact
        { h with
          dangling := by
            show (s.dangling || _) = false
            simp [hnil, h.dangling] }
    · exact h

end DreamDota.AutoUpdate
