import DreamDota.Lib.Ledger
import DreamDota.Lib.Session
import Mathlib.Tactic.Abel

/-!
# The handles of the search thread

`NTFindProcessHandle` opens the process of the game, or duplicates a handle of it that a `csrss.exe`
process has. `VerifyWindow` stores the handle, and the search thread does so again and again.

1. `findProcessHandle`, `verifyWindow`, `poll`: the code. A ledger holds the handles.
2. `findProcessHandle_spec`: what the search leaves open besides the handle that it returns.
3. `handles_conserved_iff`: the answers of the system for which nothing is left open.
-/

namespace DreamDota

namespace ThreadSearch

/-! ## The code -/

/-- The part of `SYSTEM_HANDLE_INFORMATION` that is read. -/
structure HandleInformation where
  processId : BitVec 32
  objectTypeNumber : BitVec 8

/-- The answers of the system during one search. The calls in the loops are numbered by the process
and the entry of the table. -/
structure System (H : Type) where
  /-- `OpenProcess` of the game, and whether `AllocateRemoteMemory` succeeds in it. -/
  openProcess : Option H
  allocate : Bool
  /-- `QuerySystemInformation` -/
  handles : Option (List HandleInformation)
  /-- The processes with the name `csrss.exe`, unless there is no snapshot. -/
  snapshot : Option (List (BitVec 32))
  openCsrss : ℕ → Option H
  isProcess : BitVec 8 → Bool
  duplicate : ℕ → ℕ → Option H
  /-- `QueryInformationProcess`, and whether `wcsstr` finds the name. -/
  queryName : ℕ → ℕ → Option Bool
  getProcessId : ℕ → ℕ → BitVec 32

/-- `EnumProcessIdByName`: the buffer and `offset`. -/
def enumProcessIdByName (bufferSize : ℕ) (buffer : List (BitVec 32)) (offset : ℕ) :
    List (BitVec 32) → Option (List (BitVec 32) × ℕ)
  | [] => some (buffer, offset)
  | pid :: pids =>
    if offset < bufferSize then
      if offset * 4 < bufferSize then
        enumProcessIdByName bufferSize (buffer ++ [pid]) (offset + 1) pids
      else none
    else enumProcessIdByName bufferSize buffer (offset + 1) pids

def MAX_CSRSS_COUNT : ℕ := 10

variable {H : Type} [DecidableEq H]

/-- The variables of the search, and the handles. -/
structure Search (H : Type) where
  ledger : Ledger H
  processHandle : Option H
  rv : Option H

/-- `CloseHandle(processHandle)`, if there is one. -/
def Search.close (st : Search H) : Search H :=
  match st.processHandle with
  | some h => { st with ledger := st.ledger.give h, processHandle := none }
  | none => st

/-- The tests of a handle that was duplicated. -/
def System.isTarget (sys : System H) (pid : BitVec 32) (i k : ℕ) : Bool :=
  match sys.queryName i k with
  | none => false
  | some found => if pid ≠ 0 then sys.getProcessId i k = pid else found

/-- `DuplicateHandle` and what follows it. -/
def searchDuplicate (sys : System H) (pid : BitVec 32) (i k : ℕ) (st : Search H) : Search H :=
  match sys.duplicate i k with
  | none => st
  | some h =>
    { ledger := st.ledger.take h
      processHandle := some h
      rv := if sys.isTarget pid i k then some h else st.rv }

/-- The body of the loop over the table. -/
def searchEntry (sys : System H) (pid csrssPID : BitVec 32) (i : ℕ) (st : Search H)
    (item : HandleInformation × ℕ) : Search H :=
  if st.rv.isSome then st
  else if item.1.processId = csrssPID ∧ sys.isProcess item.1.objectTypeNumber then
    searchDuplicate sys pid i item.2 st.close
  else st.close

/-- The body of the loop over the `csrss.exe` processes. -/
def searchCsrss (sys : System H) (pid : BitVec 32) (pids : List (BitVec 32))
    (table : List HandleInformation) (st : Search H) (i : ℕ) : Search H :=
  match sys.openCsrss i with
  | none => st
  | some csrssHandle =>
    let st := { st with ledger := st.ledger.take csrssHandle, processHandle := none }
    let st := table.zipIdx.foldl (searchEntry sys pid (pids.getD i 0) i) st
    if st.rv.isNone then st.close else st

/-- What follows `setjmp`. -/
def searchHandles (sys : System H) (pid : BitVec 32) (ledger : Ledger H) : Option H × Ledger H :=
  match sys.handles, sys.snapshot.bind (enumProcessIdByName MAX_CSRSS_COUNT [] 0) with
  | some table, some (pids, csrssCount) =>
    let st := (List.range csrssCount).foldl (searchCsrss sys pid pids table) ⟨ledger, none, none⟩
    (st.rv, st.ledger)
  | _, _ => (none, ledger)

/-- The first `OpenProcess`. -/
def System.tmp (sys : System H) (pid : BitVec 32) : Option H :=
  if pid ≠ 0 then sys.openProcess else none

/-- `NTFindProcessHandle` -/
def findProcessHandle (sys : System H) (pid : BitVec 32) (ledger : Ledger H) :
    Option H × Ledger H :=
  match sys.tmp pid with
  | some tmp =>
    if sys.allocate then (some tmp, ledger.take tmp) else searchHandles sys pid (ledger.take tmp)
  | none => searchHandles sys pid ledger

structure GameInfo where
  base : BitVec 32
  version : BitVec 32
  cgxDevice : BitVec 32
  cgxDeviceVtable : BitVec 32

/-- `SearchResultType` -/
structure SearchResult (H : Type) where
  version : BitVec 32
  gameBase : BitVec 32
  processId : BitVec 32
  processHandle : Option H
  threadId : BitVec 32
  cgxDevice : BitVec 32
  cgxDeviceVtable : BitVec 32
  win : Option (BitVec 32)

/-- What one turn of the thread meets. -/
structure Poll (H : Type) where
  /-- `FindWar3Window`, and whether the window before is still one. -/
  window : Option (BitVec 32)
  isWindow : Bool
  pid : BitVec 32
  tid : BitVec 32
  sys : System H
  /-- `GetGameInfo` -/
  info : Option GameInfo

/-- `VerifyWindow` -/
def verifyWindow (p : Poll H) (win : BitVec 32) (result : SearchResult H) (ledger : Ledger H) :
    Bool × SearchResult H × Ledger H :=
  let (process, ledger) := findProcessHandle p.sys p.pid ledger
  match process, p.info with
  | some process, some info =>
    (true,
      { result with
        gameBase := info.base
        processHandle := some process
        processId := p.pid
        threadId := p.tid
        version := info.version
        cgxDevice := info.cgxDevice
        cgxDeviceVtable := info.cgxDeviceVtable
        win := some win },
      result.processHandle.toList.foldl Ledger.give ledger)
  | _, _ => (false, result, ledger)

/-- The thread: `win_`, the search result and the handles. -/
structure Thread (H : Type) where
  win : Option (BitVec 32)
  result : SearchResult H
  ledger : Ledger H

/-- `need_verify` -/
def needVerify (t : Thread H) (p : Poll H) : Bool := t.win.isNone || !p.isWindow

/-- The body of the loop of `Work`. -/
def poll (t : Thread H) (p : Poll H) : Thread H :=
  match p.window with
  | none => { t with win := none }
  | some win =>
    if needVerify t p then
      let (found, result, ledger) := verifyWindow p win t.result t.ledger
      ⟨if found then some win else none, result, ledger⟩
    else t

/-! ## The loops -/

/-- The handle that is neither lost nor closed yet. -/
def Search.current (st : Search H) : Option H := st.rv.or st.processHandle

/-- The search holds its current handle besides others. -/
def Search.Holds (st : Search H) (others : Multiset H) : Prop :=
  st.ledger = some (st.current.toList + others)

variable {sys : System H} {pid : BitVec 32} {others : Multiset H} {st : Search H}

theorem Search.Holds.close (h : st.Holds others) (hrv : st.rv = none) :
    st.close.Holds others ∧ st.close.rv = none ∧ st.close.processHandle = none := by
  obtain ⟨ledger, processHandle, rv⟩ := st
  obtain rfl : rv = none := hrv
  cases processHandle with
  | none => exact ⟨h, rfl, rfl⟩
  | some handle =>
    have hledger : ledger = some (handle ::ₘ others) := h
    refine ⟨?_, rfl, rfl⟩
    show ledger.give handle = some (0 + others)
    rw [hledger, Ledger.give_cons, zero_add]

omit [DecidableEq H] in
theorem holds_searchDuplicate (i k : ℕ) (h : st.Holds others) (hrv : st.rv = none)
    (hempty : st.processHandle = none) : (searchDuplicate sys pid i k st).Holds others := by
  unfold searchDuplicate
  cases sys.duplicate i k with
  | none => exact h
  | some handle =>
    obtain ⟨ledger, processHandle, rv⟩ := st
    obtain rfl : rv = none := hrv
    obtain rfl : processHandle = none := hempty
    have hledger : ledger = some (0 + others) := h
    have htake : ledger.take handle = some (([handle] : Multiset H) + others) := by
      rw [hledger, Ledger.take_some, zero_add]
      rfl
    dsimp only
    split_ifs <;> exact htake

theorem holds_searchEntry (csrssPID : BitVec 32) (i : ℕ) (item : HandleInformation × ℕ)
    (h : st.Holds others) : (searchEntry sys pid csrssPID i st item).Holds others := by
  unfold searchEntry
  split_ifs with hrv hitem
  · exact h
  · obtain ⟨hclose, hnone, hempty⟩ := h.close (Option.not_isSome_iff_eq_none.mp hrv)
    exact holds_searchDuplicate i item.2 hclose hnone hempty
  · exact (h.close (Option.not_isSome_iff_eq_none.mp hrv)).1

theorem holds_searchTable (sys : System H) (pid csrssPID : BitVec 32) (i : ℕ)
    (items : List (HandleInformation × ℕ)) (h : st.Holds others) :
    (items.foldl (searchEntry sys pid csrssPID i) st).Holds others := by
  induction items generalizing st with
  | nil => exact h
  | cons item items ih => exact ih (holds_searchEntry csrssPID i item h)

/-- A turn of the outer loop leaves the handle of the `csrss.exe` process open. -/
theorem searchCsrss_spec (sys : System H) (pid : BitVec 32) (pids : List (BitVec 32))
    (table : List HandleInformation) (i : ℕ) (h : st.ledger = some (st.rv.toList + others)) :
    (searchCsrss sys pid pids table st i).ledger =
      some ((searchCsrss sys pid pids table st i).rv.toList +
        ((sys.openCsrss i).toList + others)) := by
  unfold searchCsrss
  cases hopen : sys.openCsrss i with
  | none =>
    show st.ledger = some (st.rv.toList + (0 + others))
    rw [zero_add]
    exact h
  | some csrssHandle =>
    have hstart : Search.Holds ⟨st.ledger.take csrssHandle, none, st.rv⟩
        (csrssHandle ::ₘ others) := by
      unfold Search.Holds Search.current
      rw [h, Ledger.take_some, Option.or_none, Multiset.add_cons]
    have hloop := holds_searchTable sys pid (pids.getD i 0) i table.zipIdx hstart
    dsimp only
    set st' := table.zipIdx.foldl (searchEntry sys pid (pids.getD i 0) i)
      ⟨st.ledger.take csrssHandle, none, st.rv⟩
    split_ifs with hrv
    · obtain ⟨hclose, hnone, hempty⟩ := hloop.close (Option.isNone_iff_eq_none.mp hrv)
      unfold Search.Holds Search.current at hclose
      rw [hnone, hempty] at hclose
      rw [hclose, hnone]
      rfl
    · obtain ⟨handle, hhandle⟩ := Option.ne_none_iff_exists'.mp (mt Option.isNone_iff_eq_none.mpr hrv)
      have hcurrent : st'.current = some handle := by rw [Search.current, hhandle]; rfl
      unfold Search.Holds at hloop
      rw [hloop, hcurrent, hhandle]
      rfl

/-- The `csrss.exe` processes that were opened. -/
def csrssHandles (sys : System H) (count : ℕ) : List H := (List.range count).filterMap sys.openCsrss

omit [DecidableEq H] in
theorem csrssHandles_succ (sys : System H) (count : ℕ) :
    csrssHandles sys (count + 1) = csrssHandles sys count ++ (sys.openCsrss count).toList := by
  unfold csrssHandles
  rw [List.range_succ, List.filterMap_append]
  cases hopen : sys.openCsrss count <;> simp [hopen]

theorem searchLoop_spec (pids : List (BitVec 32)) (table : List HandleInformation) (count : ℕ)
    (live : Multiset H) :
    ((List.range count).foldl (searchCsrss sys pid pids table) ⟨some live, none, none⟩).ledger =
      some (((List.range count).foldl (searchCsrss sys pid pids table)
        ⟨some live, none, none⟩).rv.toList + (csrssHandles sys count + live)) := by
  induction count with
  | zero =>
    show some live = some (0 + (0 + live))
    rw [zero_add, zero_add]
  | succ count ih =>
    have hstep := searchCsrss_spec sys pid pids table count ih
    have hsum : ((csrssHandles sys (count + 1) : List H) : Multiset H) + live =
        (sys.openCsrss count).toList + (csrssHandles sys count + live) := by
      rw [csrssHandles_succ, ← Multiset.coe_add, add_comm (csrssHandles sys count : Multiset H),
        add_assoc]
    rw [List.range_succ, List.foldl_append, List.foldl_cons, List.foldl_nil, hstep, hsum]

/-! ## The search -/

/-- The number of `csrss.exe` processes that are searched. -/
def System.csrssCount (sys : System H) : ℕ :=
  match sys.handles, sys.snapshot.bind (enumProcessIdByName MAX_CSRSS_COUNT [] 0) with
  | some _, some (_, count) => count
  | _, _ => 0

/-- What stays open besides the handle that is returned. -/
def System.leaked (sys : System H) (pid : BitVec 32) : List H :=
  match sys.tmp pid with
  | some tmp => if sys.allocate then [] else tmp :: csrssHandles sys sys.csrssCount
  | none => csrssHandles sys sys.csrssCount

theorem searchHandles_spec (sys : System H) (pid : BitVec 32) (live : Multiset H) :
    (searchHandles sys pid (some live)).2 = some ((searchHandles sys pid (some live)).1.toList +
      (csrssHandles sys sys.csrssCount + live)) := by
  have hnothing : some live = some ((0 : Multiset H) + (0 + live)) := by rw [zero_add, zero_add]
  unfold searchHandles System.csrssCount
  cases sys.handles with
  | none => exact hnothing
  | some table =>
    cases sys.snapshot.bind (enumProcessIdByName MAX_CSRSS_COUNT [] 0) with
    | none => exact hnothing
    | some found => exact searchLoop_spec found.1 table found.2 live

theorem findProcessHandle_spec (sys : System H) (pid : BitVec 32) (live : Multiset H) :
    (findProcessHandle sys pid (some live)).2 =
      some ((findProcessHandle sys pid (some live)).1.toList + (sys.leaked pid + live)) := by
  unfold findProcessHandle System.leaked
  cases sys.tmp pid with
  | none => exact searchHandles_spec sys pid live
  | some tmp =>
    dsimp only
    split_ifs with halloc
    · show some (tmp ::ₘ live) = some ([tmp] + (0 + live))
      rw [zero_add]
      rfl
    · rw [Ledger.take_some, searchHandles_spec, Multiset.add_cons, ← Multiset.cons_coe,
        Multiset.cons_add]

omit [DecidableEq H] in
theorem csrssHandles_eq_nil_iff (sys : System H) (count : ℕ) :
    csrssHandles sys count = [] ↔ ∀ i < count, sys.openCsrss i = none := by
  unfold csrssHandles
  rw [List.filterMap_eq_nil_iff]
  exact forall_congr' fun i => by rw [List.mem_range]

/-- Without a `csrss.exe` process there is nothing to duplicate. -/
theorem searchHandles_eq_none (pid : BitVec 32) (ledger : Ledger H)
    (h : ∀ i < sys.csrssCount, sys.openCsrss i = none) :
    (searchHandles sys pid ledger).1 = none := by
  unfold System.csrssCount at h
  unfold searchHandles
  cases htable : sys.handles with
  | none => rfl
  | some table =>
    cases hfound : sys.snapshot.bind (enumProcessIdByName MAX_CSRSS_COUNT [] 0) with
    | none => rfl
    | some found =>
      rw [htable, hfound] at h
      have hloop : ∀ count ≤ found.2, (List.range count).foldl
          (searchCsrss sys pid found.1 table) ⟨ledger, none, none⟩ = ⟨ledger, none, none⟩ := by
        intro count hcount
        induction count with
        | zero => rfl
        | succ count ih =>
          rw [List.range_succ, List.foldl_append, ih (Nat.le_of_succ_le hcount), List.foldl_cons,
            List.foldl_nil, searchCsrss, h count hcount]
      show ((List.range found.2).foldl (searchCsrss sys pid found.1 table) _).rv = none
      rw [hloop found.2 le_rfl]

/-- Every handle is closed once, or it is the one that is returned. -/
def Conserves (sys : System H) (pid : BitVec 32) : Prop :=
  ∀ live, (findProcessHandle sys pid (some live)).2 =
    some ((findProcessHandle sys pid (some live)).1.toList + live)

/-- If the process of the game can be opened, memory can be allocated in it, and otherwise no
`csrss.exe` process can be opened. -/
def Direct (sys : System H) (pid : BitVec 32) : Prop :=
  match sys.tmp pid with
  | some _ => sys.allocate = true
  | none => ∀ i < sys.csrssCount, sys.openCsrss i = none

omit [DecidableEq H] in
theorem leaked_eq_nil_iff (sys : System H) (pid : BitVec 32) :
    sys.leaked pid = [] ↔ Direct sys pid := by
  unfold System.leaked Direct
  cases sys.tmp pid with
  | none => exact csrssHandles_eq_nil_iff sys sys.csrssCount
  | some tmp =>
    dsimp only
    split_ifs with halloc
    · exact ⟨fun _ => halloc, fun _ => rfl⟩
    · exact ⟨nofun, fun h => absurd h halloc⟩

theorem conserves_iff (sys : System H) (pid : BitVec 32) :
    Conserves sys pid ↔ Direct sys pid := by
  rw [← leaked_eq_nil_iff]
  unfold Conserves
  constructor
  · intro h
    have hempty := (findProcessHandle_spec sys pid 0).symm.trans (h 0)
    have hsum := add_left_cancel (Option.some.inj hempty)
    rwa [add_zero, Multiset.coe_eq_zero] at hsum
  · intro h live
    rw [findProcessHandle_spec, h, Multiset.coe_nil, zero_add]

/-! ## The thread -/

/-- The thread holds the handle of the search result and no other. -/
def HoldsStored (t : Thread H) : Prop :=
  t.ledger = some (t.result.processHandle.toList : Multiset H)

/-- What a turn that looks for the process needs: the search leaves nothing open, and if it finds the
process, `GetGameInfo` succeeds. -/
def Answers (t : Thread H) (p : Poll H) : Prop :=
  p.window.isSome ∧ needVerify t p = true →
    Direct p.sys p.pid ∧ ((p.sys.tmp p.pid).isSome → p.info.isSome)

/-- A handle that is found and not stored. -/
def Poll.unstored (p : Poll H) (ledger : Ledger H) : List H :=
  if p.info.isSome then [] else (findProcessHandle p.sys p.pid ledger).1.toList

theorem verifyWindow_spec (p : Poll H) (win : BitVec 32) (result : SearchResult H) :
    (verifyWindow p win result (some result.processHandle.toList)).2.2 =
      some ((verifyWindow p win result (some result.processHandle.toList)).2.1.processHandle.toList +
        ((p.unstored (some result.processHandle.toList) : Multiset H) + p.sys.leaked p.pid)) := by
  have hfind := findProcessHandle_spec p.sys p.pid result.processHandle.toList
  unfold verifyWindow Poll.unstored
  generalize findProcessHandle p.sys p.pid (some result.processHandle.toList) = found at hfind ⊢
  obtain ⟨process, ledger⟩ := found
  have hledger : ledger = some ((process.toList : Multiset H) +
    (p.sys.leaked p.pid + result.processHandle.toList)) := hfind
  clear hfind
  subst hledger
  cases process with
  | none =>
    show some ((0 : Multiset H) + (p.sys.leaked p.pid + result.processHandle.toList)) = some
      (result.processHandle.toList +
        (((if p.info.isSome then [] else [] : List H) : Multiset H) + p.sys.leaked p.pid))
    rw [ite_self, Multiset.coe_nil]
    congr 1
    abel
  | some process =>
    cases hinfo : p.info with
    | none =>
      show some (([process] : Multiset H) + (p.sys.leaked p.pid + result.processHandle.toList)) = some
        (result.processHandle.toList + (([process] : Multiset H) + p.sys.leaked p.pid))
      congr 1
      abel
    | some info =>
      refine (Ledger.foldl_give_eq_some_iff _ _ _).mpr ?_
      show ([process] : Multiset H) + (p.sys.leaked p.pid + result.processHandle.toList) =
        result.processHandle.toList + (([process] : Multiset H) + (0 + p.sys.leaked p.pid))
      abel

/-- A turn loses what the search leaves open, and a handle that is found and not stored. -/
theorem poll_spec {t : Thread H} (p : Poll H) (h : HoldsStored t) :
    (poll t p).ledger = some ((poll t p).result.processHandle.toList +
      if p.window.isSome ∧ needVerify t p = true then
        (p.unstored t.ledger : Multiset H) + p.sys.leaked p.pid
      else 0) := by
  unfold poll
  cases hwindow : p.window with
  | none =>
    rw [if_neg (fun hboth => Bool.false_ne_true hboth.1), add_zero]
    exact h
  | some win =>
    dsimp only
    by_cases hverify : needVerify t p = true
    · have hboth : (some win).isSome = true ∧ needVerify t p = true := ⟨rfl, hverify⟩
      rw [if_pos hverify, if_pos hboth]
      have hspec := verifyWindow_spec p win t.result
      rw [← show t.ledger = _ from h] at hspec
      exact hspec
    · rw [if_neg hverify, if_neg (fun hboth => hverify hboth.2), add_zero]
      exact h

theorem lost_eq_zero_iff (p : Poll H) (live : Multiset H) :
    (p.unstored (some live) : Multiset H) + p.sys.leaked p.pid = 0 ↔
      Direct p.sys p.pid ∧ ((p.sys.tmp p.pid).isSome → p.info.isSome) := by
  rw [Multiset.coe_add, Multiset.coe_eq_zero, List.append_eq_nil_iff, leaked_eq_nil_iff, and_comm]
  refine and_congr_right fun hdirect => ?_
  have hfound : (findProcessHandle p.sys p.pid (some live)).1 = p.sys.tmp p.pid := by
    unfold Direct at hdirect
    unfold findProcessHandle
    cases htmp : p.sys.tmp p.pid with
    | none =>
      rw [htmp] at hdirect
      exact searchHandles_eq_none p.pid _ hdirect
    | some tmp =>
      rw [htmp] at hdirect
      dsimp only
      rw [if_pos hdirect]
  unfold Poll.unstored
  rw [hfound]
  cases p.info with
  | none => cases p.sys.tmp p.pid <;> simp
  | some info => simp

/-- A turn keeps the thread to the stored handle if and only if the system answers as it needs. -/
theorem holdsStored_poll_iff {t : Thread H} (p : Poll H) (h : HoldsStored t) :
    HoldsStored (poll t p) ↔ Answers t p := by
  unfold HoldsStored Answers
  rw [poll_spec p h, Option.some_inj, add_eq_left]
  split_ifs with hverify
  · rw [show t.ledger = _ from h, lost_eq_zero_iff]
    exact (imp_iff_right hverify).symm
  · exact ⟨fun _ hboth => absurd hboth hverify, fun _ => rfl⟩

/-- For every answer of the system, and every number of turns. -/
theorem handles_conserved_iff (t : Thread H) (h : HoldsStored t) :
    (∀ (sys : System H) pid, Conserves sys pid ↔ Direct sys pid) ∧
      ∀ polls, Session.Always poll t polls HoldsStored ↔ Session.Steps poll t polls Answers :=
  ⟨conserves_iff, fun _ => Session.always_iff_steps (I := fun _ => True)
    (fun _ p _ _ hs hanswers => ⟨trivial, (holdsStored_poll_iff p hs).mpr hanswers⟩)
    (fun _ p _ _ hs hs' => (holdsStored_poll_iff p hs).mp hs') trivial h⟩

/-! ## A run -/

/-- The thread at its start. -/
def startThread : Thread ℕ := ⟨none, ⟨0, 0, 0, none, 0, 0, 0, none⟩, some 0⟩

/-- The process of the game cannot be opened, and the only `csrss.exe` process can. -/
def csrssSystem : System ℕ where
  openProcess := none
  allocate := false
  handles := some [⟨500, 5⟩]
  snapshot := some [500]
  openCsrss _ := some 64
  isProcess number := number == 5
  duplicate _ _ := some 68
  queryName _ _ := some true
  getProcessId _ _ := 1234

theorem handles_conserved_start :
    (∀ (sys : System ℕ) pid, Conserves sys pid ↔ Direct sys pid) ∧
      ∀ polls, Session.Always poll startThread polls HoldsStored ↔
        Session.Steps poll startThread polls Answers :=
  handles_conserved_iff startThread rfl

/-- The handle of the game is found, and the one of `csrss.exe` stays open. -/
theorem csrss_not_conserved : ¬Conserves csrssSystem 1234 := by
  rw [conserves_iff]
  exact fun h => absurd (h 0 (by decide)) (by decide)

end ThreadSearch

end DreamDota
