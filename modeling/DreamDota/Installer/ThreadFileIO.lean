import Mathlib.Data.List.TakeWhile
import Mathlib.Data.Nat.Find
import Mathlib.Tactic.Common

/-!
# The installer

`ThreadFileIO::Work` writes the files of the installer one by one, and asks the user when a file
could not be written; `onComplete` reads the result of the thread. A cancelled file sets the result
to false, and the end of `Work` sets it to true.

1. `retryLoop_eq`: a file, up to the attempt that ends its loop.
2. `work_eq`: what `Work` does, for enough fuel.
3. `installOk_iff`: the installations whose result is right.
-/

namespace DreamDota

namespace ThreadFileIO

/-! ## The files and the user -/

abbrev Text := List Char

/-- The answer to the question whether to try again. -/
inductive Answer where
  | retry
  | cancel
  deriving DecidableEq

/-- A round of the loop: whether `_wfopen_s` opens the file, `fwrite` takes all of it, and `fclose`
writes what is still buffered; and the answer to the question, if there is one. -/
structure Try where
  opened : Bool
  wrote : Bool
  closed : Bool
  answer : Answer
  deriving DecidableEq

/-- The condition of the branch without a question. -/
def Try.ok (t : Try) : Bool := t.opened && t.wrote

/-- The round is the last one of the file. -/
def Try.Ends (t : Try) : Prop := t.ok = true ∨ t.answer = .cancel

instance : DecidablePred Try.Ends := fun t => by unfold Try.Ends; infer_instance

/-- A file of the list and what happens to it. A question is answered with cancel, or some attempt
succeeds. -/
structure FileInfo where
  name : Text
  /-- What `FindResource`, `LoadResource` and `LockResource` find; `none` when one of them fails. -/
  resource : Option (List (BitVec 8))
  tries : ℕ → Try
  ends : ∃ n, (tries n).Ends

/-- The attempt that ends the loop. -/
def FileInfo.last (f : FileInfo) : Try := f.tries (Nat.find f.ends)

inductive LocaleId where
  | enUS
  | zhCN
  deriving DecidableEq

/-- What stands before the path in `LocaleString::WRITE_ERR`. -/
def writeErr : LocaleId → Text
  | .enUS => "Unable to write:\n".toList
  | .zhCN => "无法写入文件:\n".toList

/-- `LocaleString::COPYING` for a name. -/
def copying : LocaleId → Text → Text
  | .enUS, name => "Copying ".toList ++ (name ++ "...".toList)
  | .zhCN, name => "正在复制 ".toList ++ (name ++ "...".toList)

/-- What the thread starts with. -/
structure Installer where
  installPath : Text
  locale : LocaleId
  /-- `result_` before. -/
  result : BitVec 32

/-! ## The code -/

/-- How a call may not return. -/
inductive Stop where
  /-- `Abort` has shown its message. -/
  | abort
  /-- The handler for invalid parameters has ended the process. -/
  | invalidParameter
  /-- The fuel is spent. -/
  | running
  deriving DecidableEq

def MAX_PATH : ℕ := 260

/-- `swprintf_s` and the other functions that end the process when the text does not fit into `size`
characters with its NUL. -/
def swprintfS (size : ℕ) (text : Text) : Except Stop Text :=
  if text.length < size then .ok text else .error .invalidParameter

/-- The loop over the folders of a name: what `_wmkdir` is called with. -/
def mkdirLoop : ℕ → Text → Text → Except Stop (List Text)
  | 0, _, _ => .error .running
  | fuel + 1, dirpath, pos =>
    if '/' ∈ pos then do
      let token := pos.takeWhile (· ≠ '/')
      let dirpath ← swprintfS MAX_PATH (dirpath ++ (token ++ ['/']))
      let dirs ← mkdirLoop fuel dirpath (pos.drop (token.length + 1))
      return dirpath :: dirs
    else return []

/-- The folders of a file. -/
def makeDirs (installPath name : Text) : Except Stop (List Text) := do
  let dirpath ← swprintfS MAX_PATH installPath
  let dirpath ← swprintfS MAX_PATH (dirpath ++ ['/'])
  mkdirLoop (name.length + 1) dirpath name

inductive IOState where
  | error
  | none
  | ok
  | canceled
  deriving DecidableEq

def IOState.toInt : IOState → ℤ
  | .error => -1
  | .none => 0
  | .ok => 1
  | .canceled => 2

/-- `written` is history: of each file, whether it was completely written. -/
structure WorkState where
  result : BitVec 32
  written : List Bool
  deriving DecidableEq

/-- The loop of a file, from the attempt `i` on. -/
def retryLoop (io : Installer) (f : FileInfo) (bufferFn : Text) :
    ℕ → ℕ → IOState → WorkState → Except Stop WorkState
  | 0, _, _, _ => .error .running
  | fuel + 1, i, state, s =>
    if state.toInt ≤ IOState.none.toInt then do
      let _ ← makeDirs io.installPath f.name
      let t := f.tries i
      if t.ok then
        retryLoop io f bufferFn fuel (i + 1) .ok { s with written := s.written ++ [t.closed] }
      else
        let _ ← swprintfS (MAX_PATH + 30) (writeErr io.locale ++ bufferFn)
        match t.answer with
        | .cancel =>
          retryLoop io f bufferFn fuel (i + 1) .canceled
            { s with result := 0, written := s.written ++ [false] }
        | .retry => retryLoop io f bufferFn fuel (i + 1) state s
    else .ok s

/-- `onFileChange`: the status text. -/
def onFileChange (io : Installer) (name : Text) : Except Stop Text :=
  swprintfS MAX_PATH (copying io.locale name)

/-- The body of the loop over the files. -/
def workFile (io : Installer) (fuel : ℕ) (s : WorkState) (f : FileInfo) :
    Except Stop WorkState := do
  let bufferFn ← swprintfS MAX_PATH (io.installPath ++ '\\' :: f.name)
  let _ ← onFileChange io f.name
  match f.resource with
  | none => .error .abort
  | some data =>
    if data.length = 0 then .error .abort
    else retryLoop io f bufferFn fuel 0 .none s

def work (io : Installer) (fuel : ℕ) (files : List FileInfo) : Except Stop WorkState := do
  let s ← files.foldlM (workFile io fuel) ⟨io.result, []⟩
  return { s with result := 1 }

/-! ## What comes after -/

/-- `LocaleString::READ_RES_ERR` and `LocaleString::FAILURE`. -/
inductive Message where
  | readResErr
  | failure
  deriving DecidableEq

inductive Effect where
  /-- The status text `LocaleString::SUCCESS`. -/
  | success
  | shellExecute (runas : Bool)
  | sleep
  | messageBox (message : Message)
  | close
  deriving DecidableEq

/-- The version of Windows, and whether the user lets the program run as administrator. -/
structure System where
  majorVersion : ℕ
  runas : Bool

def onComplete (sys : System) (result : BitVec 32) : List Effect :=
  [.success] ++
    (if result ≠ 0 then
      (if 6 ≤ sys.majorVersion then
        .shellExecute true :: (if sys.runas then [] else [.shellExecute false])
      else [.shellExecute false]) ++ [.sleep]
    else [.messageBox .failure]) ++ [.close]

/-- The effects of the end of the thread. -/
def effects (sys : System) : Except Stop WorkState → List Effect
  | .ok s => onComplete sys s.result
  | .error .abort => [.messageBox .readResErr]
  | .error _ => []

/-! ## The law -/

/-- All files have been completely written. -/
def Complete (r : Except Stop WorkState) : Prop := ∃ s, r = .ok s ∧ ∀ b ∈ s.written, b = true

/-- The result is that of the installation; the program is started after a complete installation
only, and another one is reported. -/
structure Right (sys : System) (r : Except Stop WorkState) : Prop where
  result : ∀ s, r = .ok s → (s.result ≠ 0 ↔ Complete r)
  started : ∀ runas, .shellExecute runas ∈ effects sys r → Complete r
  reported : ¬ Complete r → ∃ message, .messageBox message ∈ effects sys r

/-- `Work` comes to an end, and to the right one. -/
def InstallOk (io : Installer) (sys : System) (files : List FileInfo) : Prop :=
  ∃ r ≠ .error .running, (∃ n, ∀ fuel, n ≤ fuel → work io fuel files = r) ∧ Right sys r

/-- The path of the file and the status text fit into their buffers. -/
def Fits (io : Installer) (f : FileInfo) : Prop :=
  io.installPath.length + 1 + f.name.length < MAX_PATH ∧
    (copying io.locale f.name).length < MAX_PATH

/-- The resource is there, and not empty. -/
def Available (f : FileInfo) : Prop := ∃ data, f.resource = some data ∧ data ≠ []

/-- The last question is not answered with cancel, and the file is closed. -/
def Written (f : FileInfo) : Prop := f.last.ok = true ∧ f.last.closed = true

/-- There is a first file that is not available, and the texts up to it fit. -/
def Aborts (io : Installer) (files : List FileInfo) : Prop :=
  ∃ pre f post, files = pre ++ f :: post ∧ (∀ g ∈ pre, Fits io g ∧ Available g) ∧ Fits io f ∧
    ¬ Available f

/-! ## The texts -/

theorem swprintfS_eq {size : ℕ} {text : Text} (h : text.length < size) :
    swprintfS size text = .ok text := if_pos h

/-- A folder ends before the name does. -/
theorem length_takeWhile_lt {pos : Text} (h : '/' ∈ pos) :
    (pos.takeWhile (· ≠ '/')).length < pos.length := by
  have htake := List.takeWhile_prefix (l := pos) (p := (· ≠ '/'))
  refine lt_of_le_of_ne htake.length_le fun heq => ?_
  have hall := List.takeWhile_eq_self_iff.mp (htake.eq_of_length heq) '/' h
  exact absurd hall (by decide)

theorem mkdirLoop_ok (fuel : ℕ) (dirpath pos : Text) (hfuel : pos.length < fuel)
    (hroom : dirpath.length + pos.length < MAX_PATH) :
    ∃ dirs, mkdirLoop fuel dirpath pos = .ok dirs := by
  induction fuel generalizing dirpath pos with
  | zero => omega
  | succ fuel ih =>
    rw [mkdirLoop]
    split_ifs with hmem
    · have htoken := length_takeWhile_lt hmem
      have hlen : (dirpath ++ (pos.takeWhile (· ≠ '/') ++ ['/'])).length =
          dirpath.length + (pos.takeWhile (· ≠ '/')).length + 1 := by
        rw [List.length_append, List.length_append, List.length_singleton, Nat.add_assoc]
      have hrest : (pos.drop ((pos.takeWhile (· ≠ '/')).length + 1)).length =
          pos.length - ((pos.takeWhile (· ≠ '/')).length + 1) := List.length_drop
      obtain ⟨dirs, hdirs⟩ := ih (dirpath ++ (pos.takeWhile (· ≠ '/') ++ ['/']))
        (pos.drop ((pos.takeWhile (· ≠ '/')).length + 1)) (by omega) (by omega)
      have hdir : swprintfS MAX_PATH (dirpath ++ (pos.takeWhile (· ≠ '/') ++ ['/'])) =
          .ok (dirpath ++ (pos.takeWhile (· ≠ '/') ++ ['/'])) := swprintfS_eq (by omega)
      refine ⟨(dirpath ++ (pos.takeWhile (· ≠ '/') ++ ['/'])) :: dirs, ?_⟩
      simp only [hdir, hdirs, bind, Except.bind, pure, Except.pure]
    · exact ⟨[], rfl⟩

/-- The path of a folder fits where that of the file does. -/
theorem makeDirs_ok {io : Installer} {f : FileInfo} (h : Fits io f) :
    ∃ dirs, makeDirs io.installPath f.name = .ok dirs := by
  have hpath := h.1
  have hlen : (io.installPath ++ ['/']).length = io.installPath.length + 1 := List.length_append
  obtain ⟨dirs, hdirs⟩ := mkdirLoop_ok (f.name.length + 1) (io.installPath ++ ['/']) f.name
    (Nat.lt_succ_self _) (by omega)
  have hcopy : swprintfS MAX_PATH io.installPath = .ok io.installPath := swprintfS_eq (by omega)
  have hdir : swprintfS MAX_PATH (io.installPath ++ ['/']) = .ok (io.installPath ++ ['/']) :=
    swprintfS_eq (by omega)
  refine ⟨dirs, ?_⟩
  simp only [makeDirs, bind, Except.bind, hcopy, hdir, hdirs]

theorem length_writeErr (locale : LocaleId) : (writeErr locale).length ≤ 17 := by
  cases locale <;> decide

/-! ## A file -/

/-- The state after a file whose attempts come to an end. -/
def WorkState.after (s : WorkState) (f : FileInfo) : WorkState where
  result := if f.last.ok then s.result else 0
  written := s.written ++ [f.last.ok && f.last.closed]

section

variable {io : Installer} {f : FileInfo} {bufferFn : Text}

/-- The attempts before the last one. -/
theorem not_ends_of_lt {i : ℕ} (h : i < Nat.find f.ends) :
    (f.tries i).ok = false ∧ (f.tries i).answer = .retry := by
  have hends := Nat.find_min f.ends h
  rw [Try.Ends, not_or] at hends
  refine ⟨eq_false_of_ne_true hends.1, ?_⟩
  cases hanswer : (f.tries i).answer with
  | retry => rfl
  | cancel => exact absurd hanswer hends.2

/-- The loop, `k` attempts before the last one. -/
theorem retryLoop_eq (hfits : Fits io f) (hfn : bufferFn.length < MAX_PATH) (s : WorkState)
    (k fuel i : ℕ) (hi : i + k = Nat.find f.ends) (hfuel : k + 2 ≤ fuel) :
    retryLoop io f bufferFn fuel i .none s = .ok (s.after f) := by
  obtain ⟨dirs, hdirs⟩ := makeDirs_ok hfits
  have hmessage : swprintfS (MAX_PATH + 30) (writeErr io.locale ++ bufferFn) =
      .ok (writeErr io.locale ++ bufferFn) := by
    refine swprintfS_eq ?_
    have hlen := length_writeErr io.locale
    rw [List.length_append]
    omega
  induction k generalizing fuel i with
  | zero =>
    obtain ⟨fuel, rfl⟩ := Nat.exists_eq_add_of_le' (show 2 ≤ fuel by omega)
    have hlast : f.tries i = f.last := by rw [FileInfo.last, ← hi, Nat.add_zero]
    have hends : f.last.Ends := Nat.find_spec f.ends
    rw [retryLoop, if_pos (by decide), hdirs]
    simp only [bind, Except.bind, hlast]
    split_ifs with hok
    · rw [WorkState.after, if_pos hok, hok, Bool.true_and]
      rfl
    · rw [hmessage]
      simp only [hends.resolve_left hok]
      rw [WorkState.after, if_neg hok, eq_false_of_ne_true hok, Bool.false_and]
      rfl
  | succ k ih =>
    obtain ⟨fuel, rfl⟩ := Nat.exists_eq_add_of_le' (show 1 ≤ fuel by omega)
    obtain ⟨hok, hanswer⟩ := not_ends_of_lt (f := f) (i := i) (by omega)
    rw [retryLoop, if_pos (by decide), hdirs]
    simp only [bind, Except.bind, hok, Bool.false_eq_true, if_false, hmessage, hanswer]
    exact ih _ (i + 1) (by omega) (by omega)

theorem length_bufferFn :
    (io.installPath ++ '\\' :: f.name).length = io.installPath.length + 1 + f.name.length := by
  rw [List.length_append, List.length_cons]
  omega

theorem bufferFn_eq (h : Fits io f) :
    swprintfS MAX_PATH (io.installPath ++ '\\' :: f.name) =
      .ok (io.installPath ++ '\\' :: f.name) :=
  swprintfS_eq (length_bufferFn.trans_lt h.1)

theorem onFileChange_eq (h : Fits io f) :
    onFileChange io f.name = .ok (copying io.locale f.name) := swprintfS_eq h.2

/-- A text that does not fit ends the process. -/
theorem workFile_of_not_fits (fuel : ℕ) (s : WorkState) (h : ¬ Fits io f) :
    workFile io fuel s f = .error .invalidParameter := by
  by_cases hpath : io.installPath.length + 1 + f.name.length < MAX_PATH
  · have hlong : ¬ (copying io.locale f.name).length < MAX_PATH := fun hname => h ⟨hpath, hname⟩
    rw [workFile, swprintfS_eq (length_bufferFn.trans_lt hpath), onFileChange, swprintfS,
      if_neg hlong]
    rfl
  · have hlong : ¬ (io.installPath ++ '\\' :: f.name).length < MAX_PATH := by
      rw [length_bufferFn]
      exact hpath
    rw [workFile, swprintfS, if_neg hlong]
    rfl

/-- A resource that is missing or empty aborts the installation. -/
theorem workFile_of_not_available (fuel : ℕ) (s : WorkState) (hfits : Fits io f)
    (h : ¬ Available f) : workFile io fuel s f = .error .abort := by
  rw [workFile, bufferFn_eq hfits, onFileChange_eq hfits]
  cases hres : f.resource with
  | none => rfl
  | some data =>
    have hdata : data.length = 0 := by
      by_contra hne
      exact h ⟨data, hres, fun heq => hne (List.length_eq_zero_iff.mpr heq)⟩
    simp only [bind, Except.bind, hdata, if_true]

theorem workFile_eq {fuel : ℕ} (s : WorkState) (hfits : Fits io f) (h : Available f)
    (hfuel : Nat.find f.ends + 2 ≤ fuel) : workFile io fuel s f = .ok (s.after f) := by
  obtain ⟨data, hres, hdata⟩ := h
  have hlen : ¬ data.length = 0 := fun heq => hdata (List.length_eq_zero_iff.mp heq)
  rw [workFile, bufferFn_eq hfits, onFileChange_eq hfits]
  simp only [bind, Except.bind, hres, hlen, if_false]
  exact retryLoop_eq hfits (length_bufferFn.trans_lt hfits.1) s (Nat.find f.ends) fuel 0
    (Nat.zero_add _) hfuel

end

/-! ## The list of files -/

section

variable {io : Installer} {sys : System} {files pre : List FileInfo} {f : FileInfo}

/-- Files with texts that fit and resources are written or cancelled. -/
theorem foldlM_workFile (h : ∀ g ∈ pre, Fits io g ∧ Available g) :
    ∃ n, ∀ fuel, n ≤ fuel → ∀ s,
      pre.foldlM (workFile io fuel) s = .ok (pre.foldl WorkState.after s) := by
  induction pre with
  | nil => exact ⟨0, fun _ _ _ => rfl⟩
  | cons f pre ih =>
    obtain ⟨hf, hpre⟩ := List.forall_mem_cons.mp h
    obtain ⟨n, hn⟩ := ih hpre
    refine ⟨max (Nat.find f.ends + 2) n, fun fuel hfuel s => ?_⟩
    rw [List.foldlM_cons, workFile_eq s hf.1 hf.2 ((le_max_left _ _).trans hfuel)]
    exact hn fuel ((le_max_right _ _).trans hfuel) (s.after f)

theorem written_foldl (files : List FileInfo) (s : WorkState) :
    (files.foldl WorkState.after s).written =
      s.written ++ files.map fun f => f.last.ok && f.last.closed := by
  induction files generalizing s with
  | nil => exact (List.append_nil _).symm
  | cons f files ih =>
    rw [List.foldl_cons, ih, WorkState.after, List.append_assoc, List.map_cons]
    rfl

/-- `Work` when all texts fit and all resources are there: the result is true. -/
theorem work_eq (h : ∀ g ∈ files, Fits io g ∧ Available g) :
    ∃ n, ∀ fuel, n ≤ fuel →
      work io fuel files = .ok ⟨1, files.map fun f => f.last.ok && f.last.closed⟩ := by
  obtain ⟨n, hn⟩ := foldlM_workFile h
  refine ⟨n, fun fuel hfuel => ?_⟩
  rw [work, hn fuel hfuel]
  show Except.ok (WorkState.mk 1 (files.foldl WorkState.after ⟨io.result, []⟩).written) = _
  rw [written_foldl]
  rfl

/-- `Work` when a file stops it. -/
theorem work_eq_error {stop : Stop} (post : List FileInfo) (h : ∀ g ∈ pre, Fits io g ∧ Available g)
    (hf : ∀ fuel s, workFile io fuel s f = .error stop) :
    ∃ n, ∀ fuel, n ≤ fuel → work io fuel (pre ++ f :: post) = .error stop := by
  obtain ⟨n, hn⟩ := foldlM_workFile h
  refine ⟨n, fun fuel hfuel => ?_⟩
  rw [work, List.foldlM_append, hn fuel hfuel]
  show ((f :: post).foldlM (workFile io fuel) _ >>= _) = _
  rw [List.foldlM_cons, hf]
  rfl

/-- The installation is as right as the end of `Work`. -/
theorem installOk_iff_right {r : Except Stop WorkState} (hr : r ≠ .error .running)
    (h : ∃ n, ∀ fuel, n ≤ fuel → work io fuel files = r) :
    InstallOk io sys files ↔ Right sys r := by
  constructor
  · rintro ⟨r', -, ⟨m, hm⟩, hright⟩
    obtain ⟨n, hn⟩ := h
    rw [← hn (max m n) (le_max_right m n), hm (max m n) (le_max_left m n)]
    exact hright
  · intro hright
    exact ⟨r, hr, h, hright⟩

/-- The program is always started after `Work` has returned. -/
theorem right_ok_iff (sys : System) (written : List Bool) :
    Right sys (.ok ⟨1, written⟩) ↔ ∀ b ∈ written, b = true := by
  have hone : (1 : BitVec 32) ≠ 0 := by decide
  have hcomplete : Complete (.ok ⟨1, written⟩) ↔ ∀ b ∈ written, b = true := by
    constructor
    · rintro ⟨s, hs, hall⟩
      obtain rfl := Except.ok.inj hs
      exact hall
    · intro hall
      exact ⟨_, rfl, hall⟩
  constructor
  · intro h
    exact hcomplete.mp ((h.result _ rfl).mp hone)
  · intro hall
    have hc := hcomplete.mpr hall
    refine ⟨fun s hs => ?_, fun _ _ => hc, fun hnot => absurd hc hnot⟩
    obtain rfl := Except.ok.inj hs
    exact iff_of_true hone hc

theorem right_abort (sys : System) : Right sys (.error .abort) where
  result s hs := by cases hs
  started runas h := by cases List.mem_singleton.mp h
  reported _ := ⟨.readResErr, List.mem_singleton_self _⟩

theorem not_right_invalidParameter (sys : System) : ¬ Right sys (.error .invalidParameter) := by
  intro h
  obtain ⟨message, hmem⟩ := h.reported (by rintro ⟨s, hs, -⟩; cases hs)
  exact absurd hmem List.not_mem_nil

theorem installOk_of_aborts (h : Aborts io files) : InstallOk io sys files := by
  obtain ⟨pre, f, post, rfl, hpre, hfits, havail⟩ := h
  have hwork := work_eq_error post hpre fun fuel s =>
    workFile_of_not_available fuel s hfits havail
  exact (installOk_iff_right (by decide) hwork).mpr (right_abort sys)

theorem not_installOk_of_not_fits (post : List FileInfo)
    (hpre : ∀ g ∈ pre, Fits io g ∧ Available g) (h : ¬ Fits io f) :
    ¬ InstallOk io sys (pre ++ f :: post) := by
  have hwork := work_eq_error post hpre fun fuel s => workFile_of_not_fits fuel s h
  rw [installOk_iff_right (by decide) hwork]
  exact not_right_invalidParameter sys

/-- When `Work` returns, the installation is right if all files have been written. -/
theorem installOk_iff_written (h : ∀ g ∈ files, Fits io g ∧ Available g) :
    InstallOk io sys files ↔ ∀ g ∈ files, Written g := by
  rw [installOk_iff_right (by rintro ⟨⟩) (work_eq h), right_ok_iff, List.forall_mem_map]
  simp only [Bool.and_eq_true, Written]

/-- The files before the first one with a text that does not fit or without a resource. -/
theorem all_or_first (io : Installer) (files : List FileInfo) :
    (∀ g ∈ files, Fits io g ∧ Available g) ∨
      ∃ pre f post, files = pre ++ f :: post ∧ (∀ g ∈ pre, Fits io g ∧ Available g) ∧
        ¬ (Fits io f ∧ Available f) := by
  induction files with
  | nil => exact .inl fun g hg => absurd hg List.not_mem_nil
  | cons f files ih =>
    by_cases hf : Fits io f ∧ Available f
    · rcases ih with hall | ⟨pre, g, post, rfl, hpre, hg⟩
      · exact .inl (List.forall_mem_cons.mpr ⟨hf, hall⟩)
      · exact .inr ⟨f :: pre, g, post, rfl, List.forall_mem_cons.mpr ⟨hf, hpre⟩, hg⟩
    · exact .inr ⟨[], f, files, rfl, fun g hg => absurd hg List.not_mem_nil, hf⟩

end

/-- **The installer.** The installation comes to the right end if and only if a missing resource
aborts it, or all texts fit, no file is cancelled and all of them are closed. -/
theorem installOk_iff (io : Installer) (sys : System) (files : List FileInfo) :
    InstallOk io sys files ↔
      Aborts io files ∨ ∀ f ∈ files, Fits io f ∧ Available f ∧ Written f := by
  constructor
  · intro h
    rcases all_or_first io files with hall | ⟨pre, f, post, rfl, hpre, hf⟩
    · refine .inr fun f hf => ?_
      exact ⟨(hall f hf).1, (hall f hf).2, (installOk_iff_written hall).mp h f hf⟩
    · by_cases hfits : Fits io f
      · exact .inl ⟨pre, f, post, rfl, hpre, hfits, fun havail => hf ⟨hfits, havail⟩⟩
      · exact absurd h (not_installOk_of_not_fits post hpre hfits)
  · rintro (h | h)
    · exact installOk_of_aborts h
    · refine (installOk_iff_written fun f hf => ?_).mpr fun f hf => (h f hf).2.2
      exact ⟨(h f hf).1, (h f hf).2.1⟩

/-! ## A cancelled file -/

/-- A file that cannot be opened and is cancelled. -/
def canceledFile : FileInfo where
  name := "DreamAuth.exe".toList
  resource := some [0x4d]
  tries _ := ⟨false, false, false, .cancel⟩
  ends := ⟨0, .inr rfl⟩

/-- A file that is written at once. -/
def writtenFile : FileInfo where
  name := "DreamWarcraft.dll".toList
  resource := some [0x4d]
  tries _ := ⟨true, true, true, .retry⟩
  ends := ⟨0, .inl rfl⟩

def installer : Installer := ⟨"C:\\DreamDota".toList, .enUS, 0xFFFFFFFF⟩

/-- The installation of the two files starts the program. -/
theorem not_installOk_canceled :
    ¬ InstallOk installer ⟨6, true⟩ [canceledFile, writtenFile] := by
  have h : ∀ g ∈ [canceledFile, writtenFile], Fits installer g ∧ Available g := by
    refine List.forall_mem_cons.mpr ⟨?_, List.forall_mem_singleton.mpr ?_⟩
    · exact ⟨⟨show _ < _ by decide, by decide⟩, _, rfl, List.cons_ne_nil _ _⟩
    · exact ⟨⟨show _ < _ by decide, by decide⟩, _, rfl, List.cons_ne_nil _ _⟩
  rw [installOk_iff_written h]
  intro hall
  have hok := (hall canceledFile List.mem_cons_self).1
  exact Bool.false_ne_true hok

end ThreadFileIO

end DreamDota
