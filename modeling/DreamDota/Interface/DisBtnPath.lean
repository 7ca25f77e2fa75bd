import DreamDota.Lib.Bytes

/-!
# The path of a disabled icon

`DisBtnPathCalc` of `MultiIcon.cpp` puts the folder of the command buttons and a mark before the
file name of an icon, in a static buffer. What it tests is the length with the folder of the icon
itself.

`pathOk_iff`: the test is the right one as long as the two folders make no difference to it.

A call that writes outside of the buffer has the result `none`. Lengths are numbers without a bound:
a string that lies in memory is too short for the sum of three lengths to overflow.
-/

namespace DreamDota

namespace MultiIcon

/-! ## The code -/

/-- The characters of a literal. -/
def chars (s : String) : List Byte := s.toList.map fun c => BitVec.ofNat 8 c.toNat

/-- A string of C, by the characters before its NUL. -/
structure CString where
  chars : List Byte
  zero_notMem : (0 : Byte) ∉ chars
  deriving DecidableEq

/-- `RETURN_BUFFER`. -/
structure ReturnBuffer where
  bytes : List Byte
  length_bytes : bytes.length = 256
  deriving DecidableEq

/-- The buffer before the first call. -/
def ReturnBuffer.zero : ReturnBuffer := ⟨List.replicate 256 0, List.length_replicate⟩

/-- The string that begins where the buffer does. -/
def ReturnBuffer.text (b : ReturnBuffer) : List Byte := b.bytes.takeWhile (· ≠ 0)

/-- The characters `s` are stored from `off` on. -/
def ReturnBuffer.store (b : ReturnBuffer) (off : ℕ) (s : List Byte) : Option ReturnBuffer :=
  if h : off + s.length ≤ 256 then
    some ⟨b.bytes.take off ++ s ++ b.bytes.drop (off + s.length), by
      simp only [List.length_append, List.length_take, List.length_drop, b.length_bytes]
      omega⟩
  else none

/-- `memcpy_s(RETURN_BUFFER + off, destSize, s, count)` where `s` are the `count` characters. When
they are more than `destSize`, the destination is filled with 0, and the call goes on if it may. -/
def ReturnBuffer.memcpyS (b : ReturnBuffer) (off destSize : ℕ) (s : List Byte) :
    Option ReturnBuffer :=
  b.store off (if s.length ≤ destSize then s else List.replicate destSize 0)

/-- The index of the last `c`. -/
def strrchr (c : Byte) : List Byte → Option ℕ
  | [] => none
  | a :: s =>
    match strrchr c s with
    | some pos => some (pos + 1)
    | none => if a = c then some 0 else none

def backslash : Byte := 0x5c

def add : List Byte := chars "Disabled\\DIS"

def path : List Byte := chars "ReplaceableTextures\\CommandButtons"

/-- The part of `disBtnPathCalc` after the test. -/
def copyParts (b : ReturnBuffer) (filename : List Byte) : Option ReturnBuffer := do
  let b ← b.memcpyS 0 256 path
  let copyOffset := path.length
  let b ← b.memcpyS copyOffset (256 - copyOffset) add
  let copyOffset := copyOffset + add.length
  let b ← b.memcpyS copyOffset (256 - copyOffset) filename
  let copyOffset := copyOffset + filename.length
  b.store copyOffset [0]

/-- The buffer after the call, whose text is the result. -/
def disBtnPathCalc (b : ReturnBuffer) (src : CString) : Option ReturnBuffer := do
  let b ← b.store 0 [0]
  if src.chars.length = 0 then
    return b
  else
    match strrchr backslash src.chars with
    | none => return b
    | some pos =>
      let preSize := pos
      let filenameSize := src.chars.length - preSize - 1
      if preSize + add.length + filenameSize < 256 then
        copyParts b ((src.chars.drop (pos + 1)).take filenameSize)
      else return b

/-! ## The law -/

/-- The parts of a source before and after its last backslash. -/
def Parts (src : CString) (folder name : List Byte) : Prop :=
  src.chars = folder ++ backslash :: name ∧ backslash ∉ name

/-- The path of the disabled icon of a file. -/
def disabledPath (name : List Byte) : List Byte := path ++ (add ++ name)

/-- The call writes inside of the buffer, and the result is the path of the disabled icon, or empty
if the source has no backslash or the path does not fit with its NUL. -/
def PathOk (b : ReturnBuffer) (src : CString) : Prop :=
  ∃ b', disBtnPathCalc b src = some b' ∧
    ((∃ folder name, Parts src folder name ∧ b'.text = disabledPath name) ∨
      (b'.text = [] ∧
        ∀ folder name, Parts src folder name → 256 < (disabledPath name).length + 1))

/-! ## Strings -/

section

variable {c : Byte} {p q s : List Byte}

theorem strrchr_eq_none : strrchr c s = none ↔ c ∉ s := by
  induction s with
  | nil => exact iff_of_true rfl List.not_mem_nil
  | cons a s ih =>
    rw [List.mem_cons, not_or, strrchr]
    cases hs : strrchr c s with
    | some pos =>
      have hmem : ¬ c ∉ s := fun h => by
        rw [ih.mpr h] at hs
        cases hs
      exact iff_of_false nofun fun h => hmem h.2
    | none =>
      have hmem := ih.mp hs
      by_cases ha : a = c
      · simp [ha]
      · simp [ha, hmem, Ne.symm ha]

theorem strrchr_append (h : c ∉ q) : strrchr c (p ++ c :: q) = some p.length := by
  induction p with
  | nil => rw [List.nil_append, strrchr, strrchr_eq_none.mpr h]; exact if_pos rfl
  | cons a p ih => rw [List.cons_append, strrchr, ih]; rfl

end

/-! ## Stores -/

section

variable {b : ReturnBuffer} {off : ℕ} {s w : List Byte}

theorem store_eq_none (h : 256 < off + s.length) : b.store off s = none :=
  dif_neg (Nat.not_le.mpr h)

/-- What the buffer begins with grows. -/
theorem store_prefix (hw : w <+: b.bytes) (hoff : w.length = off) (h : off + s.length ≤ 256) :
    ∃ b', b.store off s = some b' ∧ w ++ s <+: b'.bytes := by
  refine ⟨_, dif_pos h, ?_⟩
  obtain ⟨r, hr⟩ := hw
  have htake : b.bytes.take off = w := by rw [← hr, ← hoff, List.take_left]
  show w ++ s <+: b.bytes.take off ++ s ++ b.bytes.drop (off + s.length)
  rw [htake]
  exact List.prefix_append _ _

theorem memcpyS_prefix (destSize : ℕ) (hw : w <+: b.bytes) (hoff : w.length = off)
    (hsize : s.length ≤ destSize) (h : off + s.length ≤ 256) :
    ∃ b', b.memcpyS off destSize s = some b' ∧ w ++ s <+: b'.bytes := by
  rw [ReturnBuffer.memcpyS, if_pos hsize]
  exact store_prefix hw hoff h

/-- The text ends at the first NUL. -/
theorem text_eq (hs : (0 : Byte) ∉ s) (h : s ++ [0] <+: b.bytes) : b.text = s := by
  obtain ⟨r, hr⟩ := h
  have hne : ∀ a ∈ s, (decide (a ≠ 0)) = true :=
    fun a ha => decide_eq_true fun h0 => hs (h0 ▸ ha)
  rw [ReturnBuffer.text, ← hr, List.append_assoc, List.takeWhile_append_of_pos hne]
  exact List.append_nil s

end

/-! ## The call -/

section

variable {src : CString} {folder name : List Byte}

theorem length_path : path.length = 34 := by decide

theorem length_add : add.length = 12 := by decide

theorem length_disabledPath (name : List Byte) : (disabledPath name).length = 46 + name.length := by
  rw [disabledPath, List.length_append, List.length_append, length_path, length_add]
  omega

theorem zero_notMem_disabledPath (h : (0 : Byte) ∉ name) : (0 : Byte) ∉ disabledPath name := by
  have hpath : (0 : Byte) ∉ path := by decide
  have hadd : (0 : Byte) ∉ add := by decide
  rw [disabledPath, List.mem_append, List.mem_append]
  tauto

/-- A file name of less than 210 characters has room. -/
theorem copyParts_eq (b : ReturnBuffer) (h : name.length < 210) :
    ∃ b', copyParts b name = some b' ∧ disabledPath name ++ [0] <+: b'.bytes := by
  have hpath := length_path
  have hadd := length_add
  obtain ⟨b₁, hcopy₁, hb₁⟩ := memcpyS_prefix 256 (s := path)
    (List.nil_prefix (l := b.bytes)) rfl (by omega) (by simp only [List.length_nil]; omega)
  obtain ⟨b₂, hcopy₂, hb₂⟩ := memcpyS_prefix (256 - path.length) (s := add)
    hb₁ rfl (by omega) (by simp only [List.nil_append]; omega)
  obtain ⟨b₃, hcopy₃, hb₃⟩ := memcpyS_prefix (256 - (path.length + add.length))
    (s := name) hb₂ rfl (by omega) (by simp only [List.nil_append, List.length_append]; omega)
  obtain ⟨b₄, hstore, hb₄⟩ := store_prefix (s := [0]) hb₃ rfl
    (by simp only [List.nil_append, List.length_append, List.length_singleton]; omega)
  rw [List.length_nil] at hcopy₁
  rw [List.nil_append] at hcopy₂
  rw [List.nil_append, List.length_append] at hcopy₃
  rw [List.nil_append, List.length_append, List.length_append] at hstore
  refine ⟨b₄, ?_, ?_⟩
  · simp only [copyParts, Option.bind_eq_bind, hcopy₁, hcopy₂, hcopy₃, hstore, Option.bind_some]
  · rw [disabledPath, ← List.append_assoc]
    exact hb₄

/-- The NUL of a longer one is stored outside. -/
theorem copyParts_eq_none (b : ReturnBuffer) (h : 210 ≤ name.length) : copyParts b name = none := by
  have hpath := length_path
  have hadd := length_add
  have hstore (b : ReturnBuffer) : b.store (path.length + add.length + name.length) [0] = none :=
    store_eq_none (by rw [List.length_singleton]; omega)
  simp only [copyParts, Option.bind_eq_bind, hstore, Option.bind_fun_none]

/-- The call for a source with a backslash. -/
theorem disBtnPathCalc_eq (b : ReturnBuffer) (h : Parts src folder name) :
    disBtnPathCalc b src = (b.store 0 [0]).bind fun b =>
      if folder.length + 12 + name.length < 256 then copyParts b name else some b := by
  obtain ⟨hsrc, hname⟩ := h
  have hlen : src.chars.length = folder.length + 1 + name.length := by
    rw [hsrc, List.length_append, List.length_cons]
    omega
  have hdrop : src.chars.drop (folder.length + 1) = name := by
    rw [hsrc, ← List.drop_drop, List.drop_left, List.drop_succ_cons, List.drop_zero]
  have hsize : src.chars.length - folder.length - 1 = name.length := by omega
  have hpos : src.chars.length ≠ 0 := by omega
  have hlast : strrchr backslash src.chars = some folder.length := by
    rw [hsrc, strrchr_append hname]
  simp only [disBtnPathCalc, if_neg hpos, hlast, hsize, hdrop, List.take_length, length_add,
    Option.bind_eq_bind]
  rfl

/-- And for one without. -/
theorem disBtnPathCalc_of_notMem (b : ReturnBuffer) (h : backslash ∉ src.chars) :
    disBtnPathCalc b src = b.store 0 [0] := by
  unfold disBtnPathCalc
  rw [strrchr_eq_none.mpr h]
  simp only [ite_self]
  exact Option.bind_fun_some _

/-- A source has one last backslash. -/
theorem Parts.unique {folder' name' : List Byte} (h : Parts src folder name)
    (h' : Parts src folder' name') : folder' = folder ∧ name' = name := by
  have hlen : folder'.length = folder.length := by
    have hlast := strrchr_append (p := folder) h.2
    rw [← h.1, h'.1, strrchr_append h'.2] at hlast
    exact Option.some.inj hlast
  have hsrc : folder' ++ backslash :: name' = folder ++ backslash :: name := h'.1.symm.trans h.1
  obtain ⟨hfolder, hname⟩ := List.append_inj hsrc hlen
  exact ⟨hfolder, (List.cons.inj hname).2⟩

theorem Parts.exists_of_mem (h : backslash ∈ src.chars) : ∃ folder name, Parts src folder name := by
  obtain ⟨q, p, hrev, hq⟩ := List.eq_append_cons_of_mem (List.mem_reverse.mpr h)
  refine ⟨p.reverse, q.reverse, ?_, fun hmem => hq (List.mem_reverse.mp hmem)⟩
  rw [← List.reverse_reverse src.chars, hrev, List.reverse_append, List.reverse_cons,
    List.append_assoc, List.singleton_append]

theorem Parts.zero_notMem (h : Parts src folder name) : (0 : Byte) ∉ name := fun hmem =>
  src.zero_notMem (h.1 ▸ List.mem_append_right _ (List.mem_cons_of_mem _ hmem))

end

/-- The empty text. -/
theorem exists_store_zero (b : ReturnBuffer) : ∃ b', b.store 0 [0] = some b' ∧ b'.text = [] := by
  obtain ⟨b', hstore, hb'⟩ := store_prefix (s := [0]) (List.nil_prefix (l := b.bytes)) rfl
    (by decide)
  exact ⟨b', hstore, text_eq List.not_mem_nil hb'⟩

/-- With a backslash, the law is about the two tests. -/
theorem pathOk_iff_of_parts (b : ReturnBuffer) {src : CString} {folder name : List Byte}
    (h : Parts src folder name) :
    PathOk b src ↔ (folder.length + 12 + name.length < 256 ↔ name.length < 210) := by
  obtain ⟨b₀, hstore, htext⟩ := exists_store_zero b
  have hcalc : disBtnPathCalc b src =
      if folder.length + 12 + name.length < 256 then copyParts b₀ name else some b₀ := by
    rw [disBtnPathCalc_eq b h, hstore, Option.bind_some]
  by_cases htest : folder.length + 12 + name.length < 256
  · rw [if_pos htest] at hcalc
    by_cases hroom : name.length < 210
    · refine iff_of_true ?_ (iff_of_true htest hroom)
      obtain ⟨b', hcopy, hb'⟩ := copyParts_eq b₀ hroom
      exact ⟨b', hcalc.trans hcopy, .inl ⟨folder, name, h,
        text_eq (zero_notMem_disabledPath h.zero_notMem) hb'⟩⟩
    · refine iff_of_false ?_ fun hiff => hroom (hiff.mp htest)
      rintro ⟨b', hb', -⟩
      rw [hcalc, copyParts_eq_none b₀ (Nat.not_lt.mp hroom)] at hb'
      cases hb'
  · rw [if_neg htest] at hcalc
    have hiff : PathOk b src ↔ 256 < (disabledPath name).length + 1 := by
      constructor
      · rintro ⟨b', hb', ⟨folder', name', -, hb''⟩ | ⟨-, hlong⟩⟩
        · obtain rfl := Option.some.inj (hcalc.symm.trans hb')
          have hlen := length_disabledPath name'
          rw [← hb'', htext, List.length_nil] at hlen
          omega
        · exact hlong folder name h
      · intro hlong
        refine ⟨b₀, hcalc, .inr ⟨htext, fun folder' name' h' => ?_⟩⟩
        obtain ⟨-, rfl⟩ := h.unique h'
        exact hlong
    rw [hiff, length_disabledPath]
    omega

/-- **The path of the disabled icon.** The call is right if and only if the source has no backslash,
or its own folder and the folder of the command buttons give the test the same result. -/
theorem pathOk_iff (b : ReturnBuffer) (src : CString) :
    PathOk b src ↔ ∀ folder name, Parts src folder name →
      (folder.length + 12 + name.length < 256 ↔ name.length < 210) := by
  by_cases hmem : backslash ∈ src.chars
  · obtain ⟨folder, name, h⟩ := Parts.exists_of_mem hmem
    rw [pathOk_iff_of_parts b h]
    constructor
    · intro htest folder' name' h'
      obtain ⟨rfl, rfl⟩ := h.unique h'
      exact htest
    · intro hall
      exact hall folder name h
  · have hnone : ∀ folder name, ¬ Parts src folder name := fun folder name h =>
      hmem (h.1 ▸ List.mem_append_right _ List.mem_cons_self)
    obtain ⟨b₀, hstore, htext⟩ := exists_store_zero b
    refine iff_of_true ?_ fun folder name h => absurd h (hnone folder name)
    exact ⟨b₀, (disBtnPathCalc_of_notMem b hmem).trans hstore,
      .inr ⟨htext, fun folder name h => absurd h (hnone folder name)⟩⟩

/-- A folder of one letter and a file name of 210. -/
def longName : CString where
  chars := 0x61 :: backslash :: List.replicate 210 0x61
  zero_notMem h := by
    rcases List.mem_cons.mp h with h | h
    · cases h
    · rcases List.mem_cons.mp h with h | h
      · cases h
      · cases List.eq_of_mem_replicate h

/-- Its NUL is stored behind the buffer. -/
theorem not_pathOk_longName : ¬ PathOk .zero longName := by
  have h : Parts longName [0x61] (List.replicate 210 0x61) := by
    refine ⟨rfl, fun hmem => ?_⟩
    cases List.eq_of_mem_replicate hmem
  rw [pathOk_iff_of_parts .zero h, List.length_singleton, List.length_replicate]
  decide

end MultiIcon

end DreamDota
