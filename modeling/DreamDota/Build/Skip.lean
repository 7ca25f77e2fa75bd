import DreamDota.Build.GenerateString
import DreamDota.Lib.Session

/-!
# Runs that skip

A run that skips finds two digests that earlier runs have recorded, before their generation and
each on its own. `skipOk_of_careful`: what it leaves is up to date, as long as no run stops between
the digest and the end of its generation, and no run generates from a `Locales.xml` that is not the
recorded one.

1. `Generated`, `SkipOk`: the property. `Careful`: the condition on the runs.
2. `Inv`: two complete digests are those of the inputs of the last generation.
3. `Inv.interrupt`, `Inv.rewrite`: a digest that is cut off, and one that is recorded again.
-/

namespace DreamDota

open Files

namespace GenerateString

variable (py : Python)

/-- The files that `Main` generates. -/
def outputs : List File := [.dataFile, .initFile, .stringIdFile]

/-- These are the files that a full generation from the inputs produces. -/
structure Generated (strings locales : List Byte) (files : Dir) : Prop where
  done : (main py strings locales).done = true
  outputs : ∀ f ∈ outputs, patch files (main py strings locales).writes f = files f

/-- The run is not stopped, and prints that nothing has changed. -/
def Skips (d : Disk) (n : ℕ) : Prop := (script py d).1.length < n ∧ (script py d).2 = .skipped

instance (d : Disk) (n : ℕ) : Decidable (Skips py d n) := inferInstanceAs (Decidable (_ ∧ _))

def SkipOk (d : Disk) : Prop :=
  ∀ n, Skips py d n → Generated py d.strings d.locales (event py d (.run n)).files

/-- A digest of the full length. -/
def Recorded (files : Dir) (cache : File) : Prop := (files cache).map List.length = some 16

instance (files : Dir) (cache : File) : Decidable (Recorded files cache) :=
  inferInstanceAs (Decidable (_ = _))

/-- The run is not stopped, and `Main` raises no exception. -/
def Completes (d : Disk) (n : ℕ) : Prop :=
  (script py d).1.length < n ∧ (main py d.strings d.locales).done = true

instance (d : Disk) (n : ℕ) : Decidable (Completes py d n) := inferInstanceAs (Decidable (_ ∧ _))

/-- A digest takes 17 writes. A run that records the one of a changed `Strings.xml` goes on to the end
of `Main`, and finds the digest of this `Locales.xml`, unless none is recorded at all. A run that
records the one of a changed `Locales.xml` goes on to the end of `Main`. -/
def Careful (d : Disk) : Event → Prop
  | .run n =>
    if d.files .stringsMd5 ≠ some (py.md5 d.strings) then
      n < 17 ∨ ¬ Recorded d.files .localesMd5 ∨
        (d.files .localesMd5 = some (py.md5 d.locales) ∧ Completes py d n)
    else if d.files .localesMd5 ≠ some (py.md5 d.locales) then n < 34 ∨ Completes py d n
    else True
  | _ => True

instance (d : Disk) : DecidablePred (Careful py d)
  | .run n => by
    unfold Careful
    infer_instance
  | .editStrings _ | .editLocales _ => isTrue trivial

/-- The contents that `Strings.xml` has at some time. -/
def stringsOf (d : Disk) (es : List Event) : List (List Byte) :=
  d.strings :: es.filterMap fun
    | .editStrings content => some content
    | _ => none

def localesOf (d : Disk) (es : List Event) : List (List Byte) :=
  d.locales :: es.filterMap fun
    | .editLocales content => some content
    | _ => none

/-- MD5 does not confuse any two of these. -/
def Distinguished (contents : List (List Byte)) : Prop :=
  ∀ a ∈ contents, ∀ b ∈ contents, py.md5 a = py.md5 b → a = b

instance (contents : List (List Byte)) : Decidable (Distinguished py contents) :=
  inferInstanceAs (Decidable (∀ a ∈ contents, ∀ b ∈ contents, _ → _))

variable {py}

/-! ## What the script writes -/

theorem changed_iff {files : Dir} {content : List Byte} {cache : File} :
    (check py files content cache).2 = true ↔ files cache ≠ some (py.md5 content) := by
  unfold check
  cases files cache <;> simp

theorem mem_andThen {p q : Part} {w : Write} (h : w ∈ (p.andThen q).writes) :
    w ∈ p.writes ∨ w ∈ q.writes := by
  unfold Part.andThen at h
  split at h
  · exact List.mem_append.mp h
  · exact .inl h

theorem file_of_mem_saveTexts {f : File} {texts : List Text} {w : Write}
    (h : w ∈ (saveTexts py f texts).writes) : w.file = f :=
  file_of_mem_save h

/-- `Main` writes nothing but the generated files. -/
theorem file_of_mem_main {strings locales : List Byte} {w : Write}
    (h : w ∈ (main py strings locales).writes) : w.file ∈ outputs := by
  unfold main at h
  split at h
  · cases h
  split at h
  · cases h
  rcases mem_andThen h with h | h
  · rw [file_of_mem_saveTexts h]
    decide
  rcases mem_andThen h with h | h
  · have hfile : w.file = .initFile := by
      unfold saveLocales at h
      split at h
      · exact file_of_mem_save h
      · exact file_of_mem_saveTexts h
    rw [hfile]
    decide
  · rw [file_of_mem_saveTexts h]
    decide

theorem patch_main_of_not_mem {strings locales : List Byte} {files : Dir} {ws : List Write} {f : File}
    (hws : ws ⊆ (main py strings locales).writes) (hf : f ∉ outputs) : patch files ws f = files f :=
  patch_of_ne fun _ hw heq => hf (heq ▸ file_of_mem_main (hws hw))

/-- The generation that comes to its end. -/
theorem generated_patch {strings locales : List Byte} {files : Dir}
    (h : (main py strings locales).done = true) :
    Generated py strings locales (patch files (main py strings locales).writes) :=
  ⟨h, fun f _ => congrFun (patch_patch files _) f⟩

theorem Generated.congr {strings locales : List Byte} {files files' : Dir}
    (h : Generated py strings locales files) (hf : ∀ f ∈ GenerateString.outputs, files' f = files f) :
    Generated py strings locales files' :=
  ⟨h.done, fun f hmem => ((patch_congr (hf f hmem)).trans (h.outputs f hmem)).trans (hf f hmem).symm⟩

variable {d : Disk} {n : ℕ}

/-- `Strings.xml` has changed. -/
theorem script_of_strings (h : d.files .stringsMd5 ≠ some (py.md5 d.strings)) :
    script py d = (save .stringsMd5 (py.md5 d.strings) ++ (main py d.strings d.locales).writes,
      (main py d.strings d.locales).outcome) :=
  if_pos (changed_iff.mpr h)

/-- Only `Locales.xml` has changed. -/
theorem script_of_locales (h : d.files .stringsMd5 = some (py.md5 d.strings))
    (h' : d.files .localesMd5 ≠ some (py.md5 d.locales)) :
    script py d = (save .stringsMd5 (py.md5 d.strings) ++ save .localesMd5 (py.md5 d.locales) ++
      (main py d.strings d.locales).writes, (main py d.strings d.locales).outcome) :=
  (if_neg fun hc => changed_iff.mp hc h).trans (if_pos (changed_iff.mpr h'))

/-- Nothing has changed. -/
theorem script_of_unchanged (h : d.files .stringsMd5 = some (py.md5 d.strings))
    (h' : d.files .localesMd5 = some (py.md5 d.locales)) :
    script py d = (save .stringsMd5 (py.md5 d.strings) ++ save .localesMd5 (py.md5 d.locales),
      .skipped) :=
  (if_neg fun hc => changed_iff.mp hc h).trans (if_neg fun hc => changed_iff.mp hc h')

theorem outcome_ne_skipped (p : Part) : p.outcome ≠ .skipped := by
  unfold Part.outcome
  split <;> decide

/-- A run skips when it finds both digests. -/
theorem unchanged_of_skips (h : Skips py d n) :
    d.files .stringsMd5 = some (py.md5 d.strings) ∧ d.files .localesMd5 = some (py.md5 d.locales) := by
  by_contra hand
  by_cases hs : d.files .stringsMd5 = some (py.md5 d.strings)
  · have hl : d.files .localesMd5 ≠ some (py.md5 d.locales) := fun hl => hand ⟨hs, hl⟩
    have hskip := h.2
    rw [script_of_locales hs hl] at hskip
    exact outcome_ne_skipped _ hskip
  · have hskip := h.2
    rw [script_of_strings hs] at hskip
    exact outcome_ne_skipped _ hskip

/-! ## The digests -/

theorem length_digest (cache : File) (content : List Byte) :
    (save cache (py.md5 content)).length = 17 := by
  rw [length_save, py.length_md5]

/-- A digest that is cut off is not taken for a digest. -/
theorem not_recorded_take {files : Dir} {cache : File} {content : List Byte} (hn : n < 16) :
    ¬ Recorded (patch files ((save cache (py.md5 content)).take (n + 1))) cache := by
  have hlen := py.length_md5 content
  unfold Recorded
  rw [patch_take_save (by omega), Option.map_some, List.length_take, hlen]
  intro h
  have := Option.some.inj h
  omega

/-- A digest that is recorded again is as it was, or is cut off. -/
theorem patch_rewrite {files : Dir} {cache : File} {content : List Byte}
    (h : files cache = some (py.md5 content)) :
    patch files ((save cache (py.md5 content)).take n) = files ∨
      ¬ Recorded (patch files ((save cache (py.md5 content)).take n)) cache := by
  cases n with
  | zero => exact .inl rfl
  | succ n =>
    by_cases hn : n < 16
    · exact .inr (not_recorded_take hn)
    · refine .inl (funext fun f => ?_)
      rw [List.take_of_length_le (by rw [length_digest]; omega)]
      by_cases hf : f = cache
      · rw [hf, patch_save, h]
      · exact patch_save_of_ne hf

/-! ## The invariant -/

/-- Two complete digests are those of the inputs that the files were generated from. `ss` and `ls` are
the contents of the history. -/
structure Inv (py : Python) (ss ls : List (List Byte)) (files : Dir) : Prop where
  generated : Recorded files .stringsMd5 → Recorded files .localesMd5 →
    ∃ s ∈ ss, ∃ l ∈ ls, files .stringsMd5 = some (py.md5 s) ∧
      files .localesMd5 = some (py.md5 l) ∧ Generated py s l files

variable {ss ls : List (List Byte)} {files : Dir} {cache : File} {content : List Byte}

theorem Inv.of_not_recorded (hcache : cache = .stringsMd5 ∨ cache = .localesMd5)
    (h : ¬ Recorded files cache) : Inv py ss ls files := by
  refine ⟨fun hs hl => absurd ?_ h⟩
  rcases hcache with rfl | rfl
  · exact hs
  · exact hl

/-- A digest is being recorded. -/
theorem Inv.interrupt (h : Inv py ss ls files) (hcache : cache = .stringsMd5 ∨ cache = .localesMd5)
    (hn : n < 17) : Inv py ss ls (patch files ((save cache (py.md5 content)).take n)) := by
  cases n with
  | zero => exact h
  | succ n => exact .of_not_recorded hcache (not_recorded_take (by omega))

/-- A digest is recorded again. -/
theorem Inv.rewrite (h : Inv py ss ls files) (hcache : cache = .stringsMd5 ∨ cache = .localesMd5)
    (hsame : files cache = some (py.md5 content)) :
    Inv py ss ls (patch files ((save cache (py.md5 content)).take n)) := by
  obtain heq | hnot := patch_rewrite (n := n) hsame
  · rw [heq]
    exact h
  · exact .of_not_recorded hcache hnot

/-- A generation from the inputs with these digests. -/
theorem Inv.generate {s l : List Byte} (hs : s ∈ ss) (hl : l ∈ ls)
    (hstrings : files .stringsMd5 = some (py.md5 s)) (hlocales : files .localesMd5 = some (py.md5 l))
    (hdone : (main py s l).done = true) : Inv py ss ls (patch files (main py s l).writes) := by
  refine ⟨fun _ _ => ⟨s, hs, l, hl, ?_, ?_, generated_patch hdone⟩⟩
  · rw [patch_main_of_not_mem (List.Subset.refl _) (by decide), hstrings]
  · rw [patch_main_of_not_mem (List.Subset.refl _) (by decide), hlocales]

/-- A careful run when `Strings.xml` has changed. -/
theorem Inv.run_of_strings (h : Inv py ss ls d.files) (hs : d.strings ∈ ss) (hl : d.locales ∈ ls)
    (hchanged : d.files .stringsMd5 ≠ some (py.md5 d.strings))
    (hq : n < 17 ∨ ¬ Recorded d.files .localesMd5 ∨
      (d.files .localesMd5 = some (py.md5 d.locales) ∧ Completes py d n)) :
    Inv py ss ls (patch d.files ((script py d).1.take n)) := by
  unfold Completes at hq
  rw [script_of_strings hchanged] at hq ⊢
  have hlocales : patch d.files (save .stringsMd5 (py.md5 d.strings)) .localesMd5 =
      d.files .localesMd5 := patch_save_of_ne (by decide)
  rcases hq with hn | hnot | ⟨hcurrent, hlen, hdone⟩
  · rw [List.take_append_of_le_length (by rw [length_digest]; omega)]
    exact h.interrupt (.inl rfl) hn
  · refine .of_not_recorded (.inr rfl) ?_
    rw [List.take_append, patch_append]
    unfold Recorded at hnot ⊢
    rwa [patch_main_of_not_mem (List.take_subset _ _) (by decide),
      patch_take_save_of_ne (by decide)]
  · rw [List.take_of_length_le (Nat.le_of_lt hlen), patch_append]
    exact .generate hs hl (patch_save ..) (hlocales.trans hcurrent) hdone

/-- A careful run when only `Locales.xml` has changed. -/
theorem Inv.run_of_locales (h : Inv py ss ls d.files) (hs : d.strings ∈ ss) (hl : d.locales ∈ ls)
    (hstrings : d.files .stringsMd5 = some (py.md5 d.strings))
    (hchanged : d.files .localesMd5 ≠ some (py.md5 d.locales)) (hq : n < 34 ∨ Completes py d n) :
    Inv py ss ls (patch d.files ((script py d).1.take n)) := by
  unfold Completes at hq
  rw [script_of_locales hstrings hchanged] at hq ⊢
  have hlen : (save File.stringsMd5 (py.md5 d.strings) ++
      save File.localesMd5 (py.md5 d.locales)).length = 34 := by
    rw [List.length_append, length_digest, length_digest]
  rcases hq with hn | ⟨hlen, hdone⟩
  · rw [List.take_append_of_le_length (by omega), List.take_append, patch_append, length_digest]
    exact (h.rewrite (.inl rfl) hstrings).interrupt (.inr rfl) (by omega)
  · rw [List.take_of_length_le (Nat.le_of_lt hlen), patch_append, patch_append]
    refine .generate hs hl ?_ (patch_save ..) hdone
    rw [patch_save_of_ne (by decide), patch_save]

/-- A run that finds nothing changed, stopped or not. -/
theorem Inv.run_of_unchanged (h : Inv py ss ls d.files)
    (hstrings : d.files .stringsMd5 = some (py.md5 d.strings))
    (hlocales : d.files .localesMd5 = some (py.md5 d.locales)) :
    Inv py ss ls (patch d.files ((script py d).1.take n)) := by
  rw [script_of_unchanged hstrings hlocales, List.take_append, patch_append]
  refine (h.rewrite (.inl rfl) hstrings).rewrite (.inr rfl) ?_
  rw [patch_take_save_of_ne (by decide), hlocales]

/-- The contents of the inputs are those of the history. -/
structure DiskInv (py : Python) (ss ls : List (List Byte)) (d : Disk) : Prop where
  strings : d.strings ∈ ss
  locales : d.locales ∈ ls
  files : Inv py ss ls d.files

theorem DiskInv.step {e : Event} (h : DiskInv py ss ls d)
    (hs : ∀ content, e = .editStrings content → content ∈ ss)
    (hl : ∀ content, e = .editLocales content → content ∈ ls) (hq : Careful py d e) :
    DiskInv py ss ls (event py d e) := by
  obtain ⟨hstrings, hlocales, hfiles⟩ := h
  cases e with
  | editStrings content => exact ⟨hs content rfl, hlocales, hfiles⟩
  | editLocales content => exact ⟨hstrings, hl content rfl, hfiles⟩
  | run n =>
    refine ⟨hstrings, hlocales, ?_⟩
    unfold Careful at hq
    split_ifs at hq with hsame hsame'
    · exact hfiles.run_of_strings hstrings hlocales hsame hq
    · exact hfiles.run_of_locales hstrings hlocales (not_not.mp hsame) hsame' hq
    · exact hfiles.run_of_unchanged (not_not.mp hsame) (not_not.mp hsame')

/-! ## The skip -/

theorem recorded_of_eq (h : files cache = some (py.md5 content)) : Recorded files cache := by
  unfold Recorded
  rw [h, Option.map_some, py.length_md5]

theorem DiskInv.skipOk (h : DiskInv py ss ls d) (hss : Distinguished py ss)
    (hls : Distinguished py ls) : SkipOk py d := by
  intro n hskip
  obtain ⟨hstrings, hlocales⟩ := unchanged_of_skips hskip
  have hfiles : (event py d (.run n)).files = patch d.files ((script py d).1.take n) := rfl
  obtain ⟨s, hs, l, hl, hs', hl', hgen⟩ :=
    h.files.generated (recorded_of_eq hstrings) (recorded_of_eq hlocales)
  obtain rfl : d.strings = s :=
    hss _ h.strings s hs (Option.some.inj (hstrings.symm.trans hs'))
  obtain rfl : d.locales = l :=
    hls _ h.locales l hl (Option.some.inj (hlocales.symm.trans hl'))
  refine hgen.congr fun f hf => ?_
  rw [hfiles, script_of_unchanged hstrings hlocales, List.take_append, patch_append]
  have hne : f ≠ .stringsMd5 ∧ f ≠ .localesMd5 := by
    constructor <;> rintro rfl <;> exact absurd hf (by decide)
  rw [patch_take_save_of_ne hne.2, patch_take_save_of_ne hne.1]

/-- In a history of careful runs whatever is skipped is up to date. -/
theorem skipOk_of_careful (py : Python) (d : Disk) (es : List Event)
    (hstart : d.files .stringsMd5 = none)
    (hstrings : Distinguished py (stringsOf d es)) (hlocales : Distinguished py (localesOf d es))
    (hcareful : Session.Steps (event py) d es (Careful py)) :
    Session.Always (event py) d es (SkipOk py) := by
  have hinv : DiskInv py (stringsOf d es) (localesOf d es) d := by
    refine ⟨List.mem_cons_self, List.mem_cons_self, .of_not_recorded (.inl rfl) ?_⟩
    unfold Recorded
    rw [hstart]
    nofun
  refine (Session.Always.of_steps (fun d e he h hq => h.step ?_ ?_ hq) hinv hcareful).mono
    fun _ h => h.skipOk hstrings hlocales
  · rintro content rfl
    exact List.mem_cons_of_mem _ (List.mem_filterMap.mpr ⟨_, he, rfl⟩)
  · rintro content rfl
    exact List.mem_cons_of_mem _ (List.mem_filterMap.mpr ⟨_, he, rfl⟩)

/-! ## Two histories that leave stale files, and one that does not -/

namespace Sample

def ascii (s : Text) : List Byte := s.map fun c => BitVec.ofNat 8 c.toNat

def strings : List Byte := ascii "<strings/>".toList

/-- Other blanks, the same strings. -/
def strings' : List Byte := ascii "<strings></strings>".toList

def noLocales : List Byte := ascii "<locales/>".toList

def english : List Byte :=
  ascii "<locales><locale id=\"en-us\" LCID=\"1033\">English</locale></locales>".toList

/-- Python on these inputs. -/
def python : Python where
  md5 content := (Bytes.ofNat 16 (
    if content = strings then 0x9e7bd3554ad06dca7f853f9c72f7f37c
    else if content = strings' then 0x901b15371b5100af52a54c92617b1ad0
    else if content = noLocales then 0xa715c70ef41ba5e612935a36d27d837c
    else 0xd096602a0702530cdc83aac00bec9c99)).reverse
  length_md5 _ := by rw [List.length_reverse, Bytes.length_ofNat]
  parseStrings _ := some []
  parseLocales content :=
    if content = english then
      some [⟨some "en-us".toList, some "1033".toList, some "English".toList⟩]
    else some []
  setOrder := id
  upper := List.map Char.toUpper
  int _ := some 1033
  encode s := some (ascii s)
  key := some (List.replicate 128 0)

/-- Nothing has been generated. -/
def checkout : Disk := ⟨strings, noLocales, fun _ => none⟩

end Sample

open Sample

/-- Two runs that generate, and one that skips. -/
theorem skipOk_sample :
    Session.Always (event python) checkout
      [.run 1000, .run 1000, .editLocales english, .run 1000, .run 1000] (SkipOk python) :=
  skipOk_of_careful python checkout _ rfl (by decide +kernel) (by decide +kernel)
    (by decide +kernel)

/-- Stale files are skipped after a run that stops right after the second digest, and, with no run
stopped, when both inputs are edited and `Locales.xml` is put back after the next run. -/
theorem not_skipOk :
    ¬ Session.Always (event python) checkout [.run 17, .run 34] (SkipOk python) ∧
      ¬ Session.Always (event python) checkout
        [.run 1000, .run 1000, .editStrings strings', .editLocales english, .run 1000,
          .editLocales noLocales] (SkipOk python) := by
  constructor
  · intro h
    have hgen := h.last 1000 (by decide +kernel)
    exact absurd (hgen.outputs .dataFile (by decide)) (by decide +kernel)
  · intro h
    have hgen := h.last 1000 (by decide +kernel)
    exact absurd (hgen.outputs .initFile (by decide)) (by decide +kernel)

end GenerateString

end DreamDota
