import Mathlib.Data.List.Infix
import Mathlib.Logic.Function.Basic
import Mathlib.Tactic.Common

/-!
# Files that are written byte by byte

A program that may be stopped at any point leaves a prefix of its writes behind. `save` is the
writes of a file that is created, or truncated, and then grows: `patch_take_save` says what is left
of it after any number of them.
-/

namespace Files

variable {ι β : Type*} [DecidableEq ι]

/-- The content of each file. A file that does not exist has none. -/
abbrev Dir (ι β : Type*) := ι → Option (List β)

/-- The file has this content now. -/
structure Write (ι β : Type*) where
  file : ι
  content : List β

def patch (d : Dir ι β) (ws : List (Write ι β)) : Dir ι β :=
  ws.foldl (fun d w => Function.update d w.file (some w.content)) d

/-- The file is opened for writing, and gets its content byte by byte. -/
def save (f : ι) (content : List β) : List (Write ι β) :=
  content.inits.map fun part => ⟨f, part⟩

variable {d d' : Dir ι β} {ws ws' : List (Write ι β)} {f g : ι} {content : List β} {n : ℕ}

@[simp] theorem patch_nil (d : Dir ι β) : patch d [] = d := rfl

theorem patch_append (d : Dir ι β) (ws ws' : List (Write ι β)) :
    patch d (ws ++ ws') = patch (patch d ws) ws' :=
  List.foldl_append

/-- The other files are as they were. -/
theorem patch_of_ne (h : ∀ w ∈ ws, w.file ≠ f) : patch d ws f = d f := by
  induction ws generalizing d with
  | nil => rfl
  | cons w ws ih =>
    show patch (Function.update d w.file (some w.content)) ws f = d f
    rw [ih fun w' hw' => h w' (List.mem_cons_of_mem _ hw'),
      Function.update_of_ne (h w List.mem_cons_self).symm]

/-- What becomes of a file depends on no other file. -/
theorem patch_congr (h : d f = d' f) : patch d ws f = patch d' ws f := by
  induction ws generalizing d d' with
  | nil => exact h
  | cons w ws ih =>
    refine ih ?_
    show Function.update d w.file (some w.content) f = Function.update d' w.file (some w.content) f
    by_cases hf : f = w.file
    · subst hf
      rw [Function.update_self, Function.update_self]
    · rw [Function.update_of_ne hf, Function.update_of_ne hf, h]

/-- What becomes of a file that is written does not depend on what it was. -/
theorem patch_eq_of_mem {w : Write ι β} (h : w ∈ ws) (d d' : Dir ι β) :
    patch d ws w.file = patch d' ws w.file := by
  induction ws generalizing d d' with
  | nil => cases h
  | cons w' ws ih =>
    rcases List.mem_cons.mp h with rfl | h
    · show patch (Function.update d w.file (some w.content)) ws w.file =
        patch (Function.update d' w.file (some w.content)) ws w.file
      refine patch_congr ?_
      rw [Function.update_self, Function.update_self]
    · exact ih h _ _

/-- Writing the same once more changes nothing. -/
@[simp] theorem patch_patch (d : Dir ι β) (ws : List (Write ι β)) :
    patch (patch d ws) ws = patch d ws := by
  funext f
  by_cases h : ∃ w ∈ ws, w.file = f
  · obtain ⟨w, hw, rfl⟩ := h
    exact patch_eq_of_mem hw _ _
  · exact patch_of_ne fun w hw heq => h ⟨w, hw, heq⟩

omit [DecidableEq ι] in
@[simp] theorem length_save (f : ι) (content : List β) :
    (save f content).length = content.length + 1 := by
  rw [save, List.length_map, List.length_inits]

omit [DecidableEq ι] in
theorem file_of_mem_save {w : Write ι β} (h : w ∈ save f content) : w.file = f := by
  obtain ⟨part, -, rfl⟩ := List.mem_map.mp h
  rfl

theorem patch_take_save_of_ne (hg : g ≠ f) : patch d ((save f content).take n) g = d g :=
  patch_of_ne fun _ hw heq => hg (heq.symm.trans (file_of_mem_save (List.mem_of_mem_take hw)))

theorem patch_save_of_ne (hg : g ≠ f) : patch d (save f content) g = d g :=
  patch_of_ne fun _ hw heq => hg (heq.symm.trans (file_of_mem_save hw))

/-- What a save leaves that is stopped after `n + 1` of its writes. -/
theorem patch_take_save (hn : n ≤ content.length) :
    patch d ((save f content).take (n + 1)) f = some (content.take n) := by
  have hlt : n < (save f content).length := by
    rw [length_save]
    omega
  have hget : (save f content)[n] = ⟨f, content.take n⟩ := by
    simp only [save, List.getElem_map, List.getElem_inits]
  rw [List.take_succ_eq_append_getElem hlt, patch_append, hget]
  exact Function.update_self ..

@[simp] theorem patch_save (d : Dir ι β) (f : ι) (content : List β) :
    patch d (save f content) f = some content := by
  have htake := patch_take_save (d := d) (f := f) (Nat.le_refl content.length)
  rwa [List.take_length, List.take_of_length_le (by rw [length_save])] at htake

end Files
