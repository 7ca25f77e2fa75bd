import DreamDota.Lib.Links
import DreamDota.Lib.Memory

/-!
# Hiding the module

`HideModule` takes the record of the module out of the three lists of loaded modules that the process
keeps: in the order of loading, of memory and of initialization. The lists are rings. The loop of a
list starts behind its first module, so a module that is first is not hidden.

1. `hideModule`: the code. Memory is read and written by dwords.
2. `hideLoop_spec`: the loop of one list.
3. `hideModule_spec`: the three lists lose their record, and nothing else is written.
-/

namespace DreamDota

namespace HideModule

/-! ## The code -/

/-- The dword at every address that is a multiple of four. -/
abbrev Dwords := Address → Address

/-- `mov [a], v` -/
def store (m : Dwords) (a v : Address) : Dwords := Function.update m a v

/-- `mov ebx, [eax]; mov ecx, [eax+4]; mov [ecx], ebx; mov [ebx+4], ecx` -/
def unlink (m : Dwords) (eax : Address) : Dwords :=
  let ebx : Address := m eax
  let ecx : Address := m (eax.at 4)
  store (store m ecx ebx) (ebx.at 4) ecx

/-- The loop of a list. `off` is the distance from the pointers of the list to the base address of
the module. -/
def hideLoop (m : Dwords) (handle : Address) (off : ℕ) (edx : Address) :
    ℕ → Address → Option Dwords
  | 0, _ => none
  | fuel + 1, esi =>
    let eax : Address := m esi
    if m (eax.at off) = handle then some (unlink m eax)
    else if edx = eax then some m
    else hideLoop m handle off edx fuel eax

variable (m : Dwords) (pebLdrData : Address) (handle : Address) (fuel : ℕ)

def inLoadOrderModuleList : Option Dwords :=
  hideLoop m handle 0x18 (m (pebLdrData.at 0x10)) fuel (m (pebLdrData.at 0x0C))

def inMemoryOrderModuleList : Option Dwords :=
  hideLoop m handle 0x10 (m (pebLdrData.at 0x18)) fuel (m (pebLdrData.at 0x14))

def inInitializationOrderModuleList : Option Dwords :=
  hideLoop m handle 0x08 (m (pebLdrData.at 0x20)) fuel (m (pebLdrData.at 0x1C))

/-- `HideModule`. `none` is a loop that takes more than `fuel` turns. -/
def hideModule : Option Dwords := do
  let m ← inLoadOrderModuleList m pebLdrData handle fuel
  let m ← inMemoryOrderModuleList m pebLdrData handle fuel
  inInitializationOrderModuleList m pebLdrData handle fuel

/-! ## One list -/

/-- The pointers of the cells of a list. -/
def linksAt (m : Dwords) : Links Address := ⟨m, fun a => m (a.at 4)⟩

/-- No pointer forward is a pointer back. -/
def Spaced (l : List Address) : Prop := ∀ a ∈ l, ∀ b ∈ l, a ≠ b.at 4

variable {m : Dwords} {handle : Address} {off fuel : ℕ} {s x : Address} {l l₁ l₂ : List Address}

theorem at_injective {a b : Address} {k : ℕ} (h : a.at k = b.at k) : a = b := by
  unfold Address.at at h
  exact BitVec.add_left_inj _ |>.mp h

/-- The four instructions unlink a cell. -/
theorem through_unlink (h : (linksAt m).Through s (l₁ ++ x :: l₂))
    (hs : Spaced (s :: (l₁ ++ x :: l₂))) :
    (linksAt (unlink m x)).Through s (l₁ ++ l₂) ∧
      ∀ y, (∀ c ∈ s :: (l₁ ++ x :: l₂), y ≠ c ∧ y ≠ c.at 4) → unlink m x y = m y := by
  obtain ⟨u, a, hu⟩ := Links.exists_concat s l₁
  obtain ⟨b, v, hv⟩ := Links.exists_cons l₂ s
  obtain ⟨hax, hxb⟩ := h.around hu hv
  have ha : a ∈ s :: (l₁ ++ x :: l₂) := by
    rw [← List.cons_append, hu]
    simp
  have hb : b ∈ s :: (l₁ ++ x :: l₂) := by
    have hb : b ∈ l₂ ++ [s] := hv ▸ List.mem_cons_self
    simp only [List.mem_append, List.mem_singleton] at hb
    rcases hb with hb | rfl
    · simp [hb]
    · exact List.mem_cons_self
  have hsub : ∀ {c}, c ∈ s :: (l₁ ++ l₂) → c ∈ s :: (l₁ ++ x :: l₂) := by
    intro c hc
    simp only [List.mem_cons, List.mem_append] at hc ⊢
    tauto
  have hm : unlink m x = store (store m a b) (b.at 4) a := by
    unfold unlink
    rw [show m x = b from hxb.1, show m (x.at 4) = a from hax.2]
  refine ⟨?_, fun y hy => ?_⟩
  · have hjoin := h.unlink
    rw [hxb.1, hax.2] at hjoin
    rw [hm]
    refine hjoin.congr (fun c hc => ?_) fun c hc => ?_
    · change Function.update (Function.update m a b) (b.at 4) a c = Function.update m a b c
      exact Function.update_of_ne (hs c (hsub hc) b hb) _ _
    · change Function.update (Function.update m a b) (b.at 4) a (c.at 4) =
        Function.update (fun c => m (c.at 4)) b a c
      by_cases hcb : c = b
      · rw [hcb, Function.update_self, Function.update_self]
      · rw [Function.update_of_ne (fun h => hcb (at_injective h)),
          Function.update_of_ne (hs a ha c (hsub hc)).symm, Function.update_of_ne hcb]
  · rw [hm]
    change Function.update (Function.update m a b) (b.at 4) a y = m y
    rw [Function.update_of_ne (hy b hb).2, Function.update_of_ne (hy a ha).1]

/-- The loop goes along the cells `l₂` behind `x` and unlinks the first one of the module. -/
theorem hideLoop_spec (handle : Address) (off fuel : ℕ) (l₁ : List Address)
    (h : (linksAt m).Through s (l₁ ++ x :: l₂))
    (hs : Spaced (s :: (l₁ ++ x :: l₂))) (hne : l₂ ≠ []) (hfuel : l₂.length ≤ fuel) :
    ∃ m', hideLoop m handle off (m (s.at 4)) fuel x = some m' ∧
      (linksAt m').Through s (l₁ ++ x :: l₂.eraseP fun c => m (c.at off) = handle) ∧
      ∀ y, (∀ c ∈ s :: (l₁ ++ x :: l₂), y ≠ c ∧ y ≠ c.at 4) → m' y = m y := by
  induction l₂ generalizing l₁ x fuel with
  | nil => exact absurd rfl hne
  | cons c l₂ ih =>
    obtain ⟨fuel, rfl⟩ : ∃ f, fuel = f + 1 := ⟨fuel - 1, by rw [List.length_cons] at hfuel; omega⟩
    obtain ⟨u, a, hu⟩ := Links.exists_concat s l₁
    have hxc : m x = c := (h.around hu (v := l₂ ++ [s]) rfl).2.1
    have hassoc : l₁ ++ x :: c :: l₂ = (l₁ ++ [x]) ++ c :: l₂ := by simp
    rw [hassoc] at h hs
    unfold hideLoop
    simp only [hxc]
    by_cases hc : m (c.at off) = handle
    · rw [if_pos hc, List.eraseP_cons_of_pos (by simpa using hc)]
      obtain ⟨hthrough, hframe⟩ := through_unlink h hs
      refine ⟨_, rfl, by simpa using hthrough, ?_⟩
      rw [hassoc]
      exact hframe
    · rw [if_neg hc, List.eraseP_cons_of_neg (by simpa using hc)]
      by_cases hlast : l₂ = []
      · subst hlast
        have hprev : m (s.at 4) = c :=
          h.prev_sentinel (u := s :: (l₁ ++ [x])) (List.cons_append).symm
        rw [if_pos hprev]
        refine ⟨m, rfl, ?_, fun y _ => rfl⟩
        rw [List.eraseP_nil, hassoc]
        exact h
      · have hprev : m (s.at 4) ≠ c := by
          obtain ⟨w, d, hd⟩ := Links.exists_concat c l₂
          have hs' : m (s.at 4) = d := by
            refine h.prev_sentinel (u := s :: (l₁ ++ [x]) ++ w) ?_
            rw [hd]
            simp
          rw [hs']
          rintro rfl
          cases w with
          | nil => exact hlast (by simpa using hd)
          | cons e w =>
            rw [List.cons_append, List.cons.injEq] at hd
            have hnd := (List.nodup_cons.mp h.nodup).2.of_append_right
            exact (List.nodup_cons.mp hnd).1 (hd.2 ▸ List.mem_append_right w List.mem_cons_self)
        rw [if_neg hprev]
        rw [List.length_cons, Nat.add_le_add_iff_right] at hfuel
        obtain ⟨m', hm', hthrough, hframe⟩ := ih _ _ h hs hlast hfuel
        refine ⟨m', hm', by simpa using hthrough, ?_⟩
        rw [hassoc]
        exact hframe

/-! ## The three lists -/

/-- What a list is after the code ran: the first module is not looked at. -/
def hidden (m : Dwords) (handle : Address) : List Address → List Address
  | [] => []
  | e :: es => e :: es.eraseP fun e => m (e.at 0x18) = handle

/-- The records `es`, of seven dwords each, do not overlap. The one of the sentinels, `ring`, is
among them. -/
structure Layout (m : Dwords) (ring : Address) (es : Fin 3 → List Address) : Prop where
  apart : ∀ i j, ∀ a ∈ ring :: es i, ∀ b ∈ ring :: es j, a ≠ b → Apart a 0x1C b 0x1C
  through : ∀ i : Fin 3,
    (linksAt m).Through (ring.at (8 * i)) ((es i).map fun e => e.at (8 * i))

variable {m' : Dwords} {ring : Address} {es : Fin 3 → List Address} {i j : Fin 3}

/-- Dwords of the records differ if their distances to the start do. -/
theorem Layout.ne (h : Layout m ring es) {a b : Address} {p q : ℕ} (ha : a ∈ ring :: es i)
    (hb : b ∈ ring :: es j) (hp : p < 0x1C) (hq : q < 0x1C) (hpq : p ≠ q) : a.at p ≠ b.at q := by
  by_cases hab : a = b
  · subst hab
    intro heq
    have := congrArg (fun x => (x - a).toNat) heq
    simp only [toNat_at_sub (show p < 2 ^ 32 by omega), toNat_at_sub (show q < 2 ^ 32 by omega)]
      at this
    exact hpq this
  · intro heq
    have hin := (within_at (a := a) (n := 0x1C) (show p < 2 ^ 32 by omega)).mpr hp
    exact h.apart i j a ha b hb hab _ hin
      (heq ▸ (within_at (a := b) (n := 0x1C) (show q < 2 ^ 32 by omega)).mpr hq)

theorem mem_cells {c : Address} {k : ℕ} {es : List Address}
    (hc : c ∈ ring.at k :: es.map fun e => e.at k) : ∃ e ∈ ring :: es, c = e.at k := by
  rcases List.mem_cons.mp hc with rfl | hc
  · exact ⟨ring, List.mem_cons_self, rfl⟩
  · obtain ⟨e, he, rfl⟩ := List.mem_map.mp hc
    exact ⟨e, List.mem_cons_of_mem _ he, rfl⟩

/-- The code of one list. -/
theorem Layout.hide (h : Layout m ring es) (handle : Address) (i : Fin 3) (hlen : 2 ≤ (es i).length)
    (hfuel : (es i).length ≤ fuel) :
    ∃ m', hideLoop m handle (0x18 - 8 * i) (m ((ring.at (8 * i)).at 4)) fuel
        (m (ring.at (8 * i))) = some m' ∧
      (linksAt m').Through (ring.at (8 * i)) ((hidden m handle (es i)).map fun e => e.at (8 * i)) ∧
      ∀ y, (∀ e ∈ ring :: es i, y ≠ e.at (8 * i) ∧ y ≠ e.at (8 * i + 4)) → m' y = m y := by
  have hthrough := h.through i
  have hspaced : Spaced (ring.at (8 * i) :: (es i).map fun e => e.at (8 * i)) := by
    intro a ha b hb
    obtain ⟨e, he, rfl⟩ := mem_cells ha
    obtain ⟨e', he', rfl⟩ := mem_cells hb
    rw [at_at]
    exact h.ne he he' (by omega) (by omega) (by omega)
  match hes : es i, hlen with
  | e :: es', hlen =>
    rw [hes, List.map_cons] at hthrough hspaced
    have hfirst : m (ring.at (8 * i)) = e.at (8 * i) :=
      hthrough.next_sentinel (v := (es'.map fun e => e.at (8 * i)) ++ [ring.at (8 * i)]) rfl
    have hne : (es'.map fun e => e.at (8 * i)) ≠ [] := by
      rintro hnil
      rw [List.map_eq_nil_iff] at hnil
      rw [hnil] at hlen
      simp at hlen
    obtain ⟨m', hm', hthrough', hframe⟩ := hideLoop_spec handle (0x18 - 8 * i) fuel []
      hthrough hspaced hne (by
        rw [hes, List.length_cons] at hfuel
        rw [List.length_map]
        omega)
    refine ⟨m', by rw [hfirst]; exact hm', ?_, fun y hy => hframe y fun c hc => ?_⟩
    · rw [List.eraseP_map] at hthrough'
      have hbase : ((fun c : Address => decide (m (c.at (0x18 - 8 * i)) = handle)) ∘
          fun e : Address => e.at (8 * i)) = fun e => decide (m (e.at 0x18) = handle) := by
        funext e
        rw [Function.comp_apply, at_at, Nat.add_sub_cancel' (by omega)]
      rw [hbase] at hthrough'
      exact hthrough'
    · have hc : c ∈ ring.at (8 * i) :: (e :: es').map fun e => e.at (8 * i) := hc
      obtain ⟨e', he', rfl⟩ := mem_cells hc
      rw [at_at]
      exact hy e' he'

theorem mem_hidden {e : Address} {es : List Address} (he : e ∈ hidden m handle es) : e ∈ es := by
  cases es with
  | nil => exact he
  | cons c es => exact (List.Sublist.cons_cons c List.eraseP_sublist).subset he

theorem eraseP_congr {p q : Address → Bool} : ∀ {es : List Address}, (∀ e ∈ es, p e = q e) →
    es.eraseP p = es.eraseP q
  | [], _ => rfl
  | e :: es, h => by
    rw [List.eraseP_cons, List.eraseP_cons, h e List.mem_cons_self,
      eraseP_congr fun e he => h e (List.mem_cons_of_mem _ he)]

/-- The base addresses are read only. -/
theorem hidden_congr {es : List Address} (h : ∀ e ∈ es, m' (e.at 0x18) = m (e.at 0x18)) :
    hidden m' handle es = hidden m handle es := by
  cases es with
  | nil => rfl
  | cons c es =>
    refine congrArg (c :: ·) (eraseP_congr fun e he => ?_)
    rw [h e (List.mem_cons_of_mem c he)]

/-- The code of one list leaves the other two as they are. -/
theorem Layout.step (h : Layout m ring es) (handle : Address) (fuel : ℕ) (i : Fin 3)
    (hlen : 2 ≤ (es i).length) (hfuel : (es i).length ≤ fuel) :
    ∃ m', hideLoop m handle (0x18 - 8 * i) (m ((ring.at (8 * i)).at 4)) fuel
        (m (ring.at (8 * i))) = some m' ∧
      Layout m' ring (Function.update es i (hidden m handle (es i))) ∧
      ∀ y, (∀ e ∈ ring :: es i, y ≠ e.at (8 * i) ∧ y ≠ e.at (8 * i + 4)) → m' y = m y := by
  obtain ⟨m', hm', hthrough, hframe⟩ := h.hide handle i hlen hfuel
  have hsub : ∀ j, ∀ e ∈ ring :: Function.update es i (hidden m handle (es i)) j,
      e ∈ ring :: es j := by
    intro j e he
    by_cases hj : j = i
    · subst hj
      rw [Function.update_self] at he
      rw [List.mem_cons] at he ⊢
      exact he.imp id mem_hidden
    · rwa [Function.update_of_ne hj] at he
  refine ⟨m', hm', ⟨fun j k a ha b hb => h.apart j k a (hsub j a ha) b (hsub k b hb), ?_⟩, hframe⟩
  intro j
  by_cases hj : j = i
  · subst hj
    rw [Function.update_self]
    exact hthrough
  · rw [Function.update_of_ne hj]
    have hji : j.val ≠ i.val := fun hval => hj (Fin.ext hval)
    refine (h.through j).congr (fun c hc => ?_) fun c hc => ?_
    all_goals
      obtain ⟨e, he, rfl⟩ := mem_cells hc
      refine hframe _ fun e' he' => ⟨?_, ?_⟩
    · exact h.ne he he' (by omega) (by omega) (by omega)
    · exact h.ne he he' (by omega) (by omega) (by omega)
    · rw [at_at]
      exact h.ne he he' (by omega) (by omega) (by omega)
    · rw [at_at]
      exact h.ne he he' (by omega) (by omega) (by omega)

/-- The first `n` lists are done: only their pointers were written. -/
structure Done (handle : Address) (m m' : Dwords) (ring : Address) (es : Fin 3 → List Address)
    (n : ℕ) : Prop where
  layout : Layout m' ring fun j => if j.val < n then hidden m handle (es j) else es j
  frame : ∀ y, (∀ i, ∀ e ∈ ring :: es i, y ≠ e.at (8 * i) ∧ y ≠ e.at (8 * i + 4)) → m' y = m y

theorem Done.zero (h : Layout m ring es) (handle : Address) : Done handle m m ring es 0 :=
  ⟨by simpa using h, fun _ _ => rfl⟩

theorem Done.next (h : Layout m ring es) (hd : Done handle m m' ring es i.val)
    (hlen : 2 ≤ (es i).length) (hfuel : (es i).length ≤ fuel) :
    ∃ m'', hideLoop m' handle (0x18 - 8 * i) (m' ((ring.at (8 * i)).at 4)) fuel
        (m' (ring.at (8 * i))) = some m'' ∧ Done handle m m'' ring es (i.val + 1) := by
  have hi : (if i.val < i.val then hidden m handle (es i) else es i) = es i :=
    if_neg (Nat.lt_irrefl _)
  obtain ⟨m'', hm'', hlay, hframe⟩ := hd.layout.step handle fuel i
    (by rw [hi]; exact hlen) (by rw [hi]; exact hfuel)
  rw [hi] at hframe hlay
  -- The base address of a module lies behind its pointers.
  have hbase : hidden m' handle (es i) = hidden m handle (es i) := by
    refine hidden_congr fun e he => hd.frame _ fun j e' he' => ⟨?_, ?_⟩
    all_goals exact h.ne (List.mem_cons_of_mem _ he) he' (by omega) (by omega) (by omega)
  refine ⟨m'', hm'', ?_, fun y hy => (hframe y (hy i)).trans (hd.frame y hy)⟩
  convert hlay using 1
  funext j
  by_cases hj : j = i
  · subst hj
    rw [Function.update_self, if_pos (Nat.lt_succ_self _), hbase]
  · have hji : j.val ≠ i.val := fun hval => hj (Fin.ext hval)
    rw [Function.update_of_ne hj]
    split_ifs <;> first | rfl | omega

/-- `HideModule` ends. It takes the record of the module out of every list where it is not first,
and writes the pointers of the lists only. -/
theorem hideModule_spec {pebLdrData : Address} (handle : Address) (fuel : ℕ)
    (h : Layout m (pebLdrData.at 0x0C) es)
    (hlen : ∀ i, 2 ≤ (es i).length) (hfuel : ∀ i, (es i).length ≤ fuel) :
    ∃ m', hideModule m pebLdrData handle fuel = some m' ∧
      Layout m' (pebLdrData.at 0x0C) (fun i => hidden m handle (es i)) ∧
      ∀ y, (∀ i, ∀ e ∈ pebLdrData.at 0x0C :: es i,
        y ≠ e.at (8 * i) ∧ y ≠ e.at (8 * i + 4)) → m' y = m y := by
  obtain ⟨m₁, hm₁, hd₁⟩ := (Done.zero h handle).next (i := 0) h (hlen 0) (hfuel 0)
  obtain ⟨m₂, hm₂, hd₂⟩ := hd₁.next (i := 1) h (hlen 1) (hfuel 1)
  obtain ⟨m₃, hm₃, hd₃⟩ := hd₂.next (i := 2) h (hlen 2) (hfuel 2)
  refine ⟨m₃, ?_, ?_, hd₃.frame⟩
  · simp only [at_at] at hm₁ hm₂ hm₃
    unfold hideModule inLoadOrderModuleList
    rw [show hideLoop m handle 0x18 (m (pebLdrData.at 0x10)) fuel (m (pebLdrData.at 0x0C)) = some m₁
      from hm₁]
    change (inMemoryOrderModuleList m₁ pebLdrData handle fuel).bind _ = _
    rw [show inMemoryOrderModuleList m₁ pebLdrData handle fuel = some m₂ from hm₂]
    exact hm₃
  · convert hd₃.layout using 1
    funext j
    exact (if_pos (by omega)).symm

/-- The memory of a process with three modules. The first one, the program, has no code that runs
when it is loaded. -/
def threeModules (y : Address) : Address :=
  ([(0x100C, 0x2000), (0x1010, 0x4000), (0x1014, 0x2008), (0x1018, 0x4008), (0x101C, 0x3010),
    (0x1020, 0x4010),
    (0x2000, 0x3000), (0x2004, 0x100C), (0x2008, 0x3008), (0x200C, 0x1014), (0x2018, 0x400000),
    (0x3000, 0x4000), (0x3004, 0x2000), (0x3008, 0x4008), (0x300C, 0x2008), (0x3010, 0x4010),
    (0x3014, 0x101C), (0x3018, 0x77000000),
    (0x4000, 0x100C), (0x4004, 0x3000), (0x4008, 0x1014), (0x400C, 0x3008), (0x4010, 0x101C),
    (0x4014, 0x3010), (0x4018, 0x10000000)] : List (Address × Address)).lookup y |>.getD 0

def threeRecords : Fin 3 → List Address
  | 0 => [0x2000, 0x3000, 0x4000]
  | 1 => [0x2000, 0x3000, 0x4000]
  | 2 => [0x3000, 0x4000]

instance (n : ℕ) : Std.Symm fun a b : Address => Apart a n b n :=
  ⟨fun _ _ h x hx hx' => h x hx' hx⟩

theorem layout_three : Layout threeModules ((0x1000 : Address).at 0x0C) threeRecords where
  apart := by
    have hsub : ∀ i, List.Sublist ((0x1000 : Address).at 0x0C :: threeRecords i)
        [0x100C, 0x2000, 0x3000, 0x4000] := by decide
    have hpair : List.Pairwise
        (fun a b : Address => a.toNat + 0x1C ≤ b.toNat ∧ b.toNat + 0x1C ≤ 2 ^ 32)
        [0x100C, 0x2000, 0x3000, 0x4000] := by decide
    have hapart : List.Pairwise (fun a b : Address => Apart a 0x1C b 0x1C)
        [0x100C, 0x2000, 0x3000, 0x4000] := hpair.imp fun h => apart_of_le h.1 h.2
    exact fun i j a ha b hb hab => hapart.forall ((hsub i).subset ha) ((hsub j).subset hb) hab
  through := by
    intro i
    match i with
    | 0 => exact ⟨by decide, by unfold Links.Joined; decide⟩
    | 1 => exact ⟨by decide, by unfold Links.Joined; decide⟩
    | 2 => exact ⟨by decide, by unfold Links.Joined; decide⟩

theorem hideModule_spec_three : ∃ m', hideModule threeModules 0x1000 0x10000000 3 = some m' ∧
    Layout m' ((0x1000 : Address).at 0x0C)
      (fun i => hidden threeModules 0x10000000 (threeRecords i)) := by
  obtain ⟨m', hm', hlay, -⟩ := hideModule_spec 0x10000000 3 layout_three (by decide) (by decide)
  exact ⟨m', hm', hlay⟩

end HideModule

end DreamDota
