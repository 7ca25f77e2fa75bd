import DreamDota.Json.LinkHash

/-!
# The hash table is a map with an order

What a table with distinct keys holds, `Shows`, is a list of keys and values. The operations do to
this list what their names say.

1. `Keeps`: the invariant. Every slot that is in use is reached from the slot of its key without
   meeting an empty one.
2. `lookupEntry_of_key`, `lookupEntry_of_absent`, `lookupEntry_eq_none`: a lookup of a key that is
   there ends, a lookup of another one ends if and only if a slot is empty.
3. `Shows.delete`, `Shows.place`, `Shows.resize`, `Shows.insert`: one lemma for each operation.
-/

namespace DreamDota

namespace LhTable

variable {K V : Type} {hash : K → ℕ} {t t' : LhTable K V}

/-! ## The invariant -/

/-- The slots `l` are in use, chained in this order, under distinct keys that a lookup finds. -/
structure Keeps (hash : K → ℕ) (t : LhTable K V) (l : List (Fin t.size)) : Prop where
  chained : t.cells.Chained l
  used : ∀ n, n ∈ l ↔ ∃ k, (t.cells.table n).k = .key k
  unique : ∀ n n' k, (t.cells.table n).k = .key k → (t.cells.table n').k = .key k → n = n'
  reach : ∀ n k, (t.cells.table n).k = .key k →
    Probe.Way (fun i => (t.cells.table i).k ≠ .empty) (t.slot hash k) n
  count : t.cells.count = l.length

variable {l : List (Fin t.size)} {n : Fin t.size} {k : K} {v : Option V}

theorem isFree_iff : t.isFree n = true ↔ ∀ k, (t.cells.table n).k ≠ .key k := by
  unfold isFree
  split
  · next k hk => exact iff_of_false Bool.false_ne_true fun h => h k hk
  · next h => exact iff_of_true rfl h

theorem isFree_eq_false_iff : t.isFree n = false ↔ ∃ k, (t.cells.table n).k = .key k := by
  rw [← Bool.not_eq_true, isFree_iff]
  simp

theorem isAnswer_iff [DecidableEq K] : t.isAnswer k n = true ↔
    (t.cells.table n).k = .empty ∨ (t.cells.table n).k = .key k := by
  unfold isAnswer
  cases (t.cells.table n).k <;> simp

theorem Keeps.length_le (h : Keeps hash t l) : l.length ≤ t.size := by
  simpa using List.Nodup.length_le_card h.chained.nodup

/-- A table that is not full has a free slot. -/
theorem Keeps.exists_free (h : Keeps hash t l) (hlt : t.cells.count < t.size) :
    ∃ n, t.isFree n = true := by
  by_contra hno
  push Not at hno
  have hall : ∀ n, n ∈ l := by
    intro n
    rw [h.used, ← isFree_eq_false_iff]
    exact Bool.eq_false_iff.mpr (hno n)
  have hcard : t.size ≤ l.length := by
    have := Finset.card_le_card (fun n _ => List.mem_toFinset.mpr (hall n) :
      (Finset.univ : Finset (Fin t.size)) ⊆ l.toFinset)
    rw [Finset.card_univ, Fintype.card_fin] at this
    exact this.trans (List.toFinset_card_le l)
  have := h.count
  omega

/-! ## What a table shows -/

/-- The table holds the keys and values `a`, in the order of the chain. -/
def Shows (hash : K → ℕ) (t : LhTable K V) (a : List (K × Option V)) : Prop :=
  ∃ l, Keeps hash t l ∧ l.filterMap t.cells.entry = a

variable {a : List (K × Option V)}

theorem Shows.foreach (h : Shows hash t a) : t.cells.foreach = some a := by
  obtain ⟨l, hl, rfl⟩ := h
  exact LhCells.foreach_of_chained hl.chained

theorem Shows.free (h : Shows hash t a) : t.free = some (t.cells.freed ++ a) := by
  unfold LhTable.free
  rw [h.foreach, Option.map_some]

theorem Keeps.length_filterMap (h : Keeps hash t l) :
    (l.filterMap t.cells.entry).length = l.length := by
  rw [List.filterMap_length_eq_length]
  intro n hn
  obtain ⟨k, hk⟩ := (h.used n).mp hn
  rw [LhCells.entry_eq_some_iff.mpr ⟨hk, rfl⟩]
  rfl

theorem Shows.count (h : Shows hash t a) : t.cells.count = a.length := by
  obtain ⟨l, hl, rfl⟩ := h
  rw [hl.count, hl.length_filterMap]

theorem Keeps.mem_entries (h : Keeps hash t l) :
    (k, v) ∈ l.filterMap t.cells.entry ↔
      ∃ n, (t.cells.table n).k = .key k ∧ (t.cells.table n).v = v := by
  rw [List.mem_filterMap]
  constructor
  · rintro ⟨n, -, hn⟩
    exact ⟨n, LhCells.entry_eq_some_iff.mp hn⟩
  · rintro ⟨n, hk, hv⟩
    exact ⟨n, (h.used n).mpr ⟨k, hk⟩, LhCells.entry_eq_some_iff.mpr ⟨hk, hv⟩⟩

theorem Keeps.mem_keys (h : Keeps hash t l) :
    k ∈ (l.filterMap t.cells.entry).map Prod.fst ↔ ∃ n, (t.cells.table n).k = .key k := by
  rw [List.mem_map]
  constructor
  · rintro ⟨⟨k', v⟩, hmem, rfl⟩
    obtain ⟨n, hk, -⟩ := h.mem_entries.mp hmem
    exact ⟨n, hk⟩
  · rintro ⟨n, hk⟩
    exact ⟨(k, (t.cells.table n).v), h.mem_entries.mpr ⟨n, hk, rfl⟩, rfl⟩

theorem Keeps.nodup_keys (h : Keeps hash t l) :
    ((l.filterMap t.cells.entry).map Prod.fst).Nodup := by
  rw [List.map_filterMap]
  refine List.Nodup.filterMap ?_ h.chained.nodup
  intro n n' k hn hn'
  have hkey : ∀ {n k}, k ∈ Option.map Prod.fst (t.cells.entry n) →
      (t.cells.table n).k = .key k := by
    intro n k hk
    obtain ⟨⟨k', v⟩, he, rfl⟩ := Option.map_eq_some_iff.mp hk
    exact (LhCells.entry_eq_some_iff.mp he).1
  exact h.unique n n' k (hkey hn) (hkey hn')

/-! ## Freed slots -/

/-- The only freed slot is the first one that an insertion of `k` would take. -/
def Settled (hash : K → ℕ) (t : LhTable K V) (k : K) : Prop :=
  ∀ i, (t.cells.table i).k = .freed → Probe.Way (fun c => t.isFree c = false) (t.slot hash k) i

/-- No slot is freed. -/
def Clean (t : LhTable K V) : Prop := ∀ i, (t.cells.table i).k ≠ .freed

theorem Clean.settled (h : t.Clean) (hash : K → ℕ) (k : K) : t.Settled hash k :=
  fun i hi => absurd hi (h i)

/-! ## Lookups -/

section operations

variable [DecidableEq K]

theorem Keeps.lookupEntry_of_key (h : Keeps hash t l) (hk : (t.cells.table n).k = .key k) :
    t.lookupEntry hash k = some (some n) := by
  have hway : Probe.Way (fun i => t.isAnswer k i = false) (t.slot hash k) n := by
    refine (h.reach n k hk).first.mono fun i hi => ?_
    rw [← Bool.not_eq_true, isAnswer_iff, not_or]
    exact ⟨hi.1, fun hik => hi.2 (h.unique i n k hik hk)⟩
  unfold lookupEntry
  rw [Probe.search_of_way (isAnswer_iff.mpr (Or.inr hk)) hway, Option.map_some]
  simp [hk]

theorem lookupEntry_of_absent (hk : ∀ n, (t.cells.table n).k ≠ .key k)
    (hempty : ∃ n, (t.cells.table n).k = .empty) : t.lookupEntry hash k = some none := by
  obtain ⟨n, hn⟩ := hempty
  have hsome : (Probe.search (t.isAnswer k) t.size (t.slot hash k)).isSome :=
    Probe.search_isSome_iff.mpr ⟨n, isAnswer_iff.mpr (Or.inl hn)⟩
  obtain ⟨i, hi⟩ := Option.isSome_iff_exists.mp hsome
  have hie : (t.cells.table i).k = .empty := by
    rcases isAnswer_iff.mp (Probe.of_search_eq_some hi).1 with h | h
    · exact h
    · exact absurd h (hk i)
  unfold lookupEntry
  rw [hi, Option.map_some]
  simp [hie]

/-- The loop of a lookup that finds neither the key nor an empty slot has no end. -/
theorem lookupEntry_eq_none (hk : ∀ n, (t.cells.table n).k ≠ .key k)
    (hempty : ∀ n, (t.cells.table n).k ≠ .empty) (fuel : ℕ) :
    Probe.search (t.isAnswer k) fuel (t.slot hash k) = none := by
  refine Probe.search_eq_none (fun i => ?_) _ _
  rw [← Bool.not_eq_true, isAnswer_iff, not_or]
  exact ⟨hempty i, hk i⟩

/-! ## Deletion -/

/-- The list without the key `k`. -/
def erase (a : List (K × Option V)) (k : K) : List (K × Option V) := a.filter fun e => e.1 ≠ k

theorem erase_of_notMem (h : k ∉ a.map Prod.fst) : erase a k = a := by
  unfold erase
  rw [List.filter_eq_self]
  intro e he
  simp only [ne_eq, decide_not, Bool.not_eq_eq_eq_not, Bool.not_true, decide_eq_false_iff_not]
  rintro rfl
  exact h (List.mem_map_of_mem he)

theorem notMem_erase (a : List (K × Option V)) (k : K) : k ∉ (erase a k).map Prod.fst := by
  unfold erase
  simp

theorem Keeps.delete_of_key (h : Keeps hash t l) (hk : (t.cells.table n).k = .key k) :
    ∃ t', t.delete hash k = some t' ∧
      Shows hash t' (erase (l.filterMap t.cells.entry) k) ∧ t'.size = t.size ∧
      (t'.cells.freed ++ erase (l.filterMap t.cells.entry) k).Perm
        (t.cells.freed ++ l.filterMap t.cells.entry) ∧ (t.Clean → t'.Settled hash k) := by
  obtain ⟨l₁, l₂, rfl⟩ := List.mem_iff_append.mp ((h.used n).mpr ⟨k, hk⟩)
  have hentry : t.cells.entry n = some (k, (t.cells.table n).v) :=
    LhCells.entry_eq_some_iff.mpr ⟨hk, rfl⟩
  obtain ⟨c, hc, hchain, hbut, hfreed, hcount, hlog⟩ := LhCells.deleteEntry_eq h.chained hentry
  have hn : n ∉ l₁ ++ l₂ := (List.nodup_cons.mp (List.nodup_middle.mp h.chained.nodup)).1
  have hkey : ∀ {i k'}, (c.table i).k = .key k' → i ≠ n ∧ (t.cells.table i).k = .key k' := by
    intro i k' hi
    have hin : i ≠ n := by
      rintro rfl
      rw [hfreed] at hi
      exact absurd hi (by simp)
    exact ⟨hin, (hbut i hin).1 ▸ hi⟩
  have hempty : ∀ i, (t.cells.table i).k ≠ .empty → (c.table i).k ≠ .empty := by
    intro i hi
    by_cases hin : i = n
    · rw [hin, hfreed]
      simp
    · rwa [(hbut i hin).1]
  have hkeeps : Keeps hash { t with cells := c } (l₁ ++ l₂) := by
    refine ⟨hchain, fun i => ?_, fun i i' k' hi hi' => ?_, fun i k' hi => ?_, ?_⟩
    · constructor
      · intro hi
        have hin : i ≠ n := fun hin => hn (hin ▸ hi)
        obtain ⟨k', hk'⟩ := (h.used i).mp (List.mem_append.mpr
          ((List.mem_append.mp hi).imp id (List.mem_cons_of_mem n)))
        exact ⟨k', (hbut i hin).1.trans hk'⟩
      · rintro ⟨k', hk'⟩
        obtain ⟨hin, hi⟩ := hkey hk'
        have := (h.used i).mpr ⟨k', hi⟩
        rw [List.mem_append, List.mem_cons] at this
        rw [List.mem_append]
        exact this.imp id fun h => h.resolve_left hin
    · exact h.unique i i' k' (hkey hi).2 (hkey hi').2
    · exact (h.reach i k' (hkey hi).2).mono hempty
    · have := h.count
      change c.count = _
      rw [hcount, this, List.length_append, List.length_cons, List.length_append]
      omega
  have herase : erase ((l₁ ++ n :: l₂).filterMap t.cells.entry) k =
      (l₁ ++ l₂).filterMap t.cells.entry := by
    have hk₁ : ∀ i ∈ l₁ ++ l₂, ∀ e, t.cells.entry i = some e → e.1 ≠ k := by
      rintro i hi ⟨k', v'⟩ he rfl
      have := h.unique i n k' (LhCells.entry_eq_some_iff.mp he).1 hk
      exact hn (this ▸ hi)
    rw [List.filterMap_append, List.filterMap_append, List.filterMap_cons, hentry]
    unfold erase
    rw [List.filter_append, List.filter_cons_of_neg (by simp)]
    congr 1
    all_goals
      refine List.filter_eq_self.mpr fun e he => ?_
      obtain ⟨i, hi, he⟩ := List.mem_filterMap.mp he
      simpa using hk₁ i (List.mem_append.mpr (by tauto)) e he
  refine ⟨{ t with cells := c }, ?_, ⟨_, hkeeps, ?_⟩, rfl, ?_, fun hclean i hi => ?_⟩
  · unfold delete
    rw [h.lookupEntry_of_key hk]
    simp [hc]
  · exact (hbut.filterMap hn).trans herase.symm
  · change (c.freed ++ _).Perm _
    rw [herase, hlog, List.append_assoc]
    refine List.Perm.append_left _ ?_
    rw [List.filterMap_append, List.filterMap_append, List.filterMap_cons, hentry,
      List.singleton_append]
    exact List.perm_middle.symm
  · -- The way to the slot of `k` led through slots in use only.
    have hin : i = n := by
      by_contra hin
      exact hclean i ((hbut i hin).1 ▸ hi)
    subst hin
    refine (h.reach i k hk).first.mono fun j hj => ?_
    rw [isFree_eq_false_iff]
    change ∃ k, (c.table j).k = .key k
    rw [(hbut j hj.2).1]
    cases hjk : (t.cells.table j).k with
    | empty => exact absurd hjk hj.1
    | freed => exact absurd hjk (hclean j)
    | key k => exact ⟨k, rfl⟩

theorem delete_of_absent (hk : ∀ n, (t.cells.table n).k ≠ .key k)
    (hempty : ∃ n, (t.cells.table n).k = .empty) : t.delete hash k = some t := by
  unfold delete
  rw [lookupEntry_of_absent hk hempty]
  rfl

/-- What a deletion does, if it returns. -/
theorem Shows.delete (h : Shows hash t a) (hd : t.delete hash k = some t') :
    Shows hash t' (erase a k) ∧ t'.size = t.size ∧
      (t'.cells.freed ++ erase a k).Perm (t.cells.freed ++ a) ∧
      (t.Clean → t'.Settled hash k) := by
  obtain ⟨l, hl, rfl⟩ := h
  by_cases hk : ∃ n, (t.cells.table n).k = .key k
  · obtain ⟨n, hn⟩ := hk
    obtain ⟨t₁, ht₁, hs⟩ := hl.delete_of_key hn
    rw [hd, Option.some_inj] at ht₁
    exact ht₁ ▸ hs
  · have herase : erase (l.filterMap t.cells.entry) k = l.filterMap t.cells.entry :=
      erase_of_notMem fun hmem => hk (hl.mem_keys.mp hmem)
    push Not at hk
    have ht : t' = t := by
      unfold LhTable.delete at hd
      by_cases hempty : ∃ n, (t.cells.table n).k = .empty
      · rw [lookupEntry_of_absent hk hempty] at hd
        simpa using hd.symm
      · push Not at hempty
        rw [lookupEntry, lookupEntry_eq_none hk hempty] at hd
        simp at hd
    rw [ht, herase]
    exact ⟨⟨l, hl, rfl⟩, rfl, List.Perm.refl _, fun hclean => hclean.settled hash k⟩

/-- The lookup of a key returns if and only if the key is there or a slot is empty. -/
theorem Shows.lookupEntry_isSome (h : Shows hash t a) : (t.lookupEntry hash k).isSome ↔
    k ∈ a.map Prod.fst ∨ ∃ n, (t.cells.table n).k = .empty := by
  obtain ⟨l, hl, rfl⟩ := h
  rw [hl.mem_keys]
  by_cases hk : ∃ n, (t.cells.table n).k = .key k
  · obtain ⟨n, hn⟩ := hk
    rw [hl.lookupEntry_of_key hn]
    exact iff_of_true rfl (Or.inl ⟨n, hn⟩)
  · rw [or_iff_right hk]
    push Not at hk
    by_cases hempty : ∃ n, (t.cells.table n).k = .empty
    · rw [lookupEntry_of_absent hk hempty]
      exact iff_of_true rfl hempty
    · refine iff_of_false ?_ hempty
      push Not at hempty
      unfold LhTable.lookupEntry
      rw [lookupEntry_eq_none hk hempty]
      simp

/-- A deletion returns if its lookup does. -/
theorem Shows.delete_isSome (h : Shows hash t a) (hr : (t.lookupEntry hash k).isSome) :
    (t.delete hash k).isSome := by
  obtain ⟨l, hl, rfl⟩ := h
  by_cases hk : ∃ n, (t.cells.table n).k = .key k
  · obtain ⟨n, hn⟩ := hk
    obtain ⟨t', ht', -⟩ := hl.delete_of_key hn
    rw [ht']
    rfl
  · have hempty := (Shows.lookupEntry_isSome ⟨l, hl, rfl⟩).mp hr
    rw [hl.mem_keys, or_iff_right hk] at hempty
    push Not at hk
    rw [delete_of_absent hk hempty]
    rfl

theorem lookup_of_mem (hnd : (a.map Prod.fst).Nodup) (hmem : (k, v) ∈ a) :
    a.lookup k = some v := by
  obtain ⟨a₁, a₂, rfl⟩ := List.mem_iff_append.mp hmem
  refine List.lookup_eq_some_iff.mpr ⟨a₁, a₂, rfl, fun e he => ?_⟩
  rw [List.map_append, List.map_cons] at hnd
  simp only [bne_iff_ne]
  rintro rfl
  exact List.disjoint_of_nodup_append hnd (List.mem_map_of_mem he) List.mem_cons_self

/-- What a lookup finds, if it returns. -/
theorem Shows.lookup {r : Option V} (h : Shows hash t a) (hr : t.lookup hash k = some r) :
    r = (a.lookup k).join := by
  obtain ⟨l, hl, rfl⟩ := h
  unfold LhTable.lookup at hr
  by_cases hk : ∃ n, (t.cells.table n).k = .key k
  · obtain ⟨n, hn⟩ := hk
    rw [hl.lookupEntry_of_key hn, Option.map_some, Option.some_inj] at hr
    have hmem : (k, (t.cells.table n).v) ∈ l.filterMap t.cells.entry :=
      hl.mem_entries.mpr ⟨n, hn, rfl⟩
    rw [← hr, lookup_of_mem hl.nodup_keys hmem]
    rfl
  · have hmem : k ∉ (l.filterMap t.cells.entry).map Prod.fst := fun hmem => hk (hl.mem_keys.mp hmem)
    push Not at hk
    obtain ⟨e, he, hre⟩ := Option.map_eq_some_iff.mp hr
    have hsome : (t.lookupEntry hash k).isSome := by rw [he]; rfl
    have hempty := (Shows.lookupEntry_isSome ⟨l, hl, rfl⟩).mp hsome
    rw [lookupEntry_of_absent hk (hempty.resolve_left hmem), Option.some_inj] at he
    rw [← hre, ← he, List.lookup_eq_none_iff.mpr]
    · rfl
    · intro e he
      simp only [bne_iff_ne]
      rintro rfl
      exact hmem (List.mem_map_of_mem he)

end operations

/-! ## Insertion -/

theorem Keeps.place (h : Keeps hash t l) (hk : ∀ n, (t.cells.table n).k ≠ .key k)
    (hlt : t.cells.count < t.size) (v : Option V) :
    ∃ t', t.place hash k v = some t' ∧
      Shows hash t' (l.filterMap t.cells.entry ++ [(k, v)]) ∧ t'.size = t.size ∧
      t'.cells.freed = t.cells.freed ∧ (t.Settled hash k → t'.Clean) := by
  have hsome : (Probe.search t.isFree t.size (t.slot hash k)).isSome :=
    Probe.search_isSome_iff.mpr (h.exists_free hlt)
  obtain ⟨n, hn⟩ := Option.isSome_iff_exists.mp hsome
  obtain ⟨hfree, hway⟩ := Probe.of_search_eq_some hn
  have hnl : n ∉ l := by
    rw [h.used]
    rintro ⟨k', hk'⟩
    exact isFree_iff.mp hfree k' hk'
  obtain ⟨c, hc, hchain, hbut, hentry, hcount, hlog⟩ :=
    LhCells.insertEntry_eq h.chained hnl k v
  have hnk : (c.table n).k = .key k := (LhCells.entry_eq_some_iff.mp hentry).1
  have hkey : ∀ {i k'}, (c.table i).k = .key k' → i ≠ n → (t.cells.table i).k = .key k' :=
    fun hi hin => (hbut _ hin).1 ▸ hi
  have hempty : ∀ i, (t.cells.table i).k ≠ .empty → (c.table i).k ≠ .empty := by
    intro i hi
    by_cases hin : i = n
    · rw [hin, hnk]
      simp
    · rwa [(hbut i hin).1]
  have hkeeps : Keeps hash { t with cells := c } (l ++ [n]) := by
    refine ⟨hchain, fun i => ?_, fun i i' k' hi hi' => ?_, fun i k' hi => ?_, ?_⟩
    · by_cases hin : i = n
      · rw [hin]
        exact iff_of_true (List.mem_append_right l List.mem_cons_self) ⟨k, hnk⟩
      · change _ ↔ ∃ k, (c.table i).k = .key k
        rw [(hbut i hin).1, ← h.used, List.mem_append, List.mem_singleton]
        exact or_iff_left hin
    · have hkn : ∀ {i i'}, (c.table i).k = .key k' → (c.table i').k = .key k' → i = n →
          i' ≠ n → False := by
        rintro i i' hi hi' rfl hin
        rw [hnk, LhKey.key.injEq] at hi
        exact hk i' (hi ▸ hkey hi' hin)
      by_cases hin : i = n
      · by_cases hin' : i' = n
        · exact hin.trans hin'.symm
        · exact (hkn hi hi' hin hin').elim
      · by_cases hin' : i' = n
        · exact (hkn hi' hi hin' hin).elim
        · exact h.unique i i' k' (hkey hi hin) (hkey hi' hin')
    · by_cases hin : i = n
      · subst hin
        change (c.table i).k = .key k' at hi
        rw [hnk, LhKey.key.injEq] at hi
        rw [← hi]
        refine hway.mono fun j hj => hempty j ?_
        obtain ⟨k'', hj⟩ := isFree_eq_false_iff.mp hj
        rw [hj]
        simp
      · exact (h.reach i k' (hkey hi hin)).mono hempty
    · change c.count = _
      rw [hcount, h.count, List.length_append, List.length_singleton]
  refine ⟨{ t with cells := c }, ?_, ⟨_, hkeeps, ?_⟩, rfl, hlog, fun hset i hi => ?_⟩
  · unfold LhTable.place
    rw [hn]
    change (LhCells.append _ n).bind _ = _
    rw [hc]
    rfl
  · change (l ++ [n]).filterMap c.entry = _
    rw [List.filterMap_append, hbut.filterMap hnl, List.filterMap_cons, hentry]
    rfl
  · -- A freed slot that is left would have stopped the loop before.
    change (c.table i).k = .freed at hi
    have hin : i ≠ n := by
      rintro rfl
      rw [hnk] at hi
      exact absurd hi (by simp)
    have hit : (t.cells.table i).k = .freed := (hbut i hin).1 ▸ hi
    have := Probe.search_of_way (isFree_iff.mpr fun k => by rw [hit]; simp) (hset i hit)
    rw [hn, Option.some_inj] at this
    exact hin this.symm

theorem Shows.place (h : Shows hash t a) (hk : k ∉ a.map Prod.fst)
    (hlt : t.cells.count < t.size) (v : Option V) :
    ∃ t', t.place hash k v = some t' ∧ Shows hash t' (a ++ [(k, v)]) ∧ t'.size = t.size ∧
      t'.cells.freed = t.cells.freed ∧ (t.Settled hash k → t'.Clean) := by
  obtain ⟨l, hl, rfl⟩ := h
  exact hl.place (fun n hn => hk (hl.mem_keys.mpr ⟨n, hn⟩)) hlt v

theorem shows_new (size : ℕ) (pos : 0 < size) : Shows hash (new K V size pos) [] := by
  refine ⟨[], ⟨?_, fun n => ?_, fun n n' k hn => ?_, fun n k hn => ?_, rfl⟩, rfl⟩
  · refine ⟨List.nodup_singleton none, List.isChain_pair.mpr ⟨rfl, rfl⟩⟩
  · exact iff_of_false List.not_mem_nil fun ⟨k, hk⟩ => by cases hk
  · cases hn
  · cases hn

theorem clean_new (size : ℕ) (pos : 0 < size) : (new K V size pos).Clean := by
  intro i hi
  cases hi

theorem Shows.nodup_keys (h : Shows hash t a) : (a.map Prod.fst).Nodup := by
  obtain ⟨l, hl, rfl⟩ := h
  exact hl.nodup_keys

theorem Shows.length_le (h : Shows hash t a) : a.length ≤ t.size := by
  obtain ⟨l, hl, rfl⟩ := h
  rw [hl.length_filterMap]
  exact hl.length_le

/-- An insertion into a table that is not too full. -/
theorem insertDepth_of_le {d : ℕ} (hle : 100 * t.cells.count ≤ 66 * t.size) (v : Option V) :
    t.insertDepth hash (d + 1) k v = t.place hash k v := by
  unfold insertDepth
  rw [if_neg (by omega)]
  rfl

/-- The loop of `lh_table_resize` into a table that stays large enough. -/
theorem Shows.foldlM_insert (d : ℕ) : ∀ {b a : List (K × Option V)} {t : LhTable K V},
    Shows hash t a → ((a ++ b).map Prod.fst).Nodup → t.Clean →
    100 * (a.length + b.length) ≤ 66 * t.size + 100 →
    ∃ t', b.foldlM (fun s e => insertDepth hash (d + 1) s e.1 e.2) t = some t' ∧
      Shows hash t' (a ++ b) ∧ t'.Clean ∧ t'.size = t.size
  | [], a, t, h, _, hclean, _ => ⟨t, rfl, by rwa [List.append_nil], hclean, rfl⟩
  | e :: b, a, t, h, hnd, hclean, hle => by
    have hk : e.1 ∉ a.map Prod.fst := by
      rw [List.map_append, List.map_cons] at hnd
      exact fun he => List.disjoint_of_nodup_append hnd he List.mem_cons_self
    have hcount := h.count
    have hpos := t.pos
    rw [List.length_cons] at hle
    obtain ⟨t₁, ht₁, hs₁, hsize₁, -, hclean₁⟩ := h.place hk (by omega) e.2
    have hle₁ : 100 * ((a ++ [e]).length + b.length) ≤ 66 * t₁.size + 100 := by
      rw [hsize₁, List.length_append, List.length_singleton]
      omega
    obtain ⟨t₂, ht₂, hs₂, hclean₂, hsize₂⟩ := Shows.foldlM_insert d (b := b) hs₁
      (by simpa using hnd) (hclean₁ (hclean.settled hash e.1)) hle₁
    refine ⟨t₂, ?_, by simpa using hs₂, hclean₂, hsize₂.trans hsize₁⟩
    rw [List.foldlM_cons, insertDepth_of_le (by omega), ht₁, Option.bind_eq_bind, Option.bind_some,
      ht₂]

/-- A resized table shows the same, and no slot of it is freed. -/
theorem Shows.resize (d : ℕ) (h : Shows hash t a) :
    ∃ t', resize (insertDepth hash (d + 1)) t (t.size * 2) = some t' ∧ Shows hash t' a ∧
      t'.Clean ∧ t'.size = t.size * 2 ∧ t'.cells.freed = t.cells.freed := by
  have hpos : 0 < t.size * 2 := Nat.mul_pos t.pos Nat.two_pos
  have hlen := h.length_le
  obtain ⟨t', ht', hs, hclean, hsize⟩ := (shows_new _ hpos : Shows hash (new K V _ hpos) []).foldlM_insert
    d (b := a) h.nodup_keys (clean_new _ hpos) (by
      change 100 * (0 + a.length) ≤ 66 * (t.size * 2) + 100
      omega)
  rw [List.nil_append] at hs
  have hsize : t'.size = t.size * 2 := hsize
  have hcount : t'.cells.count = t.cells.count := hs.count.trans h.count.symm
  refine ⟨{ t' with cells := { t'.cells with count := t.cells.count, freed := t.cells.freed } },
    ?_, ?_, hclean, hsize, rfl⟩
  · unfold LhTable.resize
    rw [dif_pos hpos, h.foreach, Option.bind_eq_bind, Option.bind_some, ht', Option.bind_eq_bind,
      Option.bind_some, if_pos hsize]
    rfl
  · obtain ⟨l, hl, rfl⟩ := hs
    refine ⟨l, ⟨hl.chained, hl.used, hl.unique, hl.reach, ?_⟩, rfl⟩
    exact hcount.symm.trans hl.count

/-- `lh_table_insert` of a new key. -/
theorem Shows.insert (h : Shows hash t a) (hk : k ∉ a.map Prod.fst) (v : Option V) :
    ∃ t', t.insert hash k v = some t' ∧ Shows hash t' (a ++ [(k, v)]) ∧ t.size ≤ t'.size ∧
      100 * t'.cells.count ≤ 66 * t'.size + 100 ∧ t'.cells.freed = t.cells.freed ∧
      (t.Settled hash k → t'.Clean) := by
  have hcount := h.count
  have hlen := h.length_le
  have hpos := t.pos
  by_cases hfull : 66 * t.size < 100 * t.cells.count
  · obtain ⟨t₁, ht₁, hs₁, hclean₁, hsize₁, hfreed₁⟩ := h.resize 0
    have hcount₁ := hs₁.count
    obtain ⟨t₂, ht₂, hs₂, hsize₂, hfreed₂, hclean₂⟩ := hs₁.place hk (by omega) v
    have hcount₂ := hs₂.count
    rw [List.length_append, List.length_singleton] at hcount₂
    refine ⟨t₂, ?_, hs₂, by omega, by omega, hfreed₂.trans hfreed₁,
      fun _ => hclean₂ (hclean₁.settled hash k)⟩
    unfold LhTable.insert insertDepth
    rw [if_pos hfull, ht₁, Option.bind_eq_bind, Option.bind_some]
    exact ht₂
  · obtain ⟨t₂, ht₂, hs₂, hsize₂, hfreed₂, hclean₂⟩ := h.place hk (by omega) v
    have hcount₂ := hs₂.count
    rw [List.length_append, List.length_singleton] at hcount₂
    refine ⟨t₂, ?_, hs₂, by omega, by omega, hfreed₂, hclean₂⟩
    unfold LhTable.insert
    rw [insertDepth_of_le (by omega), ht₂]

end LhTable

end DreamDota
