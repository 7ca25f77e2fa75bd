import DreamDota.Auth.LoginPacket

/-!
# Adding fields

`message_field_add` looks for the first slot with the length zero. The slot of a field without bytes
is free again, and `fieldc` is a byte, so of a larger number of slots only the rest modulo 256 counts.

`Accumulates` is a sequence of calls that fills one slot after the other, and `accumulates_iff` says
which sequences do.
-/

namespace DreamDota

/-- A call that stores its bytes in the slot `i` of `c` slots. -/
structure Stores (c : ℕ) (data data' : MessageFieldsData) (buffer : List Byte) (i : ℕ) : Prop where
  result : messageFieldAdd data buffer = some (true, data')
  slot : data.freeSlot = i
  slot_lt : i < c
  stored_size : data'.fieldsSize[i]? = some (BitVec.ofNat 32 buffer.length)
  stored_data : data'.fieldsData[i]? = some buffer
  others : ∀ j, j ≠ i → data'.fieldsSize[j]? = data.fieldsSize[j]? ∧
    data'.fieldsData[j]? = data.fieldsData[j]?

/-- The calls with `buffers` store in the slots from `i` on, and when all `c` slots are filled, a
further call does nothing. -/
def StoresAll (c : ℕ) (data : MessageFieldsData) : ℕ → List (List Byte) → Prop
  | i, [] => i = c → ∀ buffer, messageFieldAdd data buffer = some (false, data)
  | i, buffer :: buffers =>
    ∃ data', Stores c data data' buffer i ∧ StoresAll c data' (i + 1) buffers

/-- The calls after `message_fields_init`. -/
def Accumulates (c : BitVec 32) (buffers : List (List Byte)) : Prop :=
  StoresAll c.toNat (messageFieldsInit c) 0 buffers

/-! ## One call -/

theorem messageFieldsInit_eq (c : BitVec 32) : messageFieldsInit c = partialData [] c.toNat := by
  unfold messageFieldsInit partialData
  rw [List.length_nil, Nat.zero_add, List.map_nil, List.nil_append, List.nil_append]
  rfl

/-- A field without bytes leaves everything as it was. -/
theorem partialData_append_nil (done : List (List Byte)) (k : ℕ) :
    partialData (done ++ [[]]) k = partialData done (k + 1) := by
  unfold partialData
  simp only [List.length_append, List.length_singleton, List.map_append, List.map_singleton,
    List.append_assoc, List.singleton_append, List.replicate_succ]
  rw [Nat.add_assoc, Nat.add_comm 1 k]
  rfl

variable {done : List (List Byte)} {k c : ℕ} {f : List Byte}

theorem messageFieldAdd_of_pos {data : MessageFieldsData} {size : BitVec 32}
    (h : data.lastSize = some size) (hpos : 0 < size) (buffer : List Byte) :
    messageFieldAdd data buffer = some (false, data) := by
  unfold messageFieldAdd
  rw [h, Option.bind_eq_bind, Option.bind_some, if_pos hpos]
  rfl

/-- The last of the slots that count is taken. -/
theorem lastSize_full (hroom : (done.length + k) % 256 = done.length) (hne : done ≠ [])
    (hdone : ∀ f ∈ done, f ≠ [] ∧ f.length < 2 ^ 32) :
    ∃ size, (partialData done k).lastSize = some size ∧ 0 < size := by
  have hfieldc := toNat_fieldc_partialData done k
  rw [hroom] at hfieldc
  have hpos := List.length_pos_of_ne_nil hne
  have hzero : (partialData done k).fieldc ≠ 0 := fun hzero => by
    rw [hzero, show (0 : BitVec 8).toNat = 0 from rfl] at hfieldc
    omega
  have hlast : done.length - 1 < done.length := by omega
  obtain ⟨hbytes, hlt⟩ := hdone _ (List.getElem_mem hlast)
  refine ⟨BitVec.ofNat 32 (done[done.length - 1]).length, ?_, ?_⟩
  · rw [MessageFieldsData.lastSize, if_neg hzero, hfieldc]
    unfold partialData
    rw [List.getElem?_append_left (by rw [List.length_map]; exact hlast), List.getElem?_map,
      List.getElem?_eq_getElem hlast]
    rfl
  · rw [BitVec.lt_def, toNat_ofNat_of_lt hlt]
    exact List.length_pos_of_ne_nil hbytes

/-- None of the slots counts. -/
theorem lastSize_none (hroom : k % 256 = 0) : (partialData [] k).lastSize = none := by
  have hfieldc := toNat_fieldc_partialData [] k
  rw [List.length_nil, Nat.zero_add, hroom] at hfieldc
  exact if_pos (BitVec.eq_of_toNat_eq hfieldc)

theorem messageFieldAdd_full (hroom : (done.length + k) % 256 = done.length)
    (hdone : ∀ f ∈ done, f ≠ [] ∧ f.length < 2 ^ 32) (f : List Byte)
    (data' : MessageFieldsData) : messageFieldAdd (partialData done k) f ≠ some (true, data') := by
  intro htrue
  rcases eq_or_ne done [] with rfl | hne
  · rw [List.length_nil, Nat.zero_add] at hroom
    unfold messageFieldAdd at htrue
    rw [lastSize_none hroom] at htrue
    cases htrue
  · obtain ⟨size, hlast, hpos⟩ := lastSize_full hroom hne hdone
    rw [messageFieldAdd_of_pos hlast hpos] at htrue
    exact Bool.false_ne_true (Prod.mk.inj (Option.some.inj htrue)).1

theorem stores_partialData (hroom : done.length < (done.length + (k + 1)) % 256)
    (hdone : ∀ f ∈ done, f ≠ [] ∧ f.length < 2 ^ 32) (f : List Byte) :
    Stores (done.length + (k + 1)) (partialData done (k + 1)) (partialData (done ++ [f]) k) f
      done.length := by
  have hother {α β : Type} (g : α → β) (l : List α) (x : β) (y : α) (j : ℕ) (hj : j ≠ l.length) :
      ((l ++ [y]).map g ++ List.replicate k x)[j]? =
        (l.map g ++ List.replicate (k + 1) x)[j]? := by
    rw [List.map_append, List.append_assoc]
    rcases Nat.lt_or_ge j (l.map g).length with hlt | hge
    · rw [List.getElem?_append_left hlt, List.getElem?_append_left hlt]
    · rw [List.getElem?_append_right hge, List.getElem?_append_right hge, List.length_map]
      obtain ⟨d, hd⟩ := Nat.exists_eq_succ_of_ne_zero (n := j - l.length) (by
        rw [List.length_map] at hge
        omega)
      rw [hd, List.replicate_succ]
      rfl
  constructor
  · exact messageFieldAdd_partialData hroom hdone f
  · exact freeSlot_partialData hdone
  · omega
  · unfold partialData
    rw [List.map_append, List.append_assoc,
      List.getElem?_append_right (by rw [List.length_map]), List.length_map, Nat.sub_self]
    rfl
  · unfold partialData
    rw [List.append_assoc, List.getElem?_append_right (Nat.le_refl _), Nat.sub_self]
    rfl
  · intro j hj
    have hdata := hother id done ([] : List Byte) f j hj
    rw [List.map_id, List.map_id] at hdata
    exact ⟨hother _ done _ f j hj, hdata⟩

theorem Stores.data'_eq {data data' data'' : MessageFieldsData} {i : ℕ}
    (h : Stores c data data' f i) (h' : messageFieldAdd data f = some (true, data'')) :
    data' = data'' := by
  have heq := h.result.symm.trans h'
  exact (Prod.mk.inj (Option.some.inj heq)).2

/-! ## All calls -/

/-- A further field without bytes takes a slot that is not its own, and at the end it leaves one. -/
theorem storesAll_nil_iff (hroom : done.length < (done.length + (k + 1)) % 256)
    (hdone : ∀ f ∈ done, f ≠ [] ∧ f.length < 2 ^ 32) (buffers : List (List Byte)) :
    StoresAll c (partialData done (k + 1)) (done.length + 1) buffers ↔
      buffers = [] ∧ done.length + 1 ≠ c := by
  cases buffers with
  | nil =>
    have htrue := messageFieldAdd_partialData hroom hdone []
    refine ⟨fun h => ⟨rfl, fun heq => ?_⟩, fun h heq => absurd heq h.2⟩
    rw [h heq []] at htrue
    exact absurd (Prod.mk.inj (Option.some.inj htrue)).1 Bool.false_ne_true
  | cons buffer buffers =>
    refine ⟨fun h => ?_, fun h => nomatch h.1⟩
    obtain ⟨data', hstores, -⟩ := h
    have hslot := hstores.slot
    rw [freeSlot_partialData hdone] at hslot
    omega

theorem forall_dropLast_cons {b : List Byte} (hb : b ≠ []) (buffers : List (List Byte)) :
    (∀ x ∈ (b :: buffers).dropLast, x ≠ []) ↔ ∀ x ∈ buffers.dropLast, x ≠ [] := by
  cases buffers with
  | nil => rfl
  | cons b' buffers =>
    rw [List.dropLast_cons_cons, List.forall_mem_cons]
    exact and_iff_right hb

theorem storesAll_iff (hc : 0 < c) (buffers : List (List Byte))
    (hlen : ∀ b ∈ buffers, b.length < 2 ^ 32) (hk : done.length + k = c)
    (hcount : buffers.length ≤ k) (hdone : ∀ f ∈ done, f ≠ [] ∧ f.length < 2 ^ 32)
    (hle : done.length ≤ c % 256) :
    StoresAll c (partialData done k) done.length buffers ↔
      done.length + buffers.length ≤ c % 256 ∧ (∀ b ∈ buffers.dropLast, b ≠ []) ∧
        (done.length + buffers.length = c → ∀ b ∈ buffers, b ≠ []) := by
  induction buffers generalizing done k with
  | nil =>
    refine ⟨fun _ => ⟨hle, nofun, fun _ => nofun⟩, fun _ heq buffer => ?_⟩
    -- All slots are taken, and `c` is less than 256.
    have hne : done ≠ [] := List.ne_nil_of_length_pos (by omega)
    obtain ⟨size, hlast, hpos⟩ := lastSize_full (k := k) (by omega) hne hdone
    exact messageFieldAdd_of_pos hlast hpos buffer
  | cons b buffers ih =>
    obtain ⟨k, rfl⟩ := Nat.exists_eq_add_of_le' (Nat.one_le_of_lt hcount)
    rw [List.length_cons] at hcount ⊢
    rcases Nat.lt_or_ge done.length (c % 256) with hroom | hfull
    · subst hk
      have hstores := stores_partialData hroom hdone b
      have hstep : StoresAll (done.length + (k + 1)) (partialData done (k + 1)) done.length
          (b :: buffers) ↔ StoresAll (done.length + (k + 1)) (partialData (done ++ [b]) k)
            (done.length + 1) buffers := by
        constructor
        · rintro ⟨data', hdata', hrest⟩
          obtain rfl := hdata'.data'_eq hstores.result
          exact hrest
        · exact fun hrest => ⟨_, hstores, hrest⟩
      rw [hstep]
      rcases eq_or_ne b [] with rfl | hb
      · rw [partialData_append_nil, storesAll_nil_iff hroom hdone]
        cases buffers with
        | nil =>
          refine ⟨fun h => ⟨hroom, nofun, fun heq => absurd heq h.2⟩, fun h => ?_⟩
          exact ⟨rfl, fun heq => h.2.2 heq [] (List.mem_singleton.mpr rfl) rfl⟩
        | cons b' buffers =>
          refine ⟨fun h => (nomatch h.1), fun h => absurd rfl (h.2.1 [] ?_)⟩
          rw [List.dropLast_cons_cons]
          exact List.mem_cons_self
      · have hdone' : ∀ f ∈ done ++ [b], f ≠ [] ∧ f.length < 2 ^ 32 := by
          intro f hf
          rcases List.mem_append.mp hf with hf | hf
          · exact hdone f hf
          · obtain rfl := List.mem_singleton.mp hf
            exact ⟨hb, hlen _ List.mem_cons_self⟩
        have hlength : (done ++ [b]).length = done.length + 1 := by
          rw [List.length_append, List.length_singleton]
        have hrec := @ih (done ++ [b]) k
          (fun f hf => hlen f (List.mem_cons_of_mem b hf)) (by rw [hlength]; omega) (by omega) hdone'
          (by rw [hlength]; omega)
        rw [hlength] at hrec
        rw [hrec, forall_dropLast_cons hb, List.forall_mem_cons, Nat.add_assoc,
          Nat.add_comm 1 buffers.length]
        exact and_congr_right fun _ => and_congr_right fun _ =>
          imp_congr_right fun _ => (and_iff_right hb).symm
    · constructor
      · rintro ⟨data', hstores, -⟩
        exact absurd hstores.result (messageFieldAdd_full (by omega) hdone b data')
      · intro h
        omega

/-- The sequences of calls that fill one slot after the other. -/
theorem accumulates_iff (c : BitVec 32) (hc : 1 ≤ c.toNat) (buffers : List (List Byte))
    (hlen : ∀ b ∈ buffers, b.length < 2 ^ 32) (hcount : buffers.length ≤ c.toNat) :
    Accumulates c buffers ↔ buffers.length ≤ c.toNat % 256 ∧ (∀ b ∈ buffers.dropLast, b ≠ []) ∧
      (buffers.length = c.toNat → ∀ b ∈ buffers, b ≠ []) := by
  unfold Accumulates
  rw [messageFieldsInit_eq]
  have hrun := @storesAll_iff [] c.toNat c.toNat hc buffers hlen (Nat.zero_add _) hcount nofun
    (Nat.zero_le _)
  rwa [List.length_nil, Nat.zero_add] at hrun

theorem accumulates_two : Accumulates 3 [[1, 2], [3]] :=
  (accumulates_iff 3 (by decide) [[1, 2], [3]] (by decide) (by decide)).mpr (by decide)

/-- The second field takes the slot of the first one, which is empty. -/
theorem not_accumulates_empty : ¬Accumulates 2 [[], [1]] := by
  have hiff := @storesAll_iff [] 2 2 (by decide) [[], [1]] (by decide) rfl (by decide) nofun
    (by decide)
  exact fun h => absurd (hiff.mp h) (by decide)

end DreamDota
