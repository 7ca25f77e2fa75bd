import DreamDota.Auth.RoamingProfile
import DreamDota.Json.LinkHashMap

/-!
# JSON objects

`json_object_object_add`, `json_object_object_get` and `json_object_object_del` on the hash table of
an object. An addition deletes the key first, so the keys of an object are distinct.

1. `JsonObject.run_shows`: what a run of additions and deletions leaves behind, if it returns.
2. `JsonObject.build_shows`: a run of additions, which is what the parser makes, returns, and leaves
   no slot freed, so every lookup returns as well.
3. `objectGet_eq`: the lookup in the list of fields that the answer of the roaming profile service
   is read with.
-/

namespace DreamDota

/-- `lh_char_hash`. A `char` is signed. -/
def lhCharHash (key : List Byte) : ℕ :=
  (key.foldl (fun h b => h * 129 + b.signExtend 32 + 0x9e370001) (0 : BitVec 32)).toNat

namespace JsonObject

variable {K V : Type} [DecidableEq K] {hash : K → ℕ}

/-- `json_object_new_object`, with `JSON_OBJECT_DEF_HASH_ENTRIES` slots. -/
def newObject (K V : Type) : LhTable K V := .new K V 16 (by decide)

inductive Op (K V : Type) where
  | add (key : K) (val : Option V)
  | del (key : K)

variable (hash) in
/-- `json_object_object_add` and `json_object_object_del` -/
def step (t : LhTable K V) : Op K V → Option (LhTable K V)
  | .add key val => do
    let t ← t.delete hash key
    t.insert hash key val
  | .del key => t.delete hash key

variable (hash) in
/-- `json_object_object_get` -/
def get (t : LhTable K V) (key : K) : Option (Option V) := t.lookup hash key

/-- What an operation is for. -/
def Op.spec (a : List (K × Option V)) : Op K V → List (K × Option V)
  | .add key val => LhTable.erase a key ++ [(key, val)]
  | .del key => LhTable.erase a key

/-- What an operation hands over to the object. -/
def Op.added : Op K V → List (K × Option V)
  | .add key val => [(key, val)]
  | .del _ => []

variable {t t' : LhTable K V} {a : List (K × Option V)} {op : Op K V} {ops : List (Op K V)}

/-! ## Runs of additions and deletions -/

theorem step_shows (h : LhTable.Shows hash t a) (ht : step hash t op = some t') :
    LhTable.Shows hash t' (op.spec a) ∧
      (t'.cells.freed ++ op.spec a).Perm (t.cells.freed ++ a ++ op.added) := by
  cases op with
  | del key =>
    obtain ⟨hs, -, hperm, -⟩ := h.delete ht
    exact ⟨hs, by rwa [Op.added, List.append_nil]⟩
  | add key val =>
    obtain ⟨t₁, ht₁, ht₂⟩ := Option.bind_eq_some_iff.mp ht
    obtain ⟨hs₁, -, hperm, -⟩ := h.delete ht₁
    obtain ⟨t₂, ht₂', hs₂, -, -, hfreed, -⟩ := hs₁.insert (LhTable.notMem_erase a key) val
    rw [ht₂, Option.some_inj] at ht₂'
    subst ht₂'
    refine ⟨hs₂, ?_⟩
    rw [hfreed]
    unfold Op.spec Op.added
    rw [← List.append_assoc]
    exact hperm.append_right _

theorem run_shows : ∀ {ops : List (Op K V)} {t t' : LhTable K V} {a : List (K × Option V)},
    LhTable.Shows hash t a → ops.foldlM (step hash) t = some t' →
    LhTable.Shows hash t' (ops.foldl Op.spec a) ∧
      (t'.cells.freed ++ ops.foldl Op.spec a).Perm (t.cells.freed ++ a ++ ops.flatMap Op.added)
  | [], t, t', a, h, ht => by
    cases ht
    exact ⟨h, by simp⟩
  | op :: ops, t, t', a, h, ht => by
    obtain ⟨t₁, ht₁, ht₂⟩ := Option.bind_eq_some_iff.mp ht
    obtain ⟨hs₁, hperm₁⟩ := step_shows h ht₁
    obtain ⟨hs₂, hperm₂⟩ := run_shows hs₁ ht₂
    refine ⟨hs₂, hperm₂.trans ?_⟩
    rw [List.flatMap_cons, ← List.append_assoc]
    exact hperm₁.append_right _

/-- What remains of a run that returns: the entries are chained in the order of their last addition,
every value that was handed over is given back once, and a lookup returns unless the key is missing
and no slot is empty. -/
theorem session_spec (ht : ops.foldlM (step hash) (newObject K V) = some t) :
    let entries := ops.foldl Op.spec []
    t.cells.foreach = some entries ∧
      (∃ log, t.free = some log ∧ log.Perm (ops.flatMap Op.added)) ∧
      ∀ key, ((get hash t key).isSome ↔
          key ∈ entries.map Prod.fst ∨ ∃ n, (t.cells.table n).k = .empty) ∧
        ∀ val, get hash t key = some val → val = (entries.lookup key).join := by
  obtain ⟨hs, hperm⟩ := run_shows (LhTable.shows_new 16 (by decide)) ht
  refine ⟨hs.foreach, ⟨_, hs.free, hperm⟩, fun key => ⟨?_, fun val hval => hs.lookup hval⟩⟩
  rw [← hs.lookupEntry_isSome (k := key)]
  unfold get LhTable.lookup
  rw [Option.isSome_map]

/-! ## Runs of additions -/

/-- What the additions keep: no slot is freed, and the table is not full. -/
structure Roomy (t : LhTable K V) : Prop where
  clean : t.Clean
  size : 16 ≤ t.size
  count : 100 * t.cells.count ≤ 66 * t.size + 100

omit [DecidableEq K] in
theorem Roomy.exists_empty (h : Roomy t) (hs : LhTable.Shows hash t a) :
    ∃ n, (t.cells.table n).k = .empty := by
  obtain ⟨l, hl, -⟩ := hs
  have hsize := h.size
  have hcount := h.count
  obtain ⟨n, hn⟩ := hl.exists_free (by omega)
  rw [LhTable.isFree_iff] at hn
  refine ⟨n, ?_⟩
  cases hk : (t.cells.table n).k with
  | empty => rfl
  | freed => exact absurd hk (h.clean n)
  | key k => exact absurd hk (hn k)

theorem Roomy.lookupEntry_isSome (h : Roomy t) (hs : LhTable.Shows hash t a) (key : K) :
    (t.lookupEntry hash key).isSome :=
  hs.lookupEntry_isSome.mpr (Or.inr (h.exists_empty hs))

theorem Roomy.add (h : Roomy t) (hs : LhTable.Shows hash t a) (key : K) (val : Option V) :
    ∃ t', step hash t (.add key val) = some t' ∧ Roomy t' := by
  have hdel := hs.delete_isSome (h.lookupEntry_isSome hs key)
  obtain ⟨t₁, ht₁⟩ := Option.isSome_iff_exists.mp hdel
  obtain ⟨hs₁, hsize₁, -, hset⟩ := hs.delete ht₁
  obtain ⟨t₂, ht₂, -, hsize₂, hcount₂, -, hclean₂⟩ := hs₁.insert (LhTable.notMem_erase a key) val
  refine ⟨t₂, ?_, hclean₂ (hset h.clean), by have := h.size; omega, hcount₂⟩
  change (t.delete hash key).bind (fun t => t.insert hash key val) = _
  rw [ht₁]
  exact ht₂

theorem Roomy.build : ∀ (fields : List (K × Option V)) {t : LhTable K V}
    {a : List (K × Option V)}, Roomy t → LhTable.Shows hash t a →
    ∃ t', (fields.map fun e => Op.add e.1 e.2).foldlM (step hash) t = some t' ∧ Roomy t'
  | [], t, _, h, _ => ⟨t, rfl, h⟩
  | e :: fields, t, a, h, hs => by
    obtain ⟨t₁, ht₁, h₁⟩ := h.add hs e.1 e.2
    obtain ⟨t₂, ht₂, h₂⟩ := Roomy.build fields h₁ (step_shows hs ht₁).1
    refine ⟨t₂, ?_, h₂⟩
    rw [List.map_cons, List.foldlM_cons, ht₁]
    exact ht₂

omit [DecidableEq K] in
theorem roomy_newObject : Roomy (newObject K V) :=
  ⟨LhTable.clean_new 16 (by decide), Nat.le_refl 16, Nat.zero_le _⟩

/-- Building an object always returns, and so does every lookup in it. -/
theorem build_spec (hash : K → ℕ) (fields : List (K × Option V)) :
    let entries := fields.foldl (fun a e => LhTable.erase a e.1 ++ [e]) []
    ∃ t, (fields.map fun e => Op.add e.1 e.2).foldlM (step hash) (newObject K V) = some t ∧
      t.cells.foreach = some entries ∧
      (∀ key, get hash t key = some (entries.lookup key).join) ∧
      ∃ log, t.free = some log ∧ log.Perm fields := by
  have hs₀ : LhTable.Shows hash (newObject K V) [] := LhTable.shows_new 16 (by decide)
  obtain ⟨t, ht, hroomy⟩ := Roomy.build fields roomy_newObject hs₀
  obtain ⟨hs, hperm⟩ := run_shows hs₀ ht
  rw [List.foldl_map] at hs hperm
  rw [List.flatMap_map] at hperm
  refine ⟨t, ht, hs.foreach, fun key => ?_, _, hs.free,
    by simpa [Op.added, newObject, LhTable.new] using hperm⟩
  · obtain ⟨e, he⟩ := Option.isSome_iff_exists.mp (hroomy.lookupEntry_isSome hs key)
    have hget : (get hash t key).isSome := by
      unfold get LhTable.lookup
      rw [he]
      rfl
    obtain ⟨val, hval⟩ := Option.isSome_iff_exists.mp hget
    rw [hval, hs.lookup hval]
    rfl

/-- Fields with distinct names stay in their order. -/
theorem foldl_add_of_nodup : ∀ {fields a : List (K × Option V)},
    ((a ++ fields).map Prod.fst).Nodup →
    fields.foldl (fun a e => LhTable.erase a e.1 ++ [e]) a = a ++ fields
  | [], a, _ => (List.append_nil a).symm
  | e :: fields, a, hnd => by
    have he : e.1 ∉ a.map Prod.fst := by
      rw [List.map_append, List.map_cons] at hnd
      exact fun he => List.disjoint_of_nodup_append hnd he List.mem_cons_self
    rw [List.foldl_cons, LhTable.erase_of_notMem he, foldl_add_of_nodup (by simpa using hnd),
      List.append_assoc, List.singleton_append]

/-- The object that holds the fields of an answer finds each of them. -/
theorem objectGet_eq {D : Type} (hash : String → ℕ) (fields : List (String × RoamingProfile.Json D))
    (hnd : (fields.map Prod.fst).Nodup) :
    ∃ t, (fields.map fun e => Op.add e.1 (some e.2)).foldlM (step hash) (newObject _ _) = some t ∧
      ∀ key, (get hash t key).map (fun val => val.getD .null) =
        some (RoamingProfile.objectGet fields key) := by
  obtain ⟨t, ht, -, hget, -⟩ := build_spec hash (fields.map fun e => (e.1, some e.2))
  have hlookup : ∀ (fields : List (String × RoamingProfile.Json D)) (key : String),
      (fields.map fun e => (e.1, some e.2)).lookup key = (fields.lookup key).map some := by
    intro fields key
    induction fields with
    | nil => rfl
    | cons e fields ih =>
      rw [List.map_cons, List.lookup_cons, List.lookup_cons]
      split
      · rfl
      · exact ih
  refine ⟨t, ?_, fun key => ?_⟩
  · rw [List.map_map] at ht
    exact ht
  · rw [hget key, foldl_add_of_nodup, List.nil_append, hlookup]
    · unfold RoamingProfile.objectGet
      cases fields.lookup key <;> rfl
    · rw [List.nil_append, List.map_map]
      exact hnd

/-- Two keys with one slot, the first of which is deleted again. -/
theorem session_spec_collision : ∃ t,
    [Op.add 1 (some 10), .add 17 (some 20), .del 1].foldlM (step id) (newObject ℕ ℕ) = some t ∧
      t.cells.foreach = some [(17, some 20)] ∧ (get id t 17).isSome := by
  obtain ⟨t, ht⟩ : ∃ t, [Op.add 1 (some 10), .add 17 (some 20), .del 1].foldlM (step id)
      (newObject ℕ ℕ) = some t := Option.isSome_iff_exists.mp (by decide +kernel)
  obtain ⟨hforeach, -, hget⟩ := session_spec ht
  exact ⟨t, ht, hforeach, (hget 17).1.mpr (Or.inl (by decide))⟩

end JsonObject

end DreamDota
