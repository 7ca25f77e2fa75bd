import DreamDota.Lib.Bytes
import DreamDota.Lib.Session

/-!
# The receive buffer

`HTTP::DataWriteToBuffer` appends a chunk to the data received for a request. When the chunk is
larger than the free part of the buffer, it moves the data to a buffer of twice the size, doubled
until the chunk fits into it; that the data is in it already is not considered.

`bufferOk_iff`: the buffer holds what was received exactly as long as every chunk that makes it grow
fits into the new buffer together with the data.

A call that accesses bytes outside of the buffer, or does not return, has the result `none`.
-/

namespace DreamDota

namespace Http

/-- `HTTP::ResponseData`. A byte that was never written is `none`. -/
structure ResponseData where
  buffer : List (Option Byte)
  dataSize : BitVec 32
  bufferSize : BitVec 32
  deriving DecidableEq

def INITIAL_BUFFER_SIZE : ℕ := 1024

/-- `HTTP::HTTP`. -/
def ResponseData.new : ResponseData where
  buffer := List.replicate INITIAL_BUFFER_SIZE none
  dataSize := 0
  bufferSize := BitVec.ofNat 32 INITIAL_BUFFER_SIZE

/-- `memcpy_s(block + off, destSize, src, count)` where `src` are the `count` bytes. When they are
more than `destSize`, the destination is filled with 0. -/
def memcpyS (block : List (Option Byte)) (off destSize : ℕ) (src : List (Option Byte)) :
    Option (List (Option Byte)) :=
  let bytes := if src.length ≤ destSize then src else List.replicate destSize (some 0)
  if off + bytes.length ≤ block.length then
    some (block.take off ++ bytes ++ block.drop (off + bytes.length))
  else none

/-- `while (new_size < bytes) new_size *= 2`. After 32 rounds `new_size` is 0 and stays so. -/
def growLoop : ℕ → BitVec 32 → BitVec 32 → Option (BitVec 32)
  | 0, _, _ => none
  | fuel + 1, newSize, bytes =>
    if newSize < bytes then growLoop fuel (newSize * 2) bytes else some newSize

/-- The first `n` bytes of a block. -/
def readFirst (block : List (Option Byte)) (n : ℕ) : Option (List (Option Byte)) :=
  if n ≤ block.length then some (block.take n) else none

/-- The new buffer, with the data. -/
def grow (t : ResponseData) (bytes : BitVec 32) : Option ResponseData := do
  let newSize ← growLoop 33 (t.bufferSize * 2) bytes
  let newBuffer ← memcpyS (List.replicate newSize.toNat none) 0 newSize.toNat
    (← readFirst t.buffer t.dataSize.toNat)
  return { t with buffer := newBuffer, bufferSize := newSize }

/-- `nmemb` pieces of `size` bytes. -/
structure Chunk where
  size : BitVec 32
  nmemb : BitVec 32
  bytes : List Byte
  length_bytes : bytes.length = size.toNat * nmemb.toNat
  deriving DecidableEq

/-- The chunk is copied behind the data. -/
def copyChunk (t : ResponseData) (ptr : Chunk) : Option ResponseData := do
  let bytes := ptr.size * ptr.nmemb
  let remain := t.bufferSize - t.dataSize
  let buffer ← memcpyS t.buffer t.dataSize.toNat remain.toNat
    (← readFirst (ptr.bytes.map some) bytes.toNat)
  return { t with buffer := buffer, dataSize := t.dataSize + bytes }

def makeRoom (t : ResponseData) (bytes : BitVec 32) : Option ResponseData :=
  let remain := t.bufferSize - t.dataSize
  if remain < bytes then grow t bytes else some t

/-- `HTTP::DataWriteToBuffer`: its result and the data. -/
def dataWriteToBuffer (t : ResponseData) (ptr : Chunk) : Option (BitVec 32 × ResponseData) := do
  let bytes := ptr.size * ptr.nmemb
  let t ← makeRoom t bytes
  let t ← copyChunk t ptr
  return (bytes, t)

/-! ## The life of an object -/

inductive Event where
  /-- `SimpleRequest` or `Request` begins. -/
  | request
  | chunk (ptr : Chunk)
  deriving DecidableEq

/-- `data` is `none` when a call has left the buffer or has not returned. `received` is what was
delivered since the last request began, and `results` has the size of each chunk and the result of
the call. -/
structure Transfer where
  data : Option ResponseData
  received : List Byte
  results : List (ℕ × BitVec 32)
  deriving DecidableEq

def Transfer.new : Transfer := ⟨some .new, [], []⟩

def event (s : Transfer) : Event → Transfer
  | .request => { s with data := s.data.map fun t => { t with dataSize := 0 }, received := [] }
  | .chunk ptr =>
    let call := s.data.bind fun t => dataWriteToBuffer t ptr
    { data := call.map Prod.snd
      received := s.received ++ ptr.bytes
      results := s.results ++ (call.map fun r => (ptr.bytes.length, r.1)).toList }

/-- Less than 2^30 bytes are delivered for a request, of which `n` have been delivered. -/
def Moderate : ℕ → List Event → Prop
  | _, [] => True
  | _, .request :: es => Moderate 0 es
  | n, .chunk ptr :: es => n + ptr.bytes.length < 2 ^ 30 ∧ Moderate (n + ptr.bytes.length) es

/-- The buffer holds what was received, and every call has returned the size of its chunk. -/
structure BufferOk (s : Transfer) : Prop where
  data : ∃ t, s.data = some t ∧ t.buffer.length = t.bufferSize.toNat ∧
    t.dataSize.toNat ≤ t.bufferSize.toNat ∧
    t.buffer.take t.dataSize.toNat = s.received.map some
  results : ∀ r ∈ s.results, r.2.toNat = r.1

/-- The chunk fits into the free part of the buffer; or every larger buffer, doubled from this one,
that holds the chunk holds it together with the data. -/
def Fits (t : ResponseData) (bytes : ℕ) : Prop :=
  t.dataSize.toNat + bytes ≤ t.bufferSize.toNat ∨
    ∀ k, bytes ≤ t.bufferSize.toNat * 2 ^ (k + 1) →
      t.dataSize.toNat + bytes ≤ t.bufferSize.toNat * 2 ^ (k + 1)

/-- Every chunk fits. -/
def Fitting (s : Transfer) : Event → Prop
  | .request => True
  | .chunk ptr => ∀ t ∈ s.data, Fits t ptr.bytes.length

/-! ## One call -/

variable {t t' : ResponseData} {block : List (Option Byte)} {src : List (Option Byte)}
  {off destSize : ℕ}

theorem memcpyS_eq (hsrc : src.length ≤ destSize) (hroom : off + src.length ≤ block.length) :
    memcpyS block off destSize src =
      some (block.take off ++ src ++ block.drop (off + src.length)) := by
  unfold memcpyS
  simp only [if_pos hsrc, if_pos hroom]

/-- What does not fit into the destination is not copied. -/
theorem memcpyS_short (hsrc : destSize < src.length) (hroom : off + destSize ≤ block.length) :
    memcpyS block off destSize src = some
      (block.take off ++ List.replicate destSize (some 0) ++ block.drop (off + destSize)) := by
  unfold memcpyS
  simp only [if_neg (Nat.not_le.mpr hsrc), List.length_replicate, if_pos hroom]

theorem readFirst_eq {n : ℕ} (h : n ≤ block.length) : readFirst block n = some (block.take n) :=
  if_pos h

/-- The loop ends at the first doubling that is large enough. -/
theorem growLoop_eq {n bytes : BitVec 32} {a : ℕ} (fuel : ℕ) (hn : n.toNat = 2 ^ a) (ha : a ≤ 30)
    (hbytes : bytes.toNat ≤ 2 ^ 30) (hfuel : 31 ≤ a + fuel) :
    ∃ m k, growLoop fuel n bytes = some m ∧ m.toNat = n.toNat * 2 ^ k ∧ a + k ≤ 30 ∧
      bytes.toNat ≤ m.toNat ∧ ∀ j < k, n.toNat * 2 ^ j < bytes.toNat := by
  induction fuel generalizing a n with
  | zero => omega
  | succ fuel ih =>
    by_cases hlt : n < bytes
    · have hlt' : n.toNat < bytes.toNat := hlt
      have ha' : a < 30 := by
        rw [hn] at hlt'
        exact (Nat.pow_lt_pow_iff_right (by omega)).mp (Nat.lt_of_lt_of_le hlt' hbytes)
      have hpow : 2 ^ (a + 1) ≤ 2 ^ 30 := Nat.pow_le_pow_right (by omega) ha'
      have hdouble : (n * 2).toNat = 2 ^ (a + 1) := by
        rw [BitVec.toNat_mul, hn, pow_succ]
        exact Nat.mod_eq_of_lt (by rw [pow_succ] at hpow; simp; omega)
      obtain ⟨m, k, hm, hmk, hk, hle, hleast⟩ := ih hdouble ha' (by omega)
      refine ⟨m, k + 1, ?_, ?_, by omega, hle, ?_⟩
      · rw [growLoop, if_pos hlt, hm]
      · rw [hmk, hdouble, hn, pow_succ, pow_succ]
        ring
      · intro j hj
        cases j with
        | zero => rwa [pow_zero, Nat.mul_one]
        | succ j =>
          have := hleast j (by omega)
          rw [hdouble, pow_succ] at this
          rw [hn, pow_succ, Nat.mul_comm (2 ^ j), ← Nat.mul_assoc]
          exact this
    · refine ⟨n, 0, ?_, by rw [pow_zero, Nat.mul_one], by omega, ?_, fun j hj => by omega⟩
      · rw [growLoop, if_neg hlt]
      · exact Nat.le_of_not_lt hlt

/-- What holds of the data as long as it fits. -/
structure Holds (t : ResponseData) (received : List Byte) : Prop where
  length_buffer : t.buffer.length = t.bufferSize.toNat
  toNat_dataSize : t.dataSize.toNat = received.length
  le : t.dataSize.toNat ≤ t.bufferSize.toNat
  take_eq : t.buffer.take t.dataSize.toNat = received.map some
  pow : ∃ a, 10 ≤ a ∧ a ≤ 30 ∧ t.bufferSize.toNat = 2 ^ a

variable {received : List Byte} {ptr : Chunk}

/-- The size of a chunk of less than 2^30 bytes. -/
theorem toNat_bytes (h : ptr.bytes.length < 2 ^ 30) :
    (ptr.size * ptr.nmemb).toNat = ptr.bytes.length := by
  rw [BitVec.toNat_mul, ← ptr.length_bytes]
  exact Nat.mod_eq_of_lt (by omega)

theorem toNat_remain (h : Holds t received) :
    (t.bufferSize - t.dataSize).toNat = t.bufferSize.toNat - t.dataSize.toNat := by
  have hle := h.le
  bv_omega

/-- The buffer grows: it is the first doubling that the chunk fits into. -/
theorem grow_eq (h : Holds t received) (bytes : BitVec 32)
    (hgrow : t.bufferSize.toNat < received.length + bytes.toNat)
    (htotal : received.length + bytes.toNat < 2 ^ 30) :
    ∃ t' k, grow t bytes = some t' ∧ Holds t' received ∧ t'.dataSize = t.dataSize ∧
      t'.bufferSize.toNat = t.bufferSize.toNat * 2 ^ (k + 1) ∧
      bytes.toNat ≤ t'.bufferSize.toNat ∧
      ∀ j < k, t.bufferSize.toNat * 2 ^ (j + 1) < bytes.toNat := by
  obtain ⟨a, ha10, ha30, ha⟩ := h.pow
  have hdata := h.toNat_dataSize
  have ha29 : a < 30 := by
    refine (Nat.pow_lt_pow_iff_right (a := 2) (by omega)).mp ?_
    omega
  have hpow : 2 ^ (a + 1) ≤ 2 ^ 30 := Nat.pow_le_pow_right (by omega) ha29
  have hdouble : (t.bufferSize * 2).toNat = 2 ^ (a + 1) := by
    rw [BitVec.toNat_mul, ha, pow_succ]
    exact Nat.mod_eq_of_lt (by rw [pow_succ] at hpow; simp; omega)
  obtain ⟨m, k, hm, hmk, hk, hle, hleast⟩ :=
    growLoop_eq 33 hdouble ha29 (by omega : bytes.toNat ≤ 2 ^ 30) (by omega)
  have hmB : m.toNat = t.bufferSize.toNat * 2 ^ (k + 1) := by
    rw [hmk, hdouble, ha, pow_succ, pow_succ]
    ring
  have hBm : t.bufferSize.toNat ≤ m.toNat := by
    rw [hmB]
    exact Nat.le_mul_of_pos_right _ (Nat.two_pow_pos _)
  have hle' := h.le
  have hlenBuf := h.length_buffer
  have htake : (t.buffer.take t.dataSize.toNat).length = t.dataSize.toNat :=
    List.length_take_of_le (by omega)
  have hcopy : memcpyS (List.replicate m.toNat none) 0 m.toNat
      (t.buffer.take t.dataSize.toNat) =
      some (t.buffer.take t.dataSize.toNat ++
        List.replicate (m.toNat - t.dataSize.toNat) none) := by
    rw [memcpyS_eq (by omega) (by rw [List.length_replicate]; omega), List.take_zero,
      List.nil_append, htake, Nat.zero_add, List.drop_replicate]
  refine ⟨{ t with
    buffer := t.buffer.take t.dataSize.toNat ++ List.replicate (m.toNat - t.dataSize.toNat) none
    bufferSize := m }, k, ?_, ⟨?_, hdata, ?_, ?_, a + 1 + k, by omega, hk, ?_⟩, rfl, hmB, hle, ?_⟩
  · unfold grow
    rw [hm, readFirst_eq (by omega)]
    simp only [Option.bind_eq_bind, Option.bind_some, hcopy]
    rfl
  · show (List.length (_ ++ _)) = m.toNat
    rw [List.length_append, htake, List.length_replicate]
    omega
  · show t.dataSize.toNat ≤ m.toNat
    omega
  · show (t.buffer.take t.dataSize.toNat ++ _).take t.dataSize.toNat = _
    rw [List.take_append_of_le_length (by omega), List.take_of_length_le (by omega), h.take_eq]
  · show m.toNat = _
    rw [hmk, hdouble, ← pow_add]
  · intro j hj
    have := hleast j hj
    rw [hdouble] at this
    rw [ha, ← pow_add, show a + (j + 1) = a + 1 + j by omega, pow_add]
    exact this

/-- The chunk is appended. -/
theorem copyChunk_eq (h : Holds t received) (htotal : received.length + ptr.bytes.length < 2 ^ 30)
    (hroom : received.length + ptr.bytes.length ≤ t.bufferSize.toNat) :
    ∃ t', copyChunk t ptr = some t' ∧ Holds t' (received ++ ptr.bytes) ∧
      t'.bufferSize = t.bufferSize := by
  have hdata := h.toNat_dataSize
  have hle := h.le
  have hlen := h.length_buffer
  have hbytes : (ptr.size * ptr.nmemb).toNat = ptr.bytes.length := toNat_bytes (by omega)
  have hsrc : readFirst (ptr.bytes.map some) ptr.bytes.length = some (ptr.bytes.map some) := by
    rw [readFirst_eq (by rw [List.length_map]), List.take_of_length_le (by rw [List.length_map])]
  have hsum : (t.dataSize + ptr.size * ptr.nmemb).toNat = received.length + ptr.bytes.length := by
    rw [BitVec.toNat_add, hdata, hbytes]
    exact Nat.mod_eq_of_lt (by omega)
  have htake : (t.buffer.take t.dataSize.toNat).length = received.length := by
    rw [List.length_take_of_le (by omega), hdata]
  refine ⟨{ t with
    buffer := t.buffer.take t.dataSize.toNat ++ ptr.bytes.map some ++
      t.buffer.drop (t.dataSize.toNat + (ptr.bytes.map some).length)
    dataSize := t.dataSize + ptr.size * ptr.nmemb }, ?_, ⟨?_, ?_, ?_, ?_, h.pow⟩, rfl⟩
  · unfold copyChunk
    simp only [hbytes, hsrc, Option.bind_eq_bind, Option.bind_some]
    rw [toNat_remain h, memcpyS_eq (by rw [List.length_map]; omega)
      (by rw [List.length_map]; omega)]
    rfl
  · show List.length (_ ++ _ ++ _) = t.bufferSize.toNat
    simp only [List.length_append, htake, List.length_map, List.length_drop]
    omega
  · rw [List.length_append]
    exact hsum
  · show (t.dataSize + ptr.size * ptr.nmemb).toNat ≤ t.bufferSize.toNat
    omega
  · show List.take (t.dataSize + ptr.size * ptr.nmemb).toNat (_ ++ _ ++ _) = _
    rw [hsum, List.take_append_of_le_length (by rw [List.length_append, htake, List.length_map]),
      List.take_of_length_le (by rw [List.length_append, htake, List.length_map]), h.take_eq,
      List.map_append]

/-- What a chunk does that is larger than the free part: it is not copied, but counted. -/
theorem copyChunk_short (h : Holds t received)
    (htotal : received.length + ptr.bytes.length < 2 ^ 30)
    (hroom : t.bufferSize.toNat < received.length + ptr.bytes.length) :
    ∃ t', copyChunk t ptr = some t' ∧ t'.bufferSize.toNat < t'.dataSize.toNat := by
  have hdata := h.toNat_dataSize
  have hle := h.le
  have hlen := h.length_buffer
  have hbytes : (ptr.size * ptr.nmemb).toNat = ptr.bytes.length := toNat_bytes (by omega)
  have hsrc : readFirst (ptr.bytes.map some) ptr.bytes.length = some (ptr.bytes.map some) := by
    rw [readFirst_eq (by rw [List.length_map]), List.take_of_length_le (by rw [List.length_map])]
  refine ⟨{ t with
    buffer := t.buffer.take t.dataSize.toNat ++
      List.replicate (t.bufferSize.toNat - t.dataSize.toNat) (some 0) ++
      t.buffer.drop (t.dataSize.toNat + (t.bufferSize.toNat - t.dataSize.toNat))
    dataSize := t.dataSize + ptr.size * ptr.nmemb }, ?_, ?_⟩
  · unfold copyChunk
    simp only [hbytes, hsrc, Option.bind_eq_bind, Option.bind_some]
    rw [toNat_remain h, memcpyS_short (by rw [List.length_map]; omega) (by omega)]
    rfl
  · show t.bufferSize.toNat < (t.dataSize + ptr.size * ptr.nmemb).toNat
    rw [BitVec.toNat_add, hdata, hbytes, Nat.mod_eq_of_lt (by omega)]
    exact hroom

theorem remain_lt_iff (h : Holds t received)
    (htotal : received.length + ptr.bytes.length < 2 ^ 30) :
    t.bufferSize - t.dataSize < ptr.size * ptr.nmemb ↔
      t.bufferSize.toNat < received.length + ptr.bytes.length := by
  have hdata := h.toNat_dataSize
  have hle := h.le
  rw [BitVec.lt_def, toNat_remain h, toNat_bytes (by omega)]
  omega

theorem dataWriteToBuffer_eq {t₁ : ResponseData}
    (hroom : makeRoom t (ptr.size * ptr.nmemb) = some t₁) (hcopy : copyChunk t₁ ptr = some t') :
    dataWriteToBuffer t ptr = some (ptr.size * ptr.nmemb, t') := by
  unfold dataWriteToBuffer
  simp only [hroom, hcopy, Option.bind_eq_bind, Option.bind_some]
  rfl

/-- The buffer does not grow. -/
theorem dataWriteToBuffer_room (ptr : Chunk) (h : Holds t received)
    (htotal : received.length + ptr.bytes.length < 2 ^ 30)
    (hroom : received.length + ptr.bytes.length ≤ t.bufferSize.toNat) :
    ∃ t', dataWriteToBuffer t ptr = some (ptr.size * ptr.nmemb, t') ∧
      Holds t' (received ++ ptr.bytes) ∧ t'.bufferSize = t.bufferSize := by
  obtain ⟨t', hcopy, hholds, hsize⟩ := copyChunk_eq h htotal hroom
  refine ⟨t', dataWriteToBuffer_eq (if_neg ?_) hcopy, hholds, hsize⟩
  rw [remain_lt_iff h htotal]
  omega

/-- A call that keeps what holds is one whose chunk fits. -/
theorem dataWriteToBuffer_cases (ptr : Chunk) (h : Holds t received)
    (htotal : received.length + ptr.bytes.length < 2 ^ 30) :
    ∃ t', dataWriteToBuffer t ptr = some (ptr.size * ptr.nmemb, t') ∧
      ((Fits t ptr.bytes.length ∧ Holds t' (received ++ ptr.bytes)) ∨
        (¬ Fits t ptr.bytes.length ∧ t'.bufferSize.toNat < t'.dataSize.toNat)) := by
  have hdata := h.toNat_dataSize
  have hle := h.le
  have hbytes : (ptr.size * ptr.nmemb).toNat = ptr.bytes.length := toNat_bytes (by omega)
  by_cases hroom : received.length + ptr.bytes.length ≤ t.bufferSize.toNat
  · obtain ⟨t', hcall, hholds, -⟩ := dataWriteToBuffer_room ptr h htotal hroom
    exact ⟨t', hcall, .inl ⟨.inl (by omega), hholds⟩⟩
  · obtain ⟨t₁, k, hgrow, hholds, hsame, hsize, hchunk, hleast⟩ :=
      grow_eq h (ptr.size * ptr.nmemb) (by omega) (by omega)
    rw [hbytes] at hchunk hleast
    have hgrows : makeRoom t (ptr.size * ptr.nmemb) = some t₁ :=
      (if_pos ((remain_lt_iff h htotal).mpr (by omega))).trans hgrow
    by_cases hroom₁ : received.length + ptr.bytes.length ≤ t₁.bufferSize.toNat
    · obtain ⟨t', hcopy, hholds', -⟩ := copyChunk_eq hholds htotal hroom₁
      refine ⟨t', dataWriteToBuffer_eq hgrows hcopy, .inl ⟨.inr fun k' hk' => ?_, hholds'⟩⟩
      -- the new buffer is the smallest that holds the chunk
      have hkk : k ≤ k' := by
        by_contra hlt
        have := hleast k' (by omega)
        omega
      have hmono : t₁.bufferSize.toNat ≤ t.bufferSize.toNat * 2 ^ (k' + 1) := by
        rw [hsize]
        exact Nat.mul_le_mul_left _ (Nat.pow_le_pow_right (by omega) (by omega))
      omega
    · obtain ⟨t', hcopy, hshort⟩ := copyChunk_short hholds htotal (by omega)
      refine ⟨t', dataWriteToBuffer_eq hgrows hcopy, .inr ⟨?_, hshort⟩⟩
      rintro (hfits | hfits)
      · omega
      · have := hfits k (by omega)
        omega

/-! ## Every call -/

/-- The state of an object all of whose chunks have fitted. -/
def Inv (s : Transfer) : Prop :=
  (∃ t, s.data = some t ∧ Holds t s.received) ∧ ∀ r ∈ s.results, r.2.toNat = r.1

variable {s : Transfer} {es : List Event}

theorem Inv.bufferOk (h : Inv s) : BufferOk s := by
  obtain ⟨⟨t, hdata, hholds⟩, hresults⟩ := h
  exact ⟨⟨t, hdata, hholds.length_buffer, hholds.le, hholds.take_eq⟩, hresults⟩

theorem inv_new : Inv .new := by
  refine ⟨⟨.new, rfl, List.length_replicate, rfl, by decide, rfl, 10, by omega, by omega, rfl⟩, ?_⟩
  exact List.forall_mem_nil _

theorem inv_request (h : Inv s) : Inv (event s .request) := by
  obtain ⟨⟨t, hdata, hholds⟩, hresults⟩ := h
  refine ⟨⟨{ t with dataSize := 0 }, ?_, hholds.length_buffer, rfl, Nat.zero_le _, ?_, hholds.pow⟩,
    hresults⟩
  · rw [event, hdata]
    rfl
  · exact List.take_zero

theorem event_chunk {rv : BitVec 32} (hdata : s.data = some t)
    (hcall : dataWriteToBuffer t ptr = some (rv, t')) : event s (.chunk ptr) =
      ⟨some t', s.received ++ ptr.bytes, s.results ++ [(ptr.bytes.length, rv)]⟩ := by
  simp only [event, hdata, Option.bind_some, hcall, Option.map_some, Option.toList_some]

/-- A chunk keeps the invariant if it fits, and is not held if it does not fit. -/
theorem inv_chunk (ptr : Chunk) (h : Inv s) (htotal : s.received.length + ptr.bytes.length < 2 ^ 30) :
    (Fitting s (.chunk ptr) ∧ Inv (event s (.chunk ptr))) ∨
      (¬ Fitting s (.chunk ptr) ∧ ¬ BufferOk (event s (.chunk ptr))) := by
  obtain ⟨⟨t, hdata, hholds⟩, hresults⟩ := h
  obtain ⟨t', hcall, hcase⟩ := dataWriteToBuffer_cases ptr hholds htotal
  rw [event_chunk hdata hcall]
  rcases hcase with ⟨hfits, hholds'⟩ | ⟨hfits, hshort⟩
  · refine .inl ⟨fun t₁ ht₁ => ?_, ⟨t', rfl, hholds'⟩, fun r hr => ?_⟩
    · obtain rfl := Option.some.inj (hdata.symm.trans ht₁)
      exact hfits
    · rcases List.mem_append.mp hr with hr | hr
      · exact hresults r hr
      · rw [List.mem_singleton.mp hr]
        exact toNat_bytes (by omega)
  · refine .inr ⟨fun hfitting => hfits (hfitting t hdata), fun hok => ?_⟩
    obtain ⟨⟨t₁, ht₁, -, hle, -⟩, -⟩ := hok
    obtain rfl := Option.some.inj ht₁
    omega

theorem bufferOk_iff_of_inv (h : Inv s) (hes : Moderate s.received.length es) :
    Session.Always event s es BufferOk ↔ Session.Steps event s es Fitting := by
  induction es generalizing s with
  | nil => exact ⟨fun _ => .nil, fun _ => Session.always_nil.mpr h.bufferOk⟩
  | cons e es ih =>
    rw [Session.always_cons, Session.steps_cons, and_iff_right h.bufferOk]
    cases e with
    | request =>
      rw [ih (inv_request h) hes]
      exact (and_iff_right trivial).symm
    | chunk ptr =>
      obtain ⟨htotal, hes⟩ := hes
      rcases inv_chunk ptr h htotal with ⟨hfits, hinv⟩ | ⟨hfits, hbad⟩
      · have hreceived : (event s (.chunk ptr)).received = s.received ++ ptr.bytes := rfl
        rw [ih hinv (by rwa [hreceived, List.length_append]), and_iff_right hfits]
      · exact ⟨fun hall => absurd (hall [] (List.nil_prefix)) hbad, fun hall => absurd hall.1 hfits⟩

/-- For every life of an object, the buffer holds what was received after every call if and only if
every chunk fits. -/
theorem bufferOk_iff (es : List Event) (hes : Moderate 0 es) :
    Session.Always event .new es BufferOk ↔ Session.Steps event .new es Fitting :=
  bufferOk_iff_of_inv inv_new hes

/-- A chunk of `n` bytes. -/
def Chunk.zeros (n : ℕ) (hn : n < 2 ^ 32) : Chunk where
  size := 1
  nmemb := BitVec.ofNat 32 n
  bytes := List.replicate n 0
  length_bytes := by
    rw [List.length_replicate, BitVec.toNat_ofNat, Nat.mod_eq_of_lt hn]
    exact (Nat.one_mul n).symm

theorem Chunk.length_zeros (n : ℕ) (hn : n < 2 ^ 32) : (Chunk.zeros n hn).bytes.length = n :=
  List.length_replicate

/-- The first chunk is larger than the buffer. -/
theorem bufferOk_large_chunk :
    Session.Always event .new [.request, .chunk (.zeros 3000 (by decide))] BufferOk := by
  refine (bufferOk_iff [.request, .chunk (.zeros 3000 (by decide))] ⟨?_, trivial⟩).mpr ?_
  · rw [Chunk.length_zeros]
    decide
  · rw [Session.steps_cons, Session.steps_cons]
    refine ⟨trivial, fun t ht => .inr fun k hk => ?_, .nil⟩
    obtain rfl := Option.some.inj ht
    rw [show (0 : BitVec 32).toNat = 0 from rfl, Nat.zero_add]
    exact hk

/-- One byte, and then a chunk that is as large as the doubled buffer. -/
theorem chunk_not_held : ¬ ∀ es, Moderate 0 es → Session.Always event .new es BufferOk := by
  intro h
  have hok := h [.chunk (.zeros 1 (by decide)), .chunk (.zeros 2048 (by decide))]
    ⟨by rw [Chunk.length_zeros]; decide, by rw [Chunk.length_zeros, Chunk.length_zeros]; decide,
      trivial⟩
  obtain ⟨⟨t, hdata, hholds⟩, -⟩ := inv_new
  obtain rfl := Option.some.inj hdata
  obtain ⟨t, hcall, hholds', hsize⟩ := dataWriteToBuffer_room (.zeros 1 (by decide)) hholds
    (by rw [Chunk.length_zeros]; decide) (by rw [Chunk.length_zeros]; decide)
  have hfirst := event_chunk hdata hcall
  have hinv : Inv (event .new (.chunk (.zeros 1 (by decide)))) := by
    rw [hfirst]
    refine ⟨⟨t, rfl, hholds'⟩, fun r hr => ?_⟩
    rw [List.mem_singleton.mp hr]
    exact toNat_bytes (by rw [Chunk.length_zeros]; decide)
  rcases inv_chunk (.zeros 2048 (by decide)) hinv
    (by rw [hfirst]; simp [Chunk.length_zeros, Transfer.new]) with ⟨hfits, -⟩ | ⟨-, hbad⟩
  · have hlen : t.dataSize.toNat = 1 := hholds'.toNat_dataSize
    have hsize' : t.bufferSize.toNat = 1024 := by rw [hsize]; rfl
    rw [Fitting, Chunk.length_zeros, hfirst] at hfits
    rcases hfits t rfl with hle | hle
    · omega
    · have := hle 0 (by omega)
      omega
  · exact hbad hok.last

end Http

end DreamDota
