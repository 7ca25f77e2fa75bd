import DreamDota.Lib.Bytes

/-!
# Encrypted data

`EncryptedData` keeps a value of `DATASIZE` bytes, combined with a key that is made of the address
of the object. The bytes are combined word by word, and the last ones once more through `r_data`.

`storageOk_iff`: the value is kept, and no byte outside of the two buffers is accessed, exactly for
the sizes that are not 1 and not 3 modulo 4.

A function that reads or writes outside of a buffer has the result `none`.
-/

namespace DreamDota

open Bytes

namespace EncryptedData

/-- The loop over the words. It fails beyond the end of the buffers, so that there are at most as
many rounds as bytes. -/
def xorLoop (key limit : BitVec 32) (input : List Byte) :
    ℕ → BitVec 32 → List Byte → Option (List Byte)
  | 0, _, _ => none
  | fuel + 1, i, out =>
    if i < limit then do
      let word ← readDword input i.toNat
      let out ← writeDword out i.toNat (word ^^^ key)
      xorLoop key limit input fuel (i + 4) out
    else some out

/-- `XOR`: the contents of `out` afterwards. `this` is the address of the object. -/
def xor (this : BitVec 32) (input : List Byte) (size : BitVec 32) (out : List Byte) :
    Option (List Byte) := do
  let key := this ^^^ 0x88888888
  let r := 4 - size % 4
  let out ← xorLoop key (size - r) input (input.length + 1) 0 out
  if r ≠ 0 then
    let tail ← if r ≤ size then read input (size.toNat - r.toNat) r.toNat else none
    let rData := dword (tail ++ List.replicate (4 - r.toNat) 0) ^^^ key
    write out (size.toNat - r.toNat) ((ofDword rData).take r.toNat)
  else return out

section Calls

variable (this : BitVec 32) (n : ℕ)

/-- `Decode`. `stack` is what the variable held before. -/
def decode (data stack : List Byte) : Option (List Byte) := xor this data (BitVec.ofNat 32 n) stack

/-- `Encode`. -/
def encode (value data : List Byte) : Option (List Byte) := xor this value (BitVec.ofNat 32 n) data

/-- `Process`: the value that `callback` leaves, and the stored bytes. -/
def process (callback : List Byte → List Byte) (data stack : List Byte) :
    Option (List Byte × List Byte) := do
  let value ← decode this n data stack
  let value := callback value
  let data ← encode this n value data
  return (value, data)

/-- `SetData`. -/
def setData (value data stack : List Byte) : Option (List Byte) :=
  (process this n (fun _ => value) data stack).map Prod.snd

/-- `GetData`: what was copied to `out`, and the stored bytes. -/
def getData (data stack : List Byte) : Option (List Byte × List Byte) :=
  process this n id data stack

end Calls

/-- A call, with what is on the stack. -/
inductive Call where
  | setData (value stack : List Byte)
  | process (callback : List Byte → List Byte) (stack : List Byte)

def call (this : BitVec 32) (n : ℕ) (data : List Byte) : Call → Option (List Byte)
  | .setData value stack => setData this n value data stack
  | .process callback stack => (process this n callback data stack).map Prod.snd

/-- The value that is stored afterwards. -/
def Call.value (old : List Byte) : Call → List Byte
  | .setData value _ => value
  | .process callback _ => callback old

/-- The values and the stack have the size of the type. -/
def Call.Sized (n : ℕ) : Call → Prop
  | .setData value stack => value.length = n ∧ stack.length = n
  | .process callback stack => (∀ l, l.length = n → (callback l).length = n) ∧ stack.length = n

/-- Only the bytes of the buffers are accessed, an encoded value is decoded again, and the last value
is the one that is found. At first the stored bytes are arbitrary. -/
structure StorageOk (this : BitVec 32) (n : ℕ) : Prop where
  bounds : ∀ input out : List Byte, input.length = n → out.length = n →
    (xor this input (BitVec.ofNat 32 n) out).isSome
  roundTrip : ∀ value data stack data' : List Byte, value.length = n → data.length = n →
    stack.length = n → encode this n value data = some data' → decode this n data' stack = some value
  stored : ∀ (data stack : List Byte) (calls : List Call), data.length = n → stack.length = n →
    (∀ c ∈ calls, c.Sized n) → ∃ value data' data'', decode this n data stack = some value ∧
      calls.foldlM (call this n) data = some data' ∧
      getData this n data' stack = some (calls.foldl Call.value value, data'')

/-! ## The loop -/

/-- What the first `k` words are combined with. -/
def keyWords (key : BitVec 32) (k : ℕ) : List Byte := (List.replicate k (ofDword key)).flatten

@[simp] theorem length_keyWords (key : BitVec 32) (k : ℕ) : (keyWords key k).length = 4 * k := by
  induction k with
  | zero => rfl
  | succ k ih =>
    rw [keyWords, List.replicate_succ, List.flatten_cons, List.length_append, length_ofDword,
      ← keyWords, ih]
    omega

theorem keyWords_succ (key : BitVec 32) (k : ℕ) :
    keyWords key (k + 1) = keyWords key k ++ ofDword key := by
  rw [keyWords, List.replicate_succ', List.flatten_append, List.flatten_singleton]
  rfl

/-- `out` after `k` rounds. -/
def words (key : BitVec 32) (input out : List Byte) (k : ℕ) : List Byte :=
  xorBytes (input.take (4 * k)) (keyWords key k) ++ out.drop (4 * k)

section Loop

variable {key limit : BitVec 32} {input out : List Byte} {n k fuel : ℕ}

theorem length_words (hin : input.length = n) (hout : out.length = n) (hk : 4 * k ≤ n) :
    (words key input out k).length = n := by
  rw [words, List.length_append, length_xorBytes, List.length_take, List.length_drop,
    length_keyWords]
  omega

/-- One round. -/
theorem xorLoop_succ (hin : input.length = n) (hout : out.length = n) (hk : 4 * (k + 1) ≤ n)
    (hn : n < 2 ^ 32) (hlim : 4 * k < limit.toNat) :
    xorLoop key limit input (fuel + 1) (BitVec.ofNat 32 (4 * k)) (words key input out k) =
      xorLoop key limit input fuel (BitVec.ofNat 32 (4 * (k + 1))) (words key input out (k + 1)) := by
  have hi : (BitVec.ofNat 32 (4 * k)).toNat = 4 * k := by
    rw [BitVec.toNat_ofNat]
    omega
  have hlt : BitVec.ofNat 32 (4 * k) < limit := by
    rw [BitVec.lt_def, hi]
    exact hlim
  have hnext : BitVec.ofNat 32 (4 * k) + 4 = BitVec.ofNat 32 (4 * (k + 1)) := by
    apply BitVec.eq_of_toNat_eq
    rw [BitVec.toNat_add, hi, BitVec.toNat_ofNat]
    rfl
  obtain ⟨p, q, hpq, hp, hq⟩ := exists_append (b := input) (k := 4 * k) (by omega)
  obtain ⟨w, q', rfl, hw, -⟩ := exists_append (b := q) (k := 4) (by omega)
  obtain ⟨o, t, rfl, ho, ht⟩ := exists_append (b := out) (k := 4 * k) (by omega)
  obtain ⟨x, t', rfl, hx, -⟩ := exists_append (b := t) (k := 4) (by omega)
  have hbefore : words key input (o ++ (x ++ t')) k = xorBytes p (keyWords key k) ++ (x ++ t') := by
    rw [words, hpq, ← hp, List.take_left, hp, ← ho, List.drop_left]
  have hafter : words key input (o ++ (x ++ t')) (k + 1) =
      xorBytes p (keyWords key k) ++ (xorBytes w (ofDword key) ++ t') := by
    have htake : input.take (4 * (k + 1)) = p ++ w := by
      rw [hpq, ← List.append_assoc, show 4 * (k + 1) = (p ++ w).length by
        rw [List.length_append]; omega, List.take_left]
    have hdrop : (o ++ (x ++ t')).drop (4 * (k + 1)) = t' := by
      rw [← List.append_assoc, show 4 * (k + 1) = (o ++ x).length by
        rw [List.length_append]; omega, List.drop_left]
    rw [words, htake, hdrop, keyWords_succ,
      xorBytes_append (by rw [hp, length_keyWords]), List.append_assoc]
  have hread : readDword input (4 * k) = some (dword w) := by
    rw [hpq, readDword, read_append hp hw, Option.map_some]
  have hwrite : writeDword (xorBytes p (keyWords key k) ++ (x ++ t')) (4 * k) (dword w ^^^ key) =
      some (xorBytes p (keyWords key k) ++ (xorBytes w (ofDword key) ++ t')) := by
    rw [writeDword, ofDword_xor hw]
    refine write_append ?_ ?_
    · rw [length_xorBytes, hp, length_keyWords, Nat.min_self]
    · rw [length_xorBytes, hw, length_ofDword, Nat.min_self, hx]
  rw [xorLoop, if_pos hlt, hi, hread, hbefore, Option.bind_eq_bind, Option.bind_some, hwrite,
    Option.bind_eq_bind, Option.bind_some, hnext, hafter]

/-- The first `k` rounds. -/
theorem xorLoop_words (hin : input.length = n) (hout : out.length = n) (hn : n < 2 ^ 32)
    (hk : 4 * k ≤ n) (hlim : 4 * k < limit.toNat + 4) :
    xorLoop key limit input (fuel + k) 0 out =
      xorLoop key limit input fuel (BitVec.ofNat 32 (4 * k)) (words key input out k) := by
  induction k generalizing fuel with
  | zero => rfl
  | succ k ih =>
    rw [show fuel + (k + 1) = fuel + 1 + k by omega, ih (by omega) (by omega),
      xorLoop_succ hin hout hk hn (by omega)]

/-- All rounds, when the last word lies in the buffer. -/
theorem xorLoop_eq (hin : input.length = n) (hout : out.length = n) (hn : n < 2 ^ 32)
    (hk : 4 * k ≤ n) (hlim : 4 * k < limit.toNat + 4) (hend : limit.toNat ≤ 4 * k) :
    xorLoop key limit input (input.length + 1) 0 out = some (words key input out k) := by
  have hstop : ¬ BitVec.ofNat 32 (4 * k) < limit := by
    rw [BitVec.lt_def, BitVec.toNat_ofNat]
    omega
  rw [hin, show n + 1 = n - k + 1 + k by omega, xorLoop_words hin hout hn hk hlim, xorLoop,
    if_neg hstop]

theorem take_words {p q : List Byte} (hk : p.length ≤ 4 * k) (hin : 4 * k ≤ (p ++ q).length) :
    (words key (p ++ q) out k).take p.length = xorBytes p ((keyWords key k).take p.length) := by
  rw [words, List.take_append_of_le_length (by
    rw [length_xorBytes, List.length_take, length_keyWords]; omega), take_xorBytes,
    List.take_take, Nat.min_eq_left hk, List.take_left]

end Loop

/-! ## The good sizes -/

/-- What the bytes are combined with. -/
def stream (key : BitVec 32) (n : ℕ) : List Byte :=
  let r := 4 - n % 4
  (keyWords key ((n - r + 3) / 4)).take (n - r) ++ (ofDword key).take r

section Sizes

variable {this key : BitVec 32} {input out : List Byte} {n : ℕ}

theorem toNat_rest (hn : n < 2 ^ 32) : (4 - BitVec.ofNat 32 n % 4 : BitVec 32).toNat = 4 - n % 4 := by
  have hmod : (BitVec.ofNat 32 n % 4 : BitVec 32).toNat = n % 4 := by
    rw [BitVec.toNat_umod, BitVec.toNat_ofNat, Nat.mod_eq_of_lt hn]
    rfl
  rw [BitVec.toNat_sub_of_le (by rw [BitVec.le_def, hmod]; exact (Nat.mod_lt n (by omega)).le), hmod]
  rfl

theorem length_stream (hlt : 4 - n % 4 ≤ n) : (stream key n).length = n := by
  rw [stream, List.length_append, List.length_take, List.length_take, length_keyWords,
    length_ofDword]
  omega

/-- The last bytes are combined through `r_data`. -/
theorem take_ofDword_xor {l : List Byte} (hl : l.length ≤ 4) (key : BitVec 32) :
    (ofDword (dword (l ++ List.replicate (4 - l.length) 0) ^^^ key)).take l.length =
      xorBytes l ((ofDword key).take l.length) := by
  rw [ofDword_xor (by rw [List.length_append, List.length_replicate]; omega), take_xorBytes,
    List.take_left]

theorem xor_eq (hin : input.length = n) (hout : out.length = n) (hn : n < 2 ^ 32) (h1 : 1 ≤ n)
    (hone : n ≠ 1) (hthree : n % 4 ≠ 3) :
    xor this input (BitVec.ofNat 32 n) out =
      some (xorBytes input (stream (this ^^^ 0x88888888) n)) := by
  have hsize : (BitVec.ofNat 32 n).toNat = n := by
    rw [BitVec.toNat_ofNat]
    exact Nat.mod_eq_of_lt hn
  have hr := toNat_rest hn
  unfold xor stream
  simp only
  generalize this ^^^ 0x88888888 = key
  generalize (4 - BitVec.ofNat 32 n % 4 : BitVec 32) = r at hr ⊢
  generalize hR : 4 - n % 4 = R at hr ⊢
  have hle : r ≤ BitVec.ofNat 32 n := by
    rw [BitVec.le_def, hr, hsize]
    omega
  have hlim : (BitVec.ofNat 32 n - r).toNat = n - R := by
    rw [BitVec.toNat_sub_of_le hle, hsize, hr]
  generalize hW : (n - R + 3) / 4 = W
  have hloop : xorLoop key (BitVec.ofNat 32 n - r) input (input.length + 1) 0 out =
      some (words key input out W) :=
    xorLoop_eq hin hout hn (by omega) (by omega) (by omega)
  have hne : r ≠ 0 := by
    intro h
    rw [h] at hr
    have hzero : (0 : BitVec 32).toNat = 0 := rfl
    omega
  obtain ⟨p, q, rfl, hp, hq⟩ := exists_append (b := input) (k := n - R) (by omega)
  have hqR : q.length = R := by omega
  have hread : read (p ++ q) (n - R) R = some q := by
    have h := read_append (r := []) hp hqR
    rwa [List.append_nil] at h
  have htail := take_ofDword_xor (l := q) (by omega) key
  rw [hqR] at htail
  have hwrite : write (words key (p ++ q) out W) (n - R) (xorBytes q ((ofDword key).take R)) =
      some (xorBytes p ((keyWords key W).take (n - R)) ++ xorBytes q ((ofDword key).take R)) := by
    have hlen : (words key (p ++ q) out W).length = n := length_words hin hout (by omega)
    have hpiece : (xorBytes q ((ofDword key).take R)).length = R := by
      rw [length_xorBytes, List.length_take, length_ofDword]
      omega
    have hborder : (words key (p ++ q) out W).take p.length =
        xorBytes p ((keyWords key W).take p.length) := take_words (by omega) (by omega)
    rw [hp] at hborder
    rw [write, if_pos (by omega), hborder, List.drop_eq_nil_of_le (by omega), List.append_nil]
  rw [hloop, Option.bind_eq_bind, Option.bind_some, if_pos hne, if_pos hle, hsize, hr, hread,
    Option.bind_some, htail, hwrite,
    xorBytes_append (by rw [List.length_take, length_keyWords]; omega)]

/-! ## The bad sizes -/

/-- A word that is not in the buffer. -/
theorem xor_eq_none (hin : input.length = n) (hout : out.length = n) (hn : n < 2 ^ 32)
    (hbad : n = 1 ∨ n % 4 = 3) : xor this input (BitVec.ofNat 32 n) out = none := by
  have hsize : (BitVec.ofNat 32 n).toNat = n := by
    rw [BitVec.toNat_ofNat]
    exact Nat.mod_eq_of_lt hn
  have hr := toNat_rest hn
  unfold xor
  simp only
  generalize this ^^^ 0x88888888 = key
  generalize (4 - BitVec.ofNat 32 n % 4 : BitVec 32) = r at hr ⊢
  have hlim : 4 * (n / 4) < (BitVec.ofNat 32 n - r).toNat := by
    rw [BitVec.toNat_sub, hsize, hr]
    omega
  have hi : (BitVec.ofNat 32 (4 * (n / 4))).toNat = 4 * (n / 4) := by
    rw [BitVec.toNat_ofNat]
    omega
  have hlt : BitVec.ofNat 32 (4 * (n / 4)) < BitVec.ofNat 32 n - r := by
    rw [BitVec.lt_def, hi]
    exact hlim
  have hread : readDword input (4 * (n / 4)) = none := by
    rw [readDword, read_eq_none.2 (by omega), Option.map_none]
  have hloop : xorLoop key (BitVec.ofNat 32 n - r) input (input.length + 1) 0 out = none := by
    rw [hin, show n + 1 = n - n / 4 + 1 + n / 4 by omega,
      xorLoop_words hin hout hn (by omega) (by omega), xorLoop, if_pos hlt, hi, hread]
    rfl
  rw [hloop]
  rfl

end Sizes

/-! ## Calls -/

section Good

variable {this : BitVec 32} {n : ℕ} {data stack : List Byte}

/-- The sizes for which only the buffers are accessed. -/
def Good (n : ℕ) : Prop := n ≠ 1 ∧ n % 4 ≠ 3

/-- The value behind the stored bytes, and the other way round. -/
def image (this : BitVec 32) (n : ℕ) (l : List Byte) : List Byte :=
  xorBytes l (stream (this ^^^ 0x88888888) n)

variable (hn : 1 ≤ n) (hlt : n < 2 ^ 32) (hgood : Good n)

include hn hgood in
theorem length_image (hd : data.length = n) : (image this n data).length = n := by
  obtain ⟨hone, hthree⟩ := hgood
  rw [image, length_xorBytes, length_stream (by omega), hd, Nat.min_self]

include hn hgood in
theorem image_image (hd : data.length = n) : image this n (image this n data) = data := by
  obtain ⟨hone, hthree⟩ := hgood
  exact xorBytes_xorBytes (by rw [length_stream (by omega), hd])

include hn hlt hgood in
theorem xor_image (hd : data.length = n) (hs : stack.length = n) :
    xor this data (BitVec.ofNat 32 n) stack = some (image this n data) :=
  xor_eq hd hs hlt hn hgood.1 hgood.2

include hn hlt hgood in
theorem process_eq {callback : List Byte → List Byte} (hd : data.length = n)
    (hs : stack.length = n) (hc : ∀ l, l.length = n → (callback l).length = n) :
    process this n callback data stack =
      some (callback (image this n data), image this n (callback (image this n data))) := by
  have hvalue : (callback (image this n data)).length = n := hc _ (length_image hn hgood hd)
  rw [process, decode, xor_image hn hlt hgood hd hs, Option.bind_eq_bind, Option.bind_some]
  simp only [encode, xor_image hn hlt hgood hvalue hd, Option.bind_some]
  rfl

include hn hlt hgood in
/-- A call leaves the image of the value. -/
theorem call_eq {c : Call} (hd : data.length = n) (hc : c.Sized n) :
    call this n data c = some (image this n (c.value (image this n data))) ∧
      (c.value (image this n data)).length = n := by
  cases c with
  | setData value stack =>
    refine ⟨?_, hc.1⟩
    rw [call, setData, process_eq hn hlt hgood hd hc.2 fun _ _ => hc.1, Option.map_some]
    rfl
  | process callback stack =>
    refine ⟨?_, hc.1 _ (length_image hn hgood hd)⟩
    rw [call, process_eq hn hlt hgood hd hc.2 hc.1, Option.map_some]
    rfl

include hn hlt hgood in
/-- All calls. -/
theorem foldlM_call {calls : List Call} (hd : data.length = n) (hc : ∀ c ∈ calls, c.Sized n) :
    ∃ data', data'.length = n ∧ calls.foldlM (call this n) data = some data' ∧
      image this n data' = calls.foldl Call.value (image this n data) := by
  induction calls generalizing data with
  | nil => exact ⟨data, hd, rfl, rfl⟩
  | cons c calls ih =>
    obtain ⟨hcall, hvalue⟩ : call this n data c = some (image this n (c.value (image this n data))) ∧
        (c.value (image this n data)).length = n := call_eq hn hlt hgood hd (hc c (.head _))
    have hstored : (image this n (c.value (image this n data))).length = n :=
      length_image hn hgood hvalue
    obtain ⟨data', hd', hrun, himage⟩ := ih hstored fun c' h => hc c' (.tail _ h)
    refine ⟨data', hd', ?_, ?_⟩
    · rw [List.foldlM_cons, hcall]
      exact hrun
    · rw [himage, image_image hn hgood hvalue]
      rfl

include hn hlt hgood in
theorem storageOk : StorageOk this n where
  bounds input out hin hout := by rw [xor_image hn hlt hgood hin hout]; rfl
  roundTrip value data stack data' hv hd hs h := by
    rw [encode, xor_image hn hlt hgood hv hd] at h
    obtain rfl := Option.some.inj h
    rw [decode, xor_image hn hlt hgood (length_image hn hgood hv) hs, image_image hn hgood hv]
  stored data stack calls hd hs hc := by
    obtain ⟨data', hd', hrun, himage⟩ : ∃ data', data'.length = n ∧
        calls.foldlM (call this n) data = some data' ∧
        image this n data' = calls.foldl Call.value (image this n data) :=
      foldlM_call hn hlt hgood hd hc
    have hid : ∀ l : List Byte, l.length = n → (id l).length = n := fun _ h => h
    refine ⟨image this n data, data', image this n (image this n data'),
      xor_image hn hlt hgood hd hs, hrun, ?_⟩
    rw [getData, process_eq hn hlt hgood hd' hs hid, id, himage]

end Good

/-- The storage works for all sizes but 1 and those that leave 3 modulo 4. -/
theorem storageOk_iff (this : BitVec 32) {n : ℕ} (hn : 1 ≤ n) (hlt : n < 2 ^ 32) :
    StorageOk this n ↔ n ≠ 1 ∧ n % 4 ≠ 3 := by
  refine ⟨fun h => ?_, storageOk hn hlt⟩
  have hzeros : (List.replicate n (0 : Byte)).length = n := List.length_replicate
  have hsome := h.bounds _ _ hzeros hzeros
  constructor
  · intro hone
    rw [xor_eq_none hzeros hzeros hlt (.inl hone)] at hsome
    cases hsome
  · intro hthree
    rw [xor_eq_none hzeros hzeros hlt (.inr hthree)] at hsome
    cases hsome

theorem storageOk_five : StorageOk 0x1000 5 := (storageOk_iff 0x1000 (by decide) (by decide)).2 (by decide)

/-- With three bytes, a word of four bytes is read. -/
theorem three_bytes : ¬ StorageOk 0x1000 3 := fun h =>
  absurd (h.bounds [1, 2, 3] [0, 0, 0] rfl rfl) (by decide)

end EncryptedData

end DreamDota
