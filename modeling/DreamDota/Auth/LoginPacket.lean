import DreamDota.Auth.MessageRoundTrip
import DreamDota.Auth.ThreadPipe
import DreamDota.Auth.Xxtea
import Mathlib.Data.List.TakeWhile

/-!
# The login packet

`ThreadLogin::SetCredencial` and `DoLogin`, which builds its message in an array on the stack. The
result of `message_build` is not tested, and the size of the message covers up to three bytes that
nothing writes.

1. `setCredencial`, `doLogin`: the code.
2. `doLogin_fits`, `doLogin_too_long`: the two cases.
3. `loginSafe_iff`: the accounts for which the packet is what was built.
4. `noStaleMemory_iff`: the messages and packets without bytes from the stack.
-/

namespace DreamDota

open Bytes

/-! ## Fields that are added -/

/-- `message_fields_init`. -/
def messageFieldsInit (fieldc : BitVec 32) : MessageFieldsData where
  fieldc := fieldc.truncate 8
  fieldsSize := List.replicate fieldc.toNat 0
  fieldsData := List.replicate fieldc.toNat []

/-- Where the loop of `message_field_add` ends. -/
def MessageFieldsData.freeSlot (data : MessageFieldsData) : ℕ :=
  data.fieldsSize.findIdx fun size => !decide (0 < size)

/-- `fields_size[fieldc - 1]`. With no fields the index is below the array. -/
def MessageFieldsData.lastSize (data : MessageFieldsData) : Option (BitVec 32) :=
  if data.fieldc = 0 then none else data.fieldsSize[data.fieldc.toNat - 1]?

/-- `message_field_add`: its result and the data. `buffer` are the bytes that it copies. The last size
is zero when the loop begins, so the loop ends there at the latest. -/
def messageFieldAdd (data : MessageFieldsData) (buffer : List Byte) :
    Option (Bool × MessageFieldsData) := do
  if 0 < (← data.lastSize) then return (false, data)
  else
    let i := data.freeSlot
    return (true, { data with
      fieldsSize := data.fieldsSize.set i (BitVec.ofNat 32 buffer.length)
      fieldsData := data.fieldsData.set i buffer })

/-! ## `SetCredencial` -/

/-- The bytes of a string, without what follows its end. -/
def cString (bytes : List Byte) : List Byte := bytes.takeWhile (· ≠ 0)

def strlen (bytes : List Byte) : ℕ := (cString bytes).length

/-- What Windows and OpenSSL compute. The size of a conversion is an `int`. -/
structure Conversions where
  wideCharToMultiByte : List (BitVec 16) → List Byte
  md5 : List Byte → Fin 16 → Byte
  size_lt : ∀ s, (wideCharToMultiByte s).length < 2 ^ 31

structure Credencial where
  account : List Byte
  passwordMd5 : List Byte

/-- `map[i]`. -/
def hexDigit (i : BitVec 8) : Byte := if i < 10 then 0x30 + i else 0x61 + (i - 10)

/-- `HashPassword`: the 32 bytes of `password_md5_`. -/
def hashPassword (conv : Conversions) (password : List Byte) : List Byte :=
  if strlen password ≠ 32 then
    (List.finRange 16).flatMap fun i =>
      [hexDigit (conv.md5 (cString password) i / 0x10),
        hexDigit (conv.md5 (cString password) i % 0x10)]
  else cString password

/-- `SetCredencial`. Its result `false` is `none`. -/
def setCredencial (conv : Conversions) (account password : List (BitVec 16)) :
    Option Credencial :=
  let account := conv.wideCharToMultiByte account
  let password := conv.wideCharToMultiByte password
  if account ≠ [] ∧ password ≠ [] then some ⟨account, hashPassword conv password⟩ else none

/-! ## `DoLogin` -/

def MESSAGE_TYPE_LOGIN : BitVec 16 := 2

/-- `InlineUtils::GetUniqueId()`, `VERSION.revision` and `Locale::GetPreferedLCID()`. -/
structure LoginClient where
  clientId : BitVec 32
  version : BitVec 32
  lcid : BitVec 32

/-- `DoLogin`, with the array as it finds it on the stack: what it hands to `Request`. An access
outside of the array is `none`. -/
def doLogin (client : LoginClient) (key : EncryptKey) (cred : Credencial) (session : SessionType)
    (buffer : List Byte) : Option (List (List Byte)) := do
  let msg := messageFieldsInit 5
  let (_, msg) ← messageFieldAdd msg (cString cred.account ++ [0])
  let (_, msg) ← messageFieldAdd msg (cString cred.passwordMd5 ++ [0])
  let (_, msg) ← messageFieldAdd msg (ofDword client.clientId)
  let (_, msg) ← messageFieldAdd msg (ofDword client.version)
  let (_, msg) ← messageFieldAdd msg (ofDword client.lcid)
  let (_, buffer) ← messageBuild MESSAGE_TYPE_LOGIN msg buffer 1024
  let size := messageSizeCalc msg
  let buffer ← write buffer 2 session.id
  let body ← read buffer sizeofMessageHeader (size - BitVec.ofNat 32 sizeofMessageHeader).toNat
  let buffer ← write buffer sizeofMessageHeader (← xxteaEncrypt key body)
  return [← read buffer 0 size.toNat]

/-! ## The fields -/

/-- The data when the fields `done` have been added and `k` are to come. -/
def partialData (done : List (List Byte)) (k : ℕ) : MessageFieldsData where
  fieldc := BitVec.ofNat 8 (done.length + k)
  fieldsSize := (done.map fun f => BitVec.ofNat 32 f.length) ++ List.replicate k 0
  fieldsData := done ++ List.replicate k []

theorem partialData_zero (fields : List (List Byte)) :
    partialData fields 0 = MessageFieldsData.of fields := by
  unfold partialData MessageFieldsData.of
  rw [List.replicate_zero, List.replicate_zero, List.append_nil, List.append_nil]
  rfl

theorem freeSlot_partialData {done : List (List Byte)} {k : ℕ}
    (hdone : ∀ f ∈ done, f ≠ [] ∧ f.length < 2 ^ 32) :
    (partialData done (k + 1)).freeSlot = done.length := by
  have hfalse : (done.map fun f => BitVec.ofNat 32 f.length).findIdx
      (fun size => !decide (0 < size)) = done.length := by
    rw [List.findIdx_eq_length_of_false, List.length_map]
    intro size hsize
    obtain ⟨g, hg, rfl⟩ := List.mem_map.mp hsize
    obtain ⟨hne, hlt⟩ := hdone g hg
    have hpos : 0 < BitVec.ofNat 32 g.length := by
      rw [BitVec.lt_def, toNat_ofNat_of_lt hlt]
      exact List.length_pos_of_ne_nil hne
    rw [decide_eq_true hpos]
    rfl
  unfold MessageFieldsData.freeSlot partialData
  rw [List.findIdx_append, hfalse, List.length_map, if_neg (Nat.lt_irrefl _)]
  simp [List.replicate_succ, List.findIdx_cons]

theorem toNat_fieldc_partialData (done : List (List Byte)) (k : ℕ) :
    (partialData done k).fieldc.toNat = (done.length + k) % 256 := BitVec.toNat_ofNat ..

/-- `fieldc` is the number of the slots modulo 256. -/
theorem lastSize_partialData {done : List (List Byte)} {k : ℕ}
    (hroom : done.length < (done.length + k) % 256) : (partialData done k).lastSize = some 0 := by
  have hfieldc := toNat_fieldc_partialData done k
  have hne : (partialData done k).fieldc ≠ 0 := fun hzero => by
    rw [hzero, show (0 : BitVec 8).toNat = 0 from rfl] at hfieldc
    omega
  have hmod := Nat.mod_le (done.length + k) 256
  rw [MessageFieldsData.lastSize, if_neg hne, hfieldc]
  unfold partialData
  rw [List.getElem?_append_right (by rw [List.length_map]; omega), List.length_map,
    List.getElem?_replicate, if_pos (by omega)]

theorem messageFieldAdd_partialData {done : List (List Byte)} {k : ℕ}
    (hroom : done.length < (done.length + (k + 1)) % 256)
    (hdone : ∀ f ∈ done, f ≠ [] ∧ f.length < 2 ^ 32) (f : List Byte) :
    messageFieldAdd (partialData done (k + 1)) f = some (true, partialData (done ++ [f]) k) := by
  have hset {α : Type} (l : List α) (x y : α) :
      (l ++ List.replicate (k + 1) x).set l.length y = l ++ [y] ++ List.replicate k x := by
    rw [List.set_append_right _ _ (Nat.le_refl _), Nat.sub_self, List.replicate_succ,
      List.set_cons_zero, List.append_assoc, List.singleton_append]
  have hsizes := hset (done.map fun f => BitVec.ofNat 32 f.length) 0 (BitVec.ofNat 32 f.length)
  rw [List.length_map] at hsizes
  unfold messageFieldAdd
  rw [lastSize_partialData hroom, freeSlot_partialData hdone]
  simp only [Option.bind_eq_bind, Option.bind_some]
  rw [if_neg (by decide)]
  unfold partialData
  simp only [hset, hsizes, List.map_append, List.map_singleton, List.length_append,
    List.length_singleton]
  rw [Nat.add_assoc, Nat.add_comm 1 k]
  rfl

variable (client : LoginClient) (key : EncryptKey) {cred : Credencial} (session : SessionType)
  {buffer : List Byte}

def loginFields (client : LoginClient) (cred : Credencial) : List (List Byte) :=
  [cString cred.account ++ [0], cString cred.passwordMd5 ++ [0], ofDword client.clientId,
    ofDword client.version, ofDword client.lcid]

/-- What `SetCredencial` guarantees. -/
structure Credencial.Ok (cred : Credencial) : Prop where
  account_lt : strlen cred.account < 2 ^ 31
  length_md5 : strlen cred.passwordMd5 = 32

theorem hexDigit_ne_zero : ∀ b : Byte, hexDigit (b / 0x10) ≠ 0 ∧ hexDigit (b % 0x10) ≠ 0 := by
  decide

theorem cString_of_ne_zero {l : List Byte} (h : ∀ b ∈ l, b ≠ 0) : cString l = l := by
  unfold cString
  rw [List.takeWhile_eq_self_iff]
  exact fun b hb => decide_eq_true (h b hb)

theorem ne_zero_of_mem_cString {l : List Byte} {b : Byte} (h : b ∈ cString l) : b ≠ 0 :=
  of_decide_eq_true (List.mem_takeWhile_imp (p := fun b : Byte => decide (b ≠ 0)) h)

theorem strlen_hashPassword (conv : Conversions) (password : List Byte) :
    strlen (hashPassword conv password) = 32 := by
  unfold hashPassword
  split_ifs with h
  · unfold strlen
    rw [cString_of_ne_zero]
    · simp [List.length_flatMap]
    · intro b hb
      obtain ⟨i, -, hb⟩ := List.mem_flatMap.mp hb
      obtain ⟨hhigh, hlow⟩ := hexDigit_ne_zero (conv.md5 (cString password) i)
      rcases List.mem_pair.mp hb with rfl | rfl
      · exact hhigh
      · exact hlow
  · rw [not_not] at h
    unfold strlen
    rw [cString_of_ne_zero fun b => ne_zero_of_mem_cString]
    exact h

theorem Credencial.Ok.of_setCredencial {conv : Conversions} {account password : List (BitVec 16)}
    (h : setCredencial conv account password = some cred) : cred.Ok := by
  unfold setCredencial at h
  obtain ⟨-, h⟩ := Option.ite_none_right_eq_some.mp h
  obtain rfl := Option.some.inj h
  refine ⟨?_, strlen_hashPassword conv _⟩
  have hle : (cString (conv.wideCharToMultiByte account)).length ≤
      (conv.wideCharToMultiByte account).length := (List.takeWhile_prefix _).length_le
  exact Nat.lt_of_le_of_lt hle (conv.size_lt account)

theorem mem_loginFields (h : cred.Ok) :
    ∀ f ∈ loginFields client cred, f ≠ [] ∧ f.length < 2 ^ 32 := by
  have haccount := h.account_lt
  have hmd5 := h.length_md5
  unfold strlen at haccount hmd5
  unfold loginFields
  simp only [List.forall_mem_cons, ← List.length_pos_iff, List.length_append, List.length_singleton,
    length_ofDword]
  refine ⟨by omega, by omega, by omega, by omega, by omega, List.forall_mem_nil _⟩

/-! ## The packet -/

/-- What `message_build` and the copy of the session id write. -/
def loginBytes (client : LoginClient) (cred : Credencial) (session : SessionType) : List Byte :=
  ofWord MESSAGE_TYPE_LOGIN ++ (session.id ++ (ofWord 5 ++ (ofDword 0 ++
    (offsetTable 0 (loginFields client cred) ++ (loginFields client cred).flatten))))

theorem dataBytes_loginFields (h : cred.Ok) :
    dataBytes (loginFields client cred) = strlen cred.account + 46 := by
  have hmd5 := h.length_md5
  unfold strlen at hmd5
  simp only [dataBytes, loginFields, List.flatten_cons, List.flatten_nil, List.length_append,
    List.length_singleton, List.length_nil, length_ofDword, hmd5, strlen]

theorem length_loginBytes (h : cred.Ok) :
    (loginBytes client cred session).length = strlen cred.account + 106 := by
  have hdata := dataBytes_loginFields client h
  unfold dataBytes at hdata
  simp only [loginBytes, List.length_append, length_ofWord, length_ofDword, session.length_id,
    length_offsetTable, hdata]
  simp only [loginFields, List.length_cons, List.length_nil]
  omega

theorem messageSize_loginFields (h : cred.Ok) :
    messageSize (loginFields client cred) = (strlen cred.account + 109) / 4 * 4 := by
  rw [messageSize, dataBytes_loginFields client h, sizeofMessageHeader]
  simp only [loginFields, List.length_cons, List.length_nil]
  omega

theorem toNat_loginSize (h : cred.Ok) :
    (messageSizeCalc (MessageFieldsData.of (loginFields client cred))).toNat =
      (strlen cred.account + 109) / 4 * 4 := by
  have hlt := h.account_lt
  rw [messageSizeCalc_of (Nat.le_of_ble_eq_true rfl)
      (by rw [messageSize_loginFields client h]; omega),
    messageSize_loginFields client h]

/-- `DoLogin` after the fields have been added. -/
theorem doLogin_eq (h : cred.Ok) (buffer : List Byte) :
    doLogin client key cred session buffer = (do
      let (_, buffer) ← messageBuild MESSAGE_TYPE_LOGIN
        (MessageFieldsData.of (loginFields client cred)) buffer 1024
      let buffer ← write buffer 2 session.id
      let body ← read buffer 40 ((strlen cred.account + 109) / 4 * 4 - 40)
      let buffer ← write buffer 40 (← xxteaEncrypt key body)
      return [← read buffer 0 ((strlen cred.account + 109) / 4 * 4)]) := by
  have hsize := toNat_loginSize client h
  have hsub : (messageSizeCalc (MessageFieldsData.of (loginFields client cred)) -
      BitVec.ofNat 32 40).toNat = (strlen cred.account + 109) / 4 * 4 - 40 := by
    have hlt := h.account_lt
    have hforty : (BitVec.ofNat 32 40).toNat = 40 := rfl
    rw [BitVec.toNat_sub, hsize, hforty]
    omega
  have hfields := mem_loginFields client h
  have hadd (done : List (List Byte)) (f : List Byte) (k : ℕ)
      (hcount : done.length + (k + 1) < 256)
      (hdone : ∀ g ∈ done, g ∈ loginFields client cred) :
      messageFieldAdd (partialData done (k + 1)) f = some (true, partialData (done ++ [f]) k) :=
    messageFieldAdd_partialData (by rw [Nat.mod_eq_of_lt hcount]; omega)
      (fun g hg => hfields g (hdone g hg)) f
  have hinit : messageFieldsInit 5 = partialData [] 5 := rfl
  rw [← hsub, ← hsize]
  unfold doLogin
  unfold loginFields at hadd ⊢
  simp only [hinit]
  rw [hadd _ _ _ (by simp) (by simp)]
  simp only [Option.bind_eq_bind, Option.bind_some, List.nil_append]
  rw [hadd _ _ _ (by simp) (by simp)]
  simp only [Option.bind_some, List.singleton_append]
  rw [hadd _ _ _ (by simp) (by simp)]
  simp only [Option.bind_some, List.cons_append, List.nil_append]
  rw [hadd _ _ _ (by simp) (by simp)]
  simp only [Option.bind_some, List.cons_append, List.nil_append]
  rw [hadd _ _ _ (by simp) (by simp)]
  simp only [Option.bind_some, List.cons_append, List.nil_append, partialData_zero]
  rfl

/-- The session id takes the place of the zeros. -/
theorem write_loginSession (rest : List Byte) :
    write (encode MESSAGE_TYPE_LOGIN (loginFields client cred) ++ rest) 2 session.id =
      some (loginBytes client cred session ++ rest) := by
  have hwrite (x : List Byte) :
      write (ofWord MESSAGE_TYPE_LOGIN ++ (List.replicate 32 0 ++ x)) 2 session.id =
        some (ofWord MESSAGE_TYPE_LOGIN ++ (session.id ++ x)) :=
    write_append (length_ofWord _) (by rw [session.length_id, List.length_replicate])
  simp only [encode, loginBytes, List.append_assoc, hwrite]
  rfl

/-- The array after the message has been built. -/
def loginMessageBuff (client : LoginClient) (cred : Credencial) (session : SessionType)
    (buffer : List Byte) : List Byte :=
  loginBytes client cred session ++ buffer.drop (loginBytes client cred session).length

theorem length_loginMessageBuff (h : cred.Ok) (hbuffer : buffer.length = 1024)
    (hfits : strlen cred.account ≤ 918) :
    (loginMessageBuff client cred session buffer).length = 1024 := by
  have hlen := length_loginBytes client session h
  rw [loginMessageBuff, List.length_append, List.length_drop, hbuffer, hlen]
  omega

/-! ## Encryption -/

theorem exists_xxteaEncrypt (key : EncryptKey) {data : List Byte} (hsize : data.length ≤ 2 ^ 32)
    (hone : data.length / 4 ≠ 1) :
    ∃ enc, xxteaEncrypt key data = some enc ∧ enc.length = data.length := by
  obtain ⟨enc, -, hkeeps, -, henc, -⟩ := xxteaRoundTrip hsize hone
  exact ⟨enc, henc, hkeeps.1⟩

theorem length_xxteaEncrypt {key : EncryptKey} {data enc : List Byte} (hsize : data.length ≤ 2 ^ 32)
    (hone : data.length / 4 ≠ 1) (henc : xxteaEncrypt key data = some enc) :
    enc.length = data.length := by
  obtain ⟨enc', henc', hlen⟩ := exists_xxteaEncrypt key hsize hone
  rw [henc] at henc'
  rw [Option.some.inj henc', hlen]

theorem xxteaEncrypt_injective {key : EncryptKey} {a b enc : List Byte} (hsize : a.length ≤ 2 ^ 32)
    (hone : a.length / 4 ≠ 1) (hlen : a.length = b.length) (ha : xxteaEncrypt key a = some enc)
    (hb : xxteaEncrypt key b = some enc) : a = b := by
  obtain ⟨ea, eda, -, -, hea, -, hdeca, -⟩ := xxteaRoundTrip hsize hone
  obtain ⟨eb, edb, -, -, heb, -, hdecb, -⟩ :=
    xxteaRoundTrip (hlen ▸ hsize) (hlen ▸ hone)
  rw [ha] at hea
  rw [hb] at heb
  obtain rfl := Option.some.inj hea
  obtain rfl := Option.some.inj heb
  have hdec := (hdeca _ (Nat.le_refl _)).1
  rw [hlen, (hdecb _ (Nat.le_refl _)).1] at hdec
  exact (Option.some.inj hdec).symm

/-! ## The two cases -/

/-- The part of the packet that is encrypted. -/
def loginBody (client : LoginClient) (cred : Credencial) (session : SessionType)
    (buffer : List Byte) : List Byte :=
  ((loginMessageBuff client cred session buffer).drop sizeofMessageHeader).take
    ((strlen cred.account + 109) / 4 * 4 - sizeofMessageHeader)

theorem length_loginBody (h : cred.Ok) (hbuffer : buffer.length = 1024)
    (hfits : strlen cred.account ≤ 918) :
    (loginBody client cred session buffer).length = (strlen cred.account + 109) / 4 * 4 - 40 := by
  have hlen := length_loginMessageBuff client session h hbuffer hfits
  rw [loginBody, List.length_take, List.length_drop, hlen, sizeofMessageHeader]
  omega

theorem doLogin_fits (h : cred.Ok) (hbuffer : buffer.length = 1024)
    (hfits : strlen cred.account ≤ 918) :
    ∃ body, xxteaEncrypt key (loginBody client cred session buffer) = some body ∧
      doLogin client key cred session buffer =
        some [(loginBytes client cred session).take sizeofMessageHeader ++ body] := by
  have hlen := length_loginMessageBuff client session h hbuffer hfits
  have hbody := length_loginBody client session h hbuffer hfits
  have hbytes := length_loginBytes client session h
  have hmessage := messageSize_loginFields client h
  have hbuffer' : buffer.length = (1024 : BitVec 32).toNat := hbuffer
  have hle : messageSize (loginFields client cred) ≤ (1024 : BitVec 32).toNat := by
    show messageSize (loginFields client cred) ≤ 1024
    omega
  have hcount : (loginFields client cred).length ≤ 255 := Nat.le_of_ble_eq_true rfl
  have hbuild := messageBuild_encode MESSAGE_TYPE_LOGIN hcount (by omega) hbuffer' hle
  have hencode : (encode MESSAGE_TYPE_LOGIN (loginFields client cred)).length =
      (loginBytes client cred session).length := by
    rw [length_encode, dataBytes_loginFields client h, hbytes, sizeofMessageHeader]
    simp only [loginFields, List.length_cons, List.length_nil]
    omega
  have hsize : (loginBody client cred session buffer).length ≤ 2 ^ 32 := by omega
  obtain ⟨body, henc, hbodylen⟩ := exists_xxteaEncrypt key hsize (by omega)
  refine ⟨body, henc, ?_⟩
  rw [doLogin_eq client key session h, hbuild, hencode]
  simp only [Option.bind_eq_bind, Option.bind_some, write_loginSession client session]
  obtain ⟨p, q, hpq, hp, hq⟩ := exists_append
    (b := loginMessageBuff client cred session buffer) (k := 40) (by omega)
  have hpart : (loginBytes client cred session).take sizeofMessageHeader = p := by
    have htake := congrArg (List.take 40) hpq
    rw [loginMessageBuff, List.take_append_of_le_length (by omega), List.take_left' hp] at htake
    exact htake
  have hbodyq : loginBody client cred session buffer =
      q.take ((strlen cred.account + 109) / 4 * 4 - 40) := by
    rw [loginBody, hpq, sizeofMessageHeader, List.drop_left' hp]
  obtain ⟨b, r, rfl, hb, hr⟩ := exists_append
    (b := q) (k := (strlen cred.account + 109) / 4 * 4 - 40) (by omega)
  rw [List.take_left' hb] at hbodyq
  rw [loginMessageBuff] at hpq
  rw [hpq, hpart, read_append hp hb, Option.bind_some, ← hbodyq, henc, Option.bind_some,
    hbodyq, write_append hp (by rw [hbodylen, hbodyq]), Option.bind_some]
  have hpacket : (p ++ body).length = (strlen cred.account + 109) / 4 * 4 := by
    rw [List.length_append]
    omega
  have hread : read ([] ++ (p ++ body ++ r)) 0 ((strlen cred.account + 109) / 4 * 4) =
      some (p ++ body) := read_append rfl hpacket
  rw [List.nil_append, List.append_assoc] at hread
  rw [hread]
  rfl

theorem doLogin_too_long (h : cred.Ok) (hbuffer : buffer.length = 1024)
    (hlong : 918 < strlen cred.account) : doLogin client key cred session buffer = none := by
  have hsize := toNat_loginSize client h
  have hbuild : messageBuild MESSAGE_TYPE_LOGIN (MessageFieldsData.of (loginFields client cred))
      buffer 1024 = some (false, buffer) := by
    refine if_neg ?_
    rw [BitVec.le_def, hsize]
    show ¬ (strlen cred.account + 109) / 4 * 4 ≤ 1024
    omega
  have hwrite : ∃ buffer', write buffer 2 session.id = some buffer' :=
    ⟨_, if_pos (by rw [session.length_id, hbuffer]; omega)⟩
  obtain ⟨buffer', hwrite⟩ := hwrite
  have hlen := length_write hwrite
  have hread : read buffer' 40 ((strlen cred.account + 109) / 4 * 4 - 40) = none :=
    read_eq_none.mpr (by omega)
  rw [doLogin_eq client key session h, hbuild]
  simp only [Option.bind_eq_bind, Option.bind_some, hwrite, hread, Option.bind_none]

/-! ## Only what was built is sent -/

/-- For any content of the stack, `Request` gets the bytes that were built, the body encrypted; a
message that does not fit is not sent. -/
def LoginSafe (client : LoginClient) (key : EncryptKey) (cred : Credencial)
    (session : SessionType) : Prop :=
  ∀ buffer : List Byte, buffer.length = 1024 →
    if messageSizeCalc (MessageFieldsData.of (loginFields client cred)) ≤ 1024 then
      ∃ body, xxteaEncrypt key ((loginBytes client cred session).drop sizeofMessageHeader) =
          some body ∧
        doLogin client key cred session buffer =
          some [(loginBytes client cred session).take sizeofMessageHeader ++ body]
    else doLogin client key cred session buffer = some []

theorem loginSize_le (h : cred.Ok) :
    messageSizeCalc (MessageFieldsData.of (loginFields client cred)) ≤ 1024 ↔
      strlen cred.account ≤ 918 := by
  have hkb : (1024 : BitVec 32).toNat = 1024 := rfl
  rw [BitVec.le_def, toNat_loginSize client h, hkb]
  omega

/-- A message that does not fit leaves the array. -/
theorem not_loginSafe_of_long (h : cred.Ok) (hlong : 918 < strlen cred.account) :
    ¬ LoginSafe client key cred session := by
  intro hsafe
  have hzeros : (List.replicate 1024 (0 : Byte)).length = 1024 := List.length_replicate
  have hsafe := hsafe _ hzeros
  rw [if_neg fun hle => absurd ((loginSize_le client h).mp hle) (Nat.not_le.mpr hlong),
    doLogin_too_long client key session h hzeros hlong] at hsafe
  cases hsafe

/-- Without padding, the body is what was built. -/
theorem loginBody_of_aligned (h : cred.Ok) (hmod : strlen cred.account % 4 = 2)
    (buffer : List Byte) : loginBody client cred session buffer =
      (loginBytes client cred session).drop sizeofMessageHeader := by
  have hbytes := length_loginBytes client session h
  have hforty : sizeofMessageHeader ≤ (loginBytes client cred session).length := by
    rw [hbytes, sizeofMessageHeader]
    omega
  rw [loginBody, loginMessageBuff, List.drop_append_of_le_length hforty, List.take_left']
  rw [List.length_drop, hbytes, sizeofMessageHeader]
  omega

/-- The packet is what was built exactly when the account fits and leaves no padding. -/
theorem loginSafe_iff {conv : Conversions} {account password : List (BitVec 16)}
    (h : setCredencial conv account password = some cred) :
    LoginSafe client key cred session ↔
      strlen cred.account ≤ 918 ∧ strlen cred.account % 4 = 2 := by
  have hok := Credencial.Ok.of_setCredencial h
  have hbytes := length_loginBytes client session hok
  have hzeros : (List.replicate 1024 (0 : Byte)).length = 1024 := List.length_replicate
  constructor
  · intro hsafe
    have hfits : strlen cred.account ≤ 918 :=
      Nat.not_lt.mp fun hlong => not_loginSafe_of_long client key session hok hlong hsafe
    have hsafe := hsafe _ hzeros
    rw [if_pos ((loginSize_le client hok).mpr hfits)] at hsafe
    obtain ⟨body, henc, hrun⟩ := hsafe
    obtain ⟨body', henc', hrun'⟩ := doLogin_fits client key session hok hzeros hfits
    have hlen' := length_loginBody client session hok hzeros hfits
    have hdrop : ((loginBytes client cred session).drop sizeofMessageHeader).length =
        strlen cred.account + 66 := by
      rw [List.length_drop, hbytes, sizeofMessageHeader]
      omega
    rw [hrun] at hrun'
    obtain rfl := List.append_cancel_left (List.head_eq_of_cons_eq (Option.some.inj hrun'))
    have hleft := length_xxteaEncrypt (by omega) (by omega) henc
    have hright := length_xxteaEncrypt (by omega) (by omega) henc'
    exact ⟨hfits, by omega⟩
  · rintro ⟨hfits, hmod⟩ buffer hbuffer
    rw [if_pos ((loginSize_le client hok).mpr hfits),
      ← loginBody_of_aligned client session hok hmod buffer]
    exact doLogin_fits client key session hok hbuffer hfits

/-- A conversion of ASCII strings. -/
def asciiConversions : Conversions where
  wideCharToMultiByte s := (s.take 1024).map (·.truncate 8)
  md5 _ _ := 0
  size_lt s := by
    rw [List.length_map, List.length_take]
    omega

/-- An account, and a password that is a hash already. -/
def asciiCredencial (account : List Byte) : Credencial :=
  ⟨account, List.replicate 32 0x61⟩

def zeroKey : EncryptKey := ⟨List.replicate 16 0, rfl⟩

theorem length_zero_keyData : (List.replicate 128 (0 : Byte)).length = RSA_SIZE :=
  List.length_replicate

theorem length_zero_id : (List.replicate 32 (0 : Byte)).length = 32 := List.length_replicate

def zeroSession : SessionType :=
  ⟨List.replicate 128 0, List.replicate 32 0, length_zero_keyData, length_zero_id⟩

theorem strlen_replicate (n : ℕ) : strlen (List.replicate n 0x61) = n := by
  unfold strlen
  rw [cString_of_ne_zero, List.length_replicate]
  intro b hb
  rw [List.eq_of_mem_replicate hb]
  decide

theorem setCredencial_replicate {n : ℕ} (hpos : n ≠ 0) (hle : n ≤ 1024) :
    setCredencial asciiConversions (List.replicate n 0x61) (List.replicate 32 0x61) =
      some (asciiCredencial (List.replicate n 0x61)) := by
  have hconv : asciiConversions.wideCharToMultiByte (List.replicate n 0x61) =
      List.replicate n 0x61 := by
    show ((List.replicate n (0x61 : BitVec 16)).take 1024).map (·.truncate 8) = _
    rw [List.take_replicate, Nat.min_eq_right hle, List.map_replicate]
    rfl
  have hne : List.replicate n (0x61 : Byte) ≠ [] :=
    fun h => hpos ((List.replicate_eq_nil_iff _).mp h)
  unfold setCredencial
  rw [hconv, if_pos ⟨hne, by decide⟩]
  rfl

theorem loginSafe_two_letters :
    LoginSafe ⟨1, 1, 1033⟩ zeroKey (asciiCredencial (List.replicate 2 0x61)) zeroSession :=
  (loginSafe_iff _ _ _ (setCredencial_replicate (by decide) (by decide))).mpr (by decide)

/-- An account of 1000 letters: `DoLogin` leaves the array. -/
theorem not_loginSafe_thousand :
    setCredencial asciiConversions (List.replicate 1000 0x61) (List.replicate 32 0x61) =
        some (asciiCredencial (List.replicate 1000 0x61)) ∧
      ¬ LoginSafe ⟨1, 1, 1033⟩ zeroKey (asciiCredencial (List.replicate 1000 0x61))
        zeroSession := by
  have hset := setCredencial_replicate (n := 1000) (by decide) (by decide)
  have hlen := strlen_replicate 1000
  have hok := Credencial.Ok.of_setCredencial hset
  generalize List.replicate 1000 (0x61 : Byte) = account at hset hlen hok ⊢
  have hlong : 918 < strlen (asciiCredencial account).account := hlen.symm ▸ by decide
  exact ⟨hset, not_loginSafe_of_long _ _ _ hok hlong⟩

/-! ## No stale memory -/

/-- What is sent of two messages that were built in buffers of a size is the same. -/
def NoStaleMemory (type : BitVec 16) (fields : List (List Byte)) (bufferSize : BitVec 32) : Prop :=
  ∀ b₁ b₂ m₁ m₂ : List Byte, b₁.length = bufferSize.toNat → b₂.length = bufferSize.toNat →
    messageBuild type (MessageFieldsData.of fields) b₁ bufferSize = some (true, m₁) →
    messageBuild type (MessageFieldsData.of fields) b₂ bufferSize = some (true, m₂) →
      m₁.take (messageSizeCalc (MessageFieldsData.of fields)).toNat =
        m₂.take (messageSizeCalc (MessageFieldsData.of fields)).toNat

/-- `DoLogin` sends one packet, the same for any content of the stack. -/
def PacketFixed (client : LoginClient) (key : EncryptKey) (cred : Credencial)
    (session : SessionType) : Prop :=
  ∃ packet, ∀ buffer : List Byte, buffer.length = 1024 →
    doLogin client key cred session buffer = some [packet]

/-- A byte that was not written differs. -/
theorem take_stale_ne {l : List Byte} {n size : ℕ} (hlt : l.length < size) (hle : size ≤ n) :
    (l ++ (List.replicate n (0 : Byte)).drop l.length).take size ≠
      (l ++ (List.replicate n (1 : Byte)).drop l.length).take size := by
  intro heq
  have hget := congrArg (fun m : List Byte => m[l.length]?) heq
  have hpos : 0 < n - l.length := by omega
  simp [hlt, List.drop_replicate, hpos] at hget

theorem noStaleMemory_build {type : BitVec 16} {fields : List (List Byte)} {bufferSize : BitVec 32}
    (hcount : fields.length ≤ 255) (hsize : messageSize fields ≤ bufferSize.toNat) :
    NoStaleMemory type fields bufferSize ↔
      (sizeofMessageHeader + 4 * fields.length + dataBytes fields) % 4 = 0 := by
  have hlt : messageSize fields < 2 ^ 32 := Nat.lt_of_le_of_lt hsize bufferSize.isLt
  have hlen := length_encode type fields
  unfold NoStaleMemory
  rw [messageSizeCalc_of hcount hlt]
  have hbuild (b : List Byte) (hb : b.length = bufferSize.toNat) :=
    messageBuild_encode type hcount hlt hb hsize
  have hsum : messageSize fields =
      (sizeofMessageHeader + 4 * fields.length + dataBytes fields + 3) / 4 * 4 := rfl
  constructor
  · intro hfixed
    by_contra hmod
    have hzero : (List.replicate bufferSize.toNat (0 : Byte)).length = bufferSize.toNat :=
      List.length_replicate
    have hone : (List.replicate bufferSize.toNat (1 : Byte)).length = bufferSize.toNat :=
      List.length_replicate
    exact take_stale_ne (by omega) hsize
      (hfixed _ _ _ _ hzero hone (hbuild _ hzero) (hbuild _ hone))
  · intro hmod b₁ b₂ m₁ m₂ hb₁ hb₂ h₁ h₂
    have hfull : messageSize fields = (encode type fields).length := by omega
    rw [hbuild b₁ hb₁] at h₁
    rw [hbuild b₂ hb₂] at h₂
    obtain ⟨-, rfl⟩ := Prod.mk.inj (Option.some.inj h₁)
    obtain ⟨-, rfl⟩ := Prod.mk.inj (Option.some.inj h₂)
    rw [hfull, List.take_left, List.take_left]

/-- The padding of the body was on the stack. -/
theorem loginBody_stale (h : cred.Ok) (hfits : strlen cred.account ≤ 918)
    (hmod : strlen cred.account % 4 ≠ 2) :
    loginBody client cred session (List.replicate 1024 0) ≠
      loginBody client cred session (List.replicate 1024 1) := by
  have hbytes := length_loginBytes client session h
  have hforty : sizeofMessageHeader ≤ (loginBytes client cred session).length := by
    rw [hbytes, sizeofMessageHeader]
    omega
  have hdrop : ((loginBytes client cred session).drop sizeofMessageHeader).length =
      strlen cred.account + 66 := by
    rw [List.length_drop, hbytes, sizeofMessageHeader]
    omega
  have hlt : ((loginBytes client cred session).drop sizeofMessageHeader).length <
      (strlen cred.account + 109) / 4 * 4 - sizeofMessageHeader := by
    rw [hdrop, sizeofMessageHeader]
    omega
  have hle : (strlen cred.account + 109) / 4 * 4 - sizeofMessageHeader ≤
      1024 - sizeofMessageHeader := by omega
  have hrest : 1024 - sizeofMessageHeader - (strlen cred.account + 66) =
      1024 - (strlen cred.account + 106) := by
    rw [sizeofMessageHeader]
    omega
  have hne := take_stale_ne hlt hle
  simp only [List.drop_replicate, hdrop, hrest] at hne
  simpa only [loginBody, loginMessageBuff, List.drop_append_of_le_length hforty,
    List.drop_replicate, hbytes] using hne

theorem packetFixed_iff (h : cred.Ok) :
    PacketFixed client key cred session ↔
      strlen cred.account ≤ 918 ∧ strlen cred.account % 4 = 2 := by
  have hbytes := length_loginBytes client session h
  have hreplicate (b : Byte) : (List.replicate 1024 b).length = 1024 := List.length_replicate
  constructor
  · rintro ⟨packet, hpacket⟩
    have hfits : strlen cred.account ≤ 918 := by
      by_contra hlong
      have hrun := hpacket _ (hreplicate 0)
      rw [doLogin_too_long client key session h (hreplicate 0) (by omega)] at hrun
      cases hrun
    refine ⟨hfits, by_contra fun hmod => loginBody_stale client session h hfits hmod ?_⟩
    -- the packet determines the body before the encryption
    have hrun (b : Byte) :
        xxteaEncrypt key (loginBody client cred session (List.replicate 1024 b)) =
          some (packet.drop sizeofMessageHeader) := by
      obtain ⟨body, henc, hrun⟩ := doLogin_fits client key session h (hreplicate b) hfits
      rw [hpacket _ (hreplicate b)] at hrun
      have hhead : ((loginBytes client cred session).take sizeofMessageHeader).length =
          sizeofMessageHeader := by
        rw [List.length_take, hbytes, sizeofMessageHeader]
        omega
      rw [henc, List.head_eq_of_cons_eq (Option.some.inj hrun), List.drop_left' hhead]
    have hlen (b : Byte) := length_loginBody client session h (hreplicate b) hfits
    exact xxteaEncrypt_injective (by rw [hlen 0]; omega) (by rw [hlen 0]; omega)
      ((hlen 0).trans (hlen 1).symm) (hrun 0) (hrun 1)
  · rintro ⟨hfits, hmod⟩
    obtain ⟨body, henc, -⟩ := doLogin_fits client key session h (hreplicate 0) hfits
    refine ⟨(loginBytes client cred session).take sizeofMessageHeader ++ body,
      fun buffer hbuffer => ?_⟩
    obtain ⟨body', henc', hrun⟩ := doLogin_fits client key session h hbuffer hfits
    rw [loginBody_of_aligned client session h hmod] at henc henc'
    rw [henc] at henc'
    rw [hrun, Option.some.inj henc']

/-- A message shows what the buffer held before exactly when it is padded, and so does the packet
of an account that fits. -/
theorem noStaleMemory_iff (type : BitVec 16) {fields : List (List Byte)} {bufferSize : BitVec 32}
    {conv : Conversions} {account password : List (BitVec 16)}
    (hcount : fields.length ≤ 255) (hsize : messageSize fields ≤ bufferSize.toNat)
    (h : setCredencial conv account password = some cred) :
    (NoStaleMemory type fields bufferSize ↔
      (sizeofMessageHeader + 4 * fields.length + dataBytes fields) % 4 = 0) ∧
    (PacketFixed client key cred session ↔
      strlen cred.account ≤ 918 ∧ strlen cred.account % 4 = 2) :=
  ⟨noStaleMemory_build hcount hsize,
    packetFixed_iff client key session (Credencial.Ok.of_setCredencial h)⟩

theorem noStaleMemory_two_letters :
    NoStaleMemory 2 [[1, 2, 3, 4]] 48 ∧
      PacketFixed ⟨1, 1, 1033⟩ zeroKey (asciiCredencial (List.replicate 2 0x61)) zeroSession := by
  have hcount : [[(1 : Byte), 2, 3, 4]].length ≤ 255 := by decide
  have hsize : messageSize [[1, 2, 3, 4]] ≤ (48 : BitVec 32).toNat := by decide
  have hset := setCredencial_replicate (n := 2) (by decide) (by decide)
  have hiff := noStaleMemory_iff ⟨1, 1, 1033⟩ zeroKey zeroSession 2 hcount hsize hset
  exact ⟨hiff.1.mpr (by decide), hiff.2.mpr (by decide)⟩

/-- The message of one byte is padded by three. -/
theorem not_noStaleMemory : ¬ NoStaleMemory 2 [[1]] 48 := by
  have hcount : [[(1 : Byte)]].length ≤ 255 := by decide
  have hsize : messageSize [[1]] ≤ (48 : BitVec 32).toNat := by decide
  rw [noStaleMemory_build hcount hsize]
  decide

end DreamDota
