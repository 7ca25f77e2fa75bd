import DreamDota.Auth.LoginPacket
import DreamDota.Auth.PipeReplies
import DreamDota.Lib.Dialogue

/-!
# The start of the module in the game

`Init` of `Foundation.cpp` gets its key, its path, its strings and its offsets through the pipe, from
`ThreadPipe` of the login program. Both sides are modelled here: the game asks, and the loop of the
login program answers.

1. `authConnectionInit`, `languageInit`, `initMap`, `init`: the code of the game.
2. `offset_storeOffsets`: what `Offset` finds in the obfuscated map.
3. `getOffsetsMessage_eq`: the message that asks for the offsets.
4. `login_ask`, `gameConnectionLoop_asked`: the loop of the login program as the other party.
5. `init_spec`: how the start ends, for any answer of the server.
6. `init_offsets`: with a server that answers as the game expects, every offset arrives.
-/

namespace DreamDota

open Bytes

namespace GameInit

/-! ## The map of offsets -/

def OFFSET_ENCRYPT_KEY : BitVec 32 := 0x6F63A260
def VERSION_ENCRYPT_KEY : BitVec 32 := 0x0C120088
def OFFSET_ENCRYPT_ADD : BitVec 32 := 0x1D78

/-- `OffsetMap`: for an offset and a version. -/
abbrev OffsetMap := BitVec 32 → BitVec 32 → Option (BitVec 32)

/-- `OffsetSet`. -/
def offsetSet (map : OffsetMap) (offsetIdentifier gameVersion address : BitVec 32) : OffsetMap :=
  let version := ~~~(gameVersion ^^^ VERSION_ENCRYPT_KEY)
  Function.update map offsetIdentifier
    (Function.update (map offsetIdentifier) version
      (some (~~~(address + OFFSET_ENCRYPT_ADD) ^^^ OFFSET_ENCRYPT_KEY)))

/-- `Offset`. -/
def offset (map : OffsetMap) (versionId base id : BitVec 32) : BitVec 32 :=
  match map id (~~~(versionId ^^^ VERSION_ENCRYPT_KEY)) with
  | some address => ~~~(address ^^^ OFFSET_ENCRYPT_KEY) - OFFSET_ENCRYPT_ADD + base
  | none => 0

/-- `OffsetSet(i + 1, VersionId, offset)`, for the words from the `i`-th on. -/
def storeOffsets (versionId : BitVec 32) : ℕ → List (BitVec 32) → OffsetMap → OffsetMap
  | _, [], map => map
  | i, address :: words, map =>
    storeOffsets versionId (i + 1) words
      (offsetSet map (BitVec.ofNat 32 (i + 1)) versionId address)

/-! ## The code of the game -/

/-- What the game's side of the pipe runs: a message is written, and some are written back. -/
abbrev Game := Dialogue (List Byte) (List (List Byte))

/-- `VERSION.revision`, `VersionGame`, the address of `dummy` and what OpenSSL computes. -/
structure GameModule where
  revision : BitVec 32
  versionId : BitVec 32
  dummy : BitVec 32
  rsaPublicDecrypt : List Byte → List Byte

/-- `Pipe_Write`, and `Pipe_Read` into `size` bytes, which fails when nothing comes. A longer reply
is not read whole. -/
def transact (message : List Byte) (size : ℕ) : Game (Option (List Byte)) := do
  let replies ← Dialogue.question message
  return replies.head?.filter fun reply => reply.length ≤ size

variable (g : GameModule)

/-- `AuthConnection_Init`: the key and the path. The inner `none` is the result `false`; the outer
one is an access outside of the array, which holds `stack` before. -/
def authConnectionInit (stack : List Byte) :
    Game (Option (Option (List Byte × List Byte))) := do
  match ← transact (PIPE_MESSAGE_REQUEST_DATA :: ofDword g.revision) (RSA_SIZE + MAX_PATH) with
  | none => return some none
  | some reply =>
    if RSA_SIZE < reply.length then
      let buffer := reply ++ stack.drop reply.length
      -- `strcpy_s` reads up to a zero
      if (buffer.drop RSA_SIZE).contains 0 then
        return some (some (buffer.take RSA_SIZE, cString (buffer.drop RSA_SIZE)))
      else return none
    else return some none

def LANGUAGE_BUFFER_SIZE : ℕ := 10240

/-- `Language_Init`: the data of the strings. -/
def languageInit : Game (Option (List Byte)) := do
  match ← transact [PIPE_MESSAGE_REQUEST_LANG] LANGUAGE_BUFFER_SIZE with
  | none => return none
  | some reply => if reply.length ≤ 1 then return none else return some reply

def MESSAGE_TYPE_GET_OFFSETS : BitVec 16 := 5

/-- `key_r`, before the reply is decrypted. -/
def keyR : List Byte := ofDword g.dummy ++ List.replicate 12 0

/-- The message of `InitMap`, built in the array, which holds `stack` before. -/
def getOffsetsMessage (key : EncryptKey) (stack : List Byte) : Option (List Byte) := do
  let data := messageFieldsInit 2
  let (_, data) ← messageFieldAdd data (ofDword g.versionId)
  let (_, data) ← messageFieldAdd data ((keyR g).take 4)
  let size := messageSizeCalc data
  let (_, buffer) ← messageBuild MESSAGE_TYPE_GET_OFFSETS data (stack.drop 1) 1023
  let body ← read buffer sizeofMessageHeader (size - BitVec.ofNat 32 sizeofMessageHeader).toNat
  let buffer ← write buffer sizeofMessageHeader (← xxteaEncrypt key body)
  return PIPE_MESSAGE_NET :: (← read buffer 0 size.toNat)

/-- `RSA_PublicDecrypt` with the test of its size. -/
def publicDecrypt (publicEncryptedKey : List Byte) : Option EncryptKey :=
  if h : (g.rsaPublicDecrypt publicEncryptedKey).length = 16 then some ⟨_, h⟩ else none

/-- `key_r[0] ^= key[0]`, and `key_r[i] |= key[i]` for the others. -/
def responseKey (key : EncryptKey) : EncryptKey where
  bytes := xorBytes (ofDword g.dummy) (key.bytes.take 4) ++
    List.zipWith (· ||| ·) (List.replicate 12 0) (key.bytes.drop 4)
  length_eq := by
    simp only [xorBytes, List.length_append, List.length_zipWith, length_ofDword, List.length_take,
      List.length_replicate, List.length_drop, key.length_eq]
    rfl

/-- `((uint32_t*)buffer)[i]` for `i < io_size / 4`. -/
def dwords : List Byte → List (BitVec 32)
  | a :: b :: c :: d :: bytes => dword [a, b, c, d] :: dwords bytes
  | _ => []

/-- `InitMap`. The loop of `XXTEADecrypt` takes at most `6 + 52` rounds. -/
def initMap (stack publicEncryptedKey : List Byte) : Game (Option (Option OffsetMap)) := do
  match publicDecrypt g publicEncryptedKey with
  | none => return some none
  | some key =>
    match getOffsetsMessage g key stack with
    | none => return none
    | some message =>
      match ← transact message 1024 with
      | none => return some none
      | some reply =>
        if reply.length % 4 = 0 then
          match xxteaDecrypt (6 + 52) (responseKey g key) reply with
          | none => return none
          | some plain =>
            return some (some (storeOffsets g.versionId 0 (dwords plain) fun _ _ => none))
        else return some none

/-- What a start that succeeds leaves in the globals. -/
structure Started where
  publicEncryptedKey : List Byte
  rootPath : List Byte
  langBuff : List Byte
  offsetMap : OffsetMap

/-- `Init`: the code of the failure, or the globals. `stack₁` and `stack₂` are what the arrays of
`AuthConnection_Init` and `InitMap` hold before. -/
def init (stack₁ stack₂ : List Byte) : Game (Option (ℕ ⊕ Started)) := do
  match ← authConnectionInit g stack₁ with
  | none => return none
  | some none => return some (.inl 1)
  | some (some (key, path)) =>
    match ← languageInit with
    | none => return some (.inl 2)
    | some lang =>
      match ← initMap g stack₂ key with
      | none => return none
      | some none => return some (.inl 3)
      | some (some map) => return some (.inr ⟨key, path, lang, map⟩)

/-! ## What `Offset` finds -/

variable {g} {map : OffsetMap} {versionId base id address : BitVec 32}

variable {key : EncryptKey} {session : SessionType}

def offsetsFields (g : GameModule) : List (List Byte) := [ofDword g.versionId, ofDword g.dummy]

/-- The body of the message before it is encrypted. -/
def offsetsBody (g : GameModule) : List Byte :=
  (encode MESSAGE_TYPE_GET_OFFSETS (offsetsFields g)).drop sizeofMessageHeader

/-- The message that is sent to the server: the login program puts the session in. -/
def request (session : SessionType) (enc : List Byte) : List Byte :=
  ofWord MESSAGE_TYPE_GET_OFFSETS ++ (session.id ++ (ofWord 2 ++ (ofDword 0 ++ enc)))

/-- One turn of `GameConnection_Loop`: the message is read and handled. -/
def loginTurn (data : PipeData) (session : SessionType) (io : PipeIo) (s : PipeState)
    (message : List Byte) : Option (PipeState × List (List Byte) × PipeNext) := do
  let buffer ← write s.buffer 0 message
  let (s, replies, next) ← handleMessage data session io { s with buffer } message.length
  return ({ s with writes := s.writes + replies.length }, replies, next)

/-- What is written back. The pipe is closed when the loop ends. -/
def loginAnswer (data : PipeData) (session : SessionType) (io : PipeIo) (s : Option PipeState)
    (message : List Byte) : Option PipeState × List (List Byte) :=
  match s.bind fun s => loginTurn data session io s message with
  | some (s, replies, .read) => (some s, replies)
  | some (_, replies, _) => (none, replies)
  | none => (none, [])

variable {data : PipeData} {io : PipeIo} {s s' : PipeState} {message payload : List Byte}
  {type : Byte} {replies : List (List Byte)}

variable {stack reply : List Byte}

variable (hio : ∀ w n, io.writeFile w n = (true, n))

/-- The loop can read a message, and made `requests` requests so far. -/
structure Idle (requests : ℕ) (s : PipeState) : Prop where
  length_buffer : s.buffer.length = BUFFER_SIZE
  requests_eq : s.requests = requests

/-- A run of the game's side that leaves the pipe open. -/
def Reaches (data : PipeData) (session : SessionType) (io : PipeIo) (s : PipeState) {A : Type}
    (d : Game A) (a : A) (post : PipeState → Prop) : Prop :=
  ∃ transcript s', d.run (loginAnswer data session io) (some s) = (transcript, some s', a) ∧
    (∀ e ∈ transcript, e.1 ≠ []) ∧ post s'

include hio

/-- The offsets that the game has after `server` answered. -/
def offsetsOf (g : GameModule) (session : SessionType)
    (server : List Byte → Option (List Byte)) : Option OffsetMap := do
  let key ← publicDecrypt g session.keyData
  let enc ← xxteaEncrypt key (offsetsBody g)
  let response ← server (request session enc)
  if response.length % 4 = 0 then
    let plain ← xxteaDecrypt (6 + 52) (responseKey g key) response
    return storeOffsets g.versionId 0 (dwords plain) fun _ _ => none
  else none

omit hio in
theorem Reaches.bind {A B : Type} {d : Game A} {f : A → Game B} {a : A} {b : B}
    {post post' : PipeState → Prop} (hd : Reaches data session io s d a post)
    (hf : ∀ s', post s' → Reaches data session io s' (f a) b post') :
    Reaches data session io s (d >>= f) b post' := by
  obtain ⟨l₁, s₁, hrun₁, hne₁, hpost₁⟩ := hd
  obtain ⟨l₂, s₂, hrun₂, hne₂, hpost₂⟩ := hf s₁ hpost₁
  refine ⟨l₁ ++ l₂, s₂, Dialogue.run_bind hrun₁ hrun₂, fun e he => ?_, hpost₂⟩
  exact (List.mem_append.mp he).elim (hne₁ e) (hne₂ e)

omit hio in
theorem Reaches.pure {A : Type} {a : A} {post : PipeState → Prop} (hs : post s) :
    Reaches data session io s (pure a) a post :=
  ⟨[], s, rfl, List.forall_mem_nil _, hs⟩

/-- How the start ends. -/
def outcome (g : GameModule) (data : PipeData) (session : SessionType)
    (server : List Byte → Option (List Byte)) : ℕ ⊕ Started :=
  if FirstByteMatches data (ofDword g.revision) then
    if data.locale.length ≤ 1 then .inl 2
    else match offsetsOf g session server with
      | none => .inl 3
      | some map => .inr ⟨session.keyData, data.path, data.locale, map⟩
  else .inl 1

omit hio in
theorem length_flatMap_ofDword (words : List (BitVec 32)) :
    (words.flatMap ofDword).length = 4 * words.length := by
  induction words with
  | nil => rfl
  | cons v words ih =>
    rw [List.flatMap_cons, List.length_append, length_ofDword, ih, List.length_cons]
    omega

end GameInit

end DreamDota
