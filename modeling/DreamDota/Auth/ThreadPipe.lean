import DreamDota.Lib.Bytes

/-!
# The login pipe

`ThreadPipe::GameConnection_Loop`, which answers the messages of the game's side of the pipe out of
one buffer. What the server answers and how the writes end is left open: `PipeIo`.

1. `handleMessage`, `gameConnectionLoop`: the code, on the bytes of the buffer.
2. `replies`, `handleMessage_eq`: what is written does not depend on what the buffer held before.
3. `exchanges`, `gameConnectionLoop_eq`: the whole loop.
-/

namespace DreamDota

open Bytes

/-! ## The code -/

def BUFFER_SIZE : ℕ := 10240
def RSA_SIZE : ℕ := 128
def MAX_PATH : ℕ := 260

def PIPE_MESSAGE_NULL : Byte := 0
def PIPE_MESSAGE_REQUEST_DATA : Byte := 1
def PIPE_MESSAGE_REQUEST_LANG : Byte := 2
def PIPE_MESSAGE_NET : Byte := 3

/-- `Auth::SessionType`. -/
structure SessionType where
  keyData : List Byte
  id : List Byte
  length_keyData : keyData.length = RSA_SIZE
  length_id : id.length = 32

/-- What the loop reads besides the session: `VERSION.revision`, `Utils::GetSelfPathA()` and the
strings of the current locale. -/
structure PipeData where
  revision : BitVec 32
  path : List Byte
  locale : List Byte
  length_path : path.length < MAX_PATH

/-- The `k`-th request to the server, and the result and `bytes` of the `k`-th `WriteFile`. -/
structure PipeIo where
  request : ℕ → List Byte → Option (List Byte)
  writeFile : ℕ → ℕ → Bool × ℕ

/-- `requests` and `writes` are the numbers of requests and writes made. -/
structure PipeState where
  buffer : List Byte
  requests : ℕ
  writes : ℕ

/-- How the handling of a message ends: the next one is read, `exit` is set, or `longjmp`. -/
inductive PipeNext
  | read
  | exit
  | failed
  deriving DecidableEq

/-- A message that was read, and what was written for it. -/
structure Exchange where
  message : List Byte
  replies : List (List Byte)
  deriving DecidableEq

variable (data : PipeData) (session : SessionType) (io : PipeIo)

/-- The `w`-th `WriteFile`, and the check that everything was written. -/
def writeReply (w : ℕ) (reply : List Byte) : List (List Byte) × PipeNext :=
  let (ok, bytes) := io.writeFile w reply.length
  ([reply], if !ok || bytes ≠ reply.length then .failed else .read)

/-- `WriteFile` of a response, with the other check. -/
def writeResponse (w : ℕ) (reply : List Byte) : List (List Byte) × PipeNext :=
  let (ok, bytes) := io.writeFile w reply.length
  ([reply], if !ok && bytes > 0 then .failed else .read)

/-- `memcmp(&VERSION.revision, data, sizeof(VERSION.revision) != 0)`: the length of the comparison
is the value of the inequality. -/
def revisionDiffers (buffer : List Byte) : Option Bool := do
  let count := (decide (4 ≠ 0)).toNat
  return decide ((ofDword data.revision).take count ≠ (← read buffer 1 count))

/-- The `switch` over the type of the message, of which `bytes` bytes were read. -/
def handleMessage (s : PipeState) (bytes : ℕ) :
    Option (PipeState × List (List Byte) × PipeNext) := do
  let type ← read s.buffer 0 1
  let dataSize := bytes - 1
  if type = [PIPE_MESSAGE_NULL] then
    return (s, [], .exit)
  else if type = [PIPE_MESSAGE_REQUEST_DATA] then
    if ← (if dataSize < 4 then some true else revisionDiffers data s.buffer) then
      return (s, writeReply io s.writes [0])
    else
      let buffer ← write s.buffer 0 session.keyData
      let pathSize := data.path.length + 1
      let buffer ← write buffer RSA_SIZE (data.path ++ [0])
      return ({ s with buffer },
        writeReply io s.writes (← read buffer 0 (RSA_SIZE + pathSize)))
  else if type = [PIPE_MESSAGE_REQUEST_LANG] then
    return (s, writeReply io s.writes data.locale)
  else if type = [PIPE_MESSAGE_NET] then
    if bytes > 1 then
      -- `session_id` is the second field of the `MessageHeader` at `data`
      let buffer ← write s.buffer (1 + 2) session.id
      let response := io.request s.requests (← read buffer 1 dataSize)
      let s := { s with buffer, requests := s.requests + 1 }
      match response with
      | none => return (s, writeReply io s.writes [0])
      | some response => return (s, writeResponse io s.writes response)
    else
      return (s, [], .read)
  else
    return (s, writeReply io s.writes [0])

/-- `GameConnection_Loop`, where `messages` are read until `ReadFile` fails. -/
def gameConnectionLoop : List (List Byte) → PipeState → Option (List Exchange × Bool)
  | [], _ => some ([], false)
  | message :: messages, s =>
    if message = [] then some ([], false)
    else do
      let buffer ← write s.buffer 0 message
      let (s, replies, next) ← handleMessage data session io { s with buffer } message.length
      let s := { s with writes := s.writes + replies.length }
      match next with
      | .read => do
        let (rest, rv) ← gameConnectionLoop messages s
        return (⟨message, replies⟩ :: rest, rv)
      | .exit => return ([⟨message, replies⟩], true)
      | .failed => return ([⟨message, replies⟩], false)

/-! ## The answer to a message -/

/-- What is sent to the server for a message. -/
def netRequest (message : List Byte) : List Byte :=
  ((message.take 3 ++ session.id ++ message.drop 35).take message.length).drop 1

/-- The payload is long enough, and begins with the first byte of the revision. -/
def FirstByteMatches (payload : List Byte) : Prop :=
  4 ≤ payload.length ∧ payload.take 1 = (ofDword data.revision).take 1

instance (payload : List Byte) : Decidable (FirstByteMatches data payload) :=
  inferInstanceAs (Decidable (_ ∧ _))

/-- The answer to a message, the `k`-th request and the `w`-th write. -/
def answer (k w : ℕ) : List Byte → List (List Byte) × PipeNext
  | [] => ([], .failed)
  | type :: payload =>
    if type = PIPE_MESSAGE_NULL then ([], .exit)
    else if type = PIPE_MESSAGE_REQUEST_DATA then
      if FirstByteMatches data payload then
        writeReply io w (session.keyData ++ (data.path ++ [0]))
      else writeReply io w [0]
    else if type = PIPE_MESSAGE_REQUEST_LANG then writeReply io w data.locale
    else if type = PIPE_MESSAGE_NET then
      if payload = [] then ([], .read)
      else match io.request k (netRequest session (type :: payload)) with
        | none => writeReply io w [0]
        | some response => writeResponse io w response
    else writeReply io w [0]

/-- The number of requests that are made for a message. -/
def requestsFor (message : List Byte) : ℕ :=
  if message.take 1 = [PIPE_MESSAGE_NET] ∧ message.length > 1 then 1 else 0

/-- The exchange `e`, and those of the `rest` if the next message is read. -/
def PipeNext.after (e : Exchange) (rest : List Exchange × Bool) :
    PipeNext → List Exchange × Bool
  | read => (e :: rest.1, rest.2)
  | exit => ([e], true)
  | failed => ([e], false)

/-- All of the exchanges, and the result. -/
def exchanges (k w : ℕ) : List (List Byte) → List Exchange × Bool
  | [] => ([], false)
  | message :: messages =>
    if message = [] then ([], false)
    else
      let a := answer data session io k w message
      a.2.after ⟨message, a.1⟩
        (exchanges (k + requestsFor message) (w + a.1.length) messages)

variable {data session io}
variable {message payload rest : List Byte} {type : Byte} {s : PipeState}

/-- The session id does not reach what is beyond the message. -/
theorem take_sessionId (message rest : List Byte) (session : SessionType) :
    ((message ++ rest).take 3 ++ session.id ++ (message ++ rest).drop 35).take message.length =
      (message.take 3 ++ session.id ++ message.drop 35).take message.length := by
  have hid := session.length_id
  apply List.ext_getElem?
  intro i
  simp only [List.getElem?_take, List.getElem?_append, List.getElem?_drop, List.length_append,
    List.length_take]
  grind

theorem revisionDiffers_eq (hlen : 4 ≤ payload.length) :
    revisionDiffers data (type :: payload ++ rest) = some !FirstByteMatches data payload := by
  have hread : read (type :: payload ++ rest) 1 1 = some (payload.take 1) := by
    rw [read_eq (by simp only [List.length_append, List.length_cons]; omega), List.cons_append,
      List.drop_succ_cons, List.drop_zero, List.take_append_of_le_length (by omega)]
  have hone : (decide (4 ≠ 0)).toNat = 1 := rfl
  rw [revisionDiffers]
  simp only [hone, hread, Option.bind_eq_bind, Option.bind_some, FirstByteMatches, hlen, true_and]
  refine congrArg some ?_
  rw [← decide_not, decide_eq_decide, ne_comm]

/-- The key and the path are put together in the buffer. -/
theorem write_keyData (data : PipeData) (session : SessionType) {buffer : List Byte}
    (hlen : buffer.length = BUFFER_SIZE) :
    ∃ buffer₁ buffer₂, write buffer 0 session.keyData = some buffer₁ ∧
      write buffer₁ RSA_SIZE (data.path ++ [0]) = some buffer₂ ∧ buffer₂.length = BUFFER_SIZE ∧
      read buffer₂ 0 (RSA_SIZE + (data.path.length + 1)) =
        some (session.keyData ++ (data.path ++ [0])) := by
  have hkey := session.length_keyData
  have hpath := data.length_path
  have hsizes : RSA_SIZE + MAX_PATH ≤ BUFFER_SIZE := by decide
  have hlast : (data.path ++ [0]).length = data.path.length + 1 := List.length_append
  obtain ⟨a, r, rfl, ha, hr⟩ := exists_append (b := buffer) (k := RSA_SIZE) (by omega)
  obtain ⟨b, r, rfl, hb, -⟩ := exists_append (b := r) (k := data.path.length + 1) (by omega)
  have hfirst : write (a ++ (b ++ r)) 0 session.keyData = some (session.keyData ++ (b ++ r)) :=
    write_append (p := []) rfl (ha.trans hkey.symm)
  have hsecond : write (session.keyData ++ (b ++ r)) RSA_SIZE (data.path ++ [0]) =
      some (session.keyData ++ ((data.path ++ [0]) ++ r)) :=
    write_append hkey (hb.trans hlast.symm)
  have hwhole : (session.keyData ++ (data.path ++ [0])).length =
      RSA_SIZE + (data.path.length + 1) := by
    rw [List.length_append, hkey, hlast]
  have hread := read_append (p := []) (q := session.keyData ++ (data.path ++ [0])) (r := r) rfl
    hwhole
  rw [List.nil_append, List.append_assoc] at hread
  exact ⟨_, _, hfirst, hsecond, (length_write hsecond).trans ((length_write hfirst).trans hlen),
    hread⟩

/-- The session id is put into the message. -/
theorem write_sessionId (session : SessionType) {buffer : List Byte}
    (hbuffer : buffer = type :: payload ++ rest)
    (hlen : buffer.length = BUFFER_SIZE) :
    ∃ buffer', write buffer (1 + 2) session.id = some buffer' ∧ buffer'.length = BUFFER_SIZE ∧
      read buffer' 1 payload.length = some (netRequest session (type :: payload)) := by
  have hid := session.length_id
  have hroom : 1 + 2 + session.id.length ≤ buffer.length := by
    rw [hlen, hid, BUFFER_SIZE]
    omega
  have hwrite : write buffer (1 + 2) session.id =
      some (buffer.take 3 ++ session.id ++ buffer.drop 35) := by
    rw [write, if_pos hroom, hid]
  have hlen' := (length_write hwrite).trans hlen
  refine ⟨_, hwrite, hlen', ?_⟩
  have hfits : 1 + payload.length ≤ (buffer.take 3 ++ session.id ++ buffer.drop 35).length := by
    rw [hlen', ← hlen, hbuffer]
    simp only [List.length_append, List.length_cons]
    omega
  have htake := take_sessionId (type :: payload) rest session
  rw [← hbuffer] at htake
  rw [read_eq hfits, netRequest, ← htake, List.drop_take, List.length_cons, Nat.add_sub_cancel]

/-- The answer is made out of the message alone. -/
theorem handleMessage_eq (data : PipeData) (session : SessionType) (io : PipeIo)
    (hbuffer : s.buffer = type :: payload ++ rest)
    (hlen : s.buffer.length = BUFFER_SIZE) :
    ∃ buffer, buffer.length = BUFFER_SIZE ∧
      handleMessage data session io s (type :: payload).length =
        some ({ s with buffer, requests := s.requests + requestsFor (type :: payload) },
          answer data session io s.requests s.writes (type :: payload)) := by
  have htype : read s.buffer 0 1 = some [type] := by
    rw [read_eq (by rw [hlen, BUFFER_SIZE]; omega), hbuffer]
    rfl
  unfold handleMessage answer requestsFor
  simp only [htype, Option.bind_eq_bind, Option.bind_some, List.cons.injEq, and_true,
    List.length_cons, Nat.add_sub_cancel, List.take_succ_cons, List.take_zero]
  by_cases hnull : type = PIPE_MESSAGE_NULL
  · have hnet : PIPE_MESSAGE_NULL ≠ PIPE_MESSAGE_NET := by decide
    simp only [hnull, hnet, false_and, ↓reduceIte]
    exact ⟨s.buffer, hlen, rfl⟩
  by_cases hdata : type = PIPE_MESSAGE_REQUEST_DATA
  · have hnet : PIPE_MESSAGE_REQUEST_DATA ≠ PIPE_MESSAGE_NET := by decide
    have hnull : PIPE_MESSAGE_REQUEST_DATA ≠ PIPE_MESSAGE_NULL := by decide
    simp only [hdata, hnet, hnull, false_and, ↓reduceIte]
    rcases Nat.lt_or_ge payload.length 4 with hshort | hlong
    · have hmatch : ¬ FirstByteMatches data payload := fun h => absurd h.1 (by omega)
      simp only [hshort, hmatch, ↓reduceIte, Option.bind_some]
      exact ⟨s.buffer, hlen, rfl⟩
    · rw [if_neg (Nat.not_lt.mpr hlong), hbuffer, revisionDiffers_eq hlong, Option.bind_some,
        ← hbuffer]
      by_cases hmatch : FirstByteMatches data payload
      · obtain ⟨b₁, b₂, hfirst, hsecond, hlen₂, hread⟩ :=
          write_keyData data session hlen
        simp only [hmatch, decide_true, Bool.not_true, Bool.false_eq_true, ↓reduceIte, hfirst,
          hsecond, hread, Option.bind_some]
        exact ⟨b₂, hlen₂, rfl⟩
      · simp only [hmatch, decide_false, Bool.not_false, ↓reduceIte]
        exact ⟨s.buffer, hlen, rfl⟩
  by_cases hlang : type = PIPE_MESSAGE_REQUEST_LANG
  · have hnet : PIPE_MESSAGE_REQUEST_LANG ≠ PIPE_MESSAGE_NET := by decide
    have hdata : PIPE_MESSAGE_REQUEST_LANG ≠ PIPE_MESSAGE_REQUEST_DATA := by decide
    have hnull : PIPE_MESSAGE_REQUEST_LANG ≠ PIPE_MESSAGE_NULL := by decide
    simp only [hlang, hnet, hdata, hnull, false_and, ↓reduceIte]
    exact ⟨s.buffer, hlen, rfl⟩
  by_cases hnet : type = PIPE_MESSAGE_NET
  · have hdata : PIPE_MESSAGE_NET ≠ PIPE_MESSAGE_REQUEST_DATA := by decide
    have hnull : PIPE_MESSAGE_NET ≠ PIPE_MESSAGE_NULL := by decide
    have hlang : PIPE_MESSAGE_NET ≠ PIPE_MESSAGE_REQUEST_LANG := by decide
    simp only [hnet, hdata, hnull, hlang, true_and, ↓reduceIte]
    cases payload with
    | nil => exact ⟨s.buffer, hlen, rfl⟩
    | cons b payload =>
      obtain ⟨buffer, hwrite, hlen', hread⟩ := write_sessionId session hbuffer hlen
      have hpos : (b :: payload).length + 1 > 1 := Nat.succ_lt_succ (Nat.succ_pos _)
      simp only [hpos, ↓reduceIte, hwrite, hread, Option.bind_some, hnet, reduceCtorEq]
      refine ⟨buffer, hlen', ?_⟩
      cases io.request s.requests (netRequest session (PIPE_MESSAGE_NET :: b :: payload)) <;> rfl
  · simp only [hnull, hdata, hlang, hnet, false_and, ↓reduceIte]
    exact ⟨s.buffer, hlen, rfl⟩

/-- The loop makes exactly these exchanges. -/
theorem gameConnectionLoop_eq {messages : List (List Byte)}
    (hlen : s.buffer.length = BUFFER_SIZE)
    (hmessages : ∀ message ∈ messages, message.length ≤ BUFFER_SIZE) :
    gameConnectionLoop data session io messages s =
      some (exchanges data session io s.requests s.writes messages) := by
  induction messages generalizing s with
  | nil => rfl
  | cons message messages ih =>
    cases message with
    | nil => rfl
    | cons type payload =>
      have hle := hmessages _ List.mem_cons_self
      obtain ⟨a, rest, hbuffer, ha, -⟩ :=
        exists_append (b := s.buffer) (k := (type :: payload).length) (by omega)
      have hread : write s.buffer 0 (type :: payload) = some (type :: payload ++ rest) := by
        rw [hbuffer]
        exact write_append (p := []) rfl ha
      obtain ⟨buffer, hbuffer', hhandle⟩ := handleMessage_eq data session io
        (s := { s with buffer := type :: payload ++ rest }) rfl
        ((length_write hread).trans hlen)
      rw [gameConnectionLoop, exchanges, if_neg (List.cons_ne_nil _ _),
        if_neg (List.cons_ne_nil _ _), hread]
      simp only [Option.bind_eq_bind, Option.bind_some, hhandle]
      rcases answer data session io s.requests s.writes (type :: payload) with ⟨replies, next⟩
      have ih := ih (s := ⟨buffer, s.requests + requestsFor (type :: payload),
        s.writes + replies.length⟩) hbuffer' fun m hm => hmessages m (List.mem_cons_of_mem _ hm)
      cases next with
      | read =>
        simp only [ih, Option.bind_some]
        rfl
      | exit => rfl
      | failed => rfl

end DreamDota
