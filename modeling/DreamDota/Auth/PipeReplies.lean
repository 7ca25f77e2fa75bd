import DreamDota.Auth.ThreadPipe

/-!
# One reply for every message

The case of `PIPE_MESSAGE_NET` writes nothing when the message has no payload: `repliesOk_iff`.
-/

namespace DreamDota

variable {data : PipeData} {session : SessionType} {io : PipeIo} {s : PipeState}
variable {message : List Byte} {messages : List (List Byte)} {k w : ℕ}

/-- A message that is not the request to exit. -/
def isRequest (message : List Byte) : Bool :=
  message ≠ [] && message.head? ≠ some PIPE_MESSAGE_NULL

/-- The messages before a `PIPE_MESSAGE_NULL` or a read failure. -/
def beforeNull (messages : List (List Byte)) : List (List Byte) := messages.takeWhile isRequest

/-- Every message is answered once, before the next one is read. -/
def RepliesOk (data : PipeData) (session : SessionType) (io : PipeIo)
    (messages : List (List Byte)) (s : PipeState) : Prop :=
  ∃ answered last rv, gameConnectionLoop data session io messages s = some (answered ++ last, rv) ∧
    answered.map Exchange.message = beforeNull messages ∧
    (∀ e ∈ answered, e.replies.length = 1) ∧
    ∀ e ∈ last, e.message.head? = some PIPE_MESSAGE_NULL ∧ e.replies = []

section Writes

variable (hio : ∀ w n, io.writeFile w n = (true, n))

include hio

theorem writeReply_eq (reply : List Byte) : writeReply io w reply = ([reply], .read) := by
  simp [writeReply, hio]

theorem writeResponse_eq (reply : List Byte) : writeResponse io w reply = ([reply], .read) := by
  simp [writeResponse, hio]

/-- One branch writes nothing. -/
theorem answer_request (data : PipeData) (session : SessionType) (k w : ℕ)
    (h : isRequest message) :
    ∃ replies, answer data session io k w message = (replies, .read) ∧
      replies.length = if message = [PIPE_MESSAGE_NET] then 0 else 1 := by
  cases message with
  | nil => exact absurd h (by decide)
  | cons type payload =>
    have hnull : type ≠ PIPE_MESSAGE_NULL := by simpa [isRequest] using h
    rw [answer, if_neg hnull]
    by_cases hnet : type = PIPE_MESSAGE_NET
    · have hdata : PIPE_MESSAGE_NET ≠ PIPE_MESSAGE_REQUEST_DATA := by decide
      have hlang : PIPE_MESSAGE_NET ≠ PIPE_MESSAGE_REQUEST_LANG := by decide
      simp only [hnet, hdata, hlang, ↓reduceIte, List.cons.injEq, true_and]
      cases payload with
      | nil => exact ⟨[], rfl, rfl⟩
      | cons b payload =>
        simp only [reduceCtorEq, ↓reduceIte]
        cases io.request k (netRequest session (PIPE_MESSAGE_NET :: b :: payload)) with
        | none => exact ⟨_, writeReply_eq hio _, rfl⟩
        | some response => exact ⟨_, writeResponse_eq hio _, rfl⟩
    · have hne : type :: payload ≠ [PIPE_MESSAGE_NET] := fun h => hnet (List.cons.inj h).1
      simp only [hnet, hne, ↓reduceIte, writeReply_eq hio]
      split_ifs
      all_goals exact ⟨_, rfl, rfl⟩

/-- The exchanges, when all of the writes succeed. -/
theorem exchanges_answered (data : PipeData) (session : SessionType) (k w : ℕ)
    (messages : List (List Byte)) : ∃ answered last rv,
    exchanges data session io k w messages = (answered ++ last, rv) ∧
    answered.map Exchange.message = beforeNull messages ∧
    (∀ e ∈ answered, e.replies.length = if e.message = [PIPE_MESSAGE_NET] then 0 else 1) ∧
    ∀ e ∈ last, e.message.head? = some PIPE_MESSAGE_NULL ∧ e.replies = [] := by
  induction messages generalizing k w with
  | nil => exact ⟨[], [], false, rfl, rfl, nofun, nofun⟩
  | cons message messages ih =>
    by_cases h : isRequest message
    · obtain ⟨replies, hanswer, hreplies⟩ := answer_request hio data session k w h
      obtain ⟨answered, last, rv, hrest, hmap, hone, hlast⟩ :=
        ih (k + requestsFor message) (w + replies.length)
      have hne : message ≠ [] := by
        rintro rfl
        exact absurd h (by decide)
      refine ⟨⟨message, replies⟩ :: answered, last, rv, ?_, ?_, ?_, hlast⟩
      · rw [exchanges, if_neg hne, hanswer]
        simp only [hrest]
        rfl
      · rw [List.map_cons, hmap, beforeNull, beforeNull, List.takeWhile_cons_of_pos h]
      · intro e he
        rcases List.mem_cons.mp he with rfl | he
        · exact hreplies
        · exact hone e he
    · have hnone : beforeNull (message :: messages) = [] := List.takeWhile_cons_of_neg h
      rw [hnone]
      cases message with
      | nil => exact ⟨[], [], false, rfl, rfl, nofun, nofun⟩
      | cons type payload =>
        have hnull : type = PIPE_MESSAGE_NULL := by simpa [isRequest] using h
        refine ⟨[], [⟨type :: payload, []⟩], true, ?_, rfl, nofun, ?_⟩
        · rw [exchanges, if_neg (List.cons_ne_nil _ _), answer, if_pos hnull]
          rfl
        · intro e he
          obtain rfl := List.mem_singleton.mp he
          exact ⟨congrArg some hnull, rfl⟩

end Writes

/-- When all writes succeed, every message is answered once exactly if no message is a
`PIPE_MESSAGE_NET` without a payload. -/
theorem repliesOk_iff (hlen : s.buffer.length = BUFFER_SIZE)
    (hmessages : ∀ message ∈ messages, message.length ≤ BUFFER_SIZE)
    (hio : ∀ w n, io.writeFile w n = (true, n)) :
    RepliesOk data session io messages s ↔ [PIPE_MESSAGE_NET] ∉ beforeNull messages := by
  obtain ⟨answered, last, rv, hloop, hmap, hcount, hlast⟩ := exchanges_answered hio data
    session s.requests s.writes messages
  unfold RepliesOk
  rw [gameConnectionLoop_eq hlen hmessages, hloop]
  constructor
  · rintro ⟨answered', last', rv', heq, hmap', hone, -⟩ hmem
    simp only [Option.some.injEq, Prod.mk.injEq] at heq
    have hsame : answered.length = answered'.length := by
      rw [← List.length_map Exchange.message, hmap, ← hmap', List.length_map]
    obtain ⟨rfl, -⟩ := List.append_inj heq.1 hsame
    rw [← hmap, List.mem_map] at hmem
    obtain ⟨e, he, hnet⟩ := hmem
    have hzero := hcount e he
    rw [if_pos hnet, hone e he] at hzero
    exact absurd hzero (by decide)
  · intro hmem
    refine ⟨answered, last, rv, rfl, hmap, fun e he => ?_, hlast⟩
    rw [hcount e he, if_neg]
    rintro hnet
    refine hmem ?_
    rw [← hmap, ← hnet]
    exact List.mem_map_of_mem he

/-- A server that echoes, and writes that succeed. -/
def echoIo : PipeIo where
  request _ message := some message
  writeFile _ n := (true, n)

def someData : PipeData where
  revision := 0x01020304
  path := [67, 58]
  locale := [9, 9]
  length_path := by decide

def someSession : SessionType where
  keyData := List.replicate 128 7
  id := List.replicate 32 5
  length_keyData := List.length_replicate
  length_id := List.length_replicate

/-- The buffer before the first message. -/
def freshState : PipeState := ⟨List.replicate BUFFER_SIZE 0, 0, 0⟩

theorem length_freshState : freshState.buffer.length = BUFFER_SIZE := List.length_replicate

/-- A request for the strings, and one for the key. -/
theorem repliesOk_two_requests :
    RepliesOk someData someSession echoIo [[2], [1, 4, 3, 2, 1], [0]] freshState :=
  (repliesOk_iff length_freshState (by decide) fun _ _ => rfl).mpr (by decide)

/-- A message with nothing for the server is not answered. -/
theorem empty_net_message : ¬ RepliesOk someData someSession echoIo [[3], [2]] freshState := by
  rintro ⟨answered, last, rv, hloop, hmap, hone, -⟩
  rw [gameConnectionLoop_eq length_freshState (by decide)] at hloop
  have hfirst : (exchanges someData someSession echoIo 0 0 [[3], [2]]).1.head? =
      some ⟨[3], []⟩ := by
    decide
  have hlist := congrArg Prod.fst (Option.some.inj hloop)
  cases answered with
  | nil => exact absurd hmap (by decide)
  | cons e answered =>
    have he : e = ⟨[3], []⟩ := by
      have hhead := (congrArg List.head? hlist).symm.trans hfirst
      exact Option.some.inj hhead
    have hlen := hone e List.mem_cons_self
    rw [he] at hlen
    exact absurd hlen (by decide)

end DreamDota
