import DreamDota.Auth.PipeReplies
import Mathlib.Data.List.Forall2

/-!
# Who is given the key of the session

`memcmp` is given the length 1, so that one byte of the revision is enough: `keySafe_iff`. The two
runs that are compared differ in the key and in nothing else.
-/

namespace DreamDota

open Bytes

variable {data : PipeData} {session session' : SessionType} {io : PipeIo}
variable {message payload : List Byte} {messages : List (List Byte)} {k w : ℕ}

/-- A request for the key that begins with the whole revision. -/
def Authorized (data : PipeData) (message : List Byte) : Prop :=
  ∃ payload, message = PIPE_MESSAGE_REQUEST_DATA :: payload ∧
    payload.take 4 = ofDword data.revision

/-- A request for the key that begins with the first byte of the revision. -/
def RequestsKey (data : PipeData) (message : List Byte) : Prop :=
  ∃ payload, message = PIPE_MESSAGE_REQUEST_DATA :: payload ∧ FirstByteMatches data payload

/-- The same message, and the same replies unless the key may be among them. -/
def SameReplies (data : PipeData) (e e' : Exchange) : Prop :=
  e.message = e'.message ∧ (¬ Authorized data e.message → e.replies = e'.replies)

/-- Two sessions that differ only in their key give the same replies to all messages that are not
authorized. -/
def KeySafe (data : PipeData) (messages : List (List Byte)) : Prop :=
  ∀ io session session', session.id = session'.id →
    ∀ buffer buffer', buffer.length = BUFFER_SIZE → buffer'.length = BUFFER_SIZE →
      ∃ t t' rv, gameConnectionLoop data session io messages ⟨buffer, 0, 0⟩ = some (t, rv) ∧
        gameConnectionLoop data session' io messages ⟨buffer', 0, 0⟩ = some (t', rv) ∧
        List.Forall₂ (SameReplies data) t t'

/-! ## Two runs -/

theorem writeReply_congr {r r' : List Byte} (h : r.length = r'.length) :
    (writeReply io w r).2 = (writeReply io w r').2 ∧
      (writeReply io w r).1.length = (writeReply io w r').1.length := by
  unfold writeReply
  rw [h]
  exact ⟨rfl, rfl⟩

/-- The key is in no other reply. -/
theorem answer_eq_of_not_requestsKey (hid : session.id = session'.id)
    (h : ¬ RequestsKey data message) :
    answer data session io k w message = answer data session' io k w message := by
  cases message with
  | nil => rfl
  | cons type payload =>
    have hnet : netRequest session (type :: payload) = netRequest session' (type :: payload) := by
      rw [netRequest, netRequest, hid]
    by_cases hdata : type = PIPE_MESSAGE_REQUEST_DATA
    · have hmatch : ¬ FirstByteMatches data payload := fun hm => h ⟨payload, by rw [hdata], hm⟩
      simp only [answer, hmatch, ↓reduceIte, hdata]
    · simp only [answer, hdata, ↓reduceIte, hnet]

theorem answer_requestsKey (h : RequestsKey data message) :
    answer data session io k w message =
      writeReply io w (session.keyData ++ (data.path ++ [0])) := by
  obtain ⟨payload, rfl, hmatch⟩ := h
  have hnull : PIPE_MESSAGE_REQUEST_DATA ≠ PIPE_MESSAGE_NULL := by decide
  rw [answer, if_neg hnull, if_pos rfl, if_pos hmatch]

/-- The two runs go on in the same way. -/
theorem answer_congr (data : PipeData) (io : PipeIo) (k w : ℕ) (message : List Byte)
    (hid : session.id = session'.id) :
    (answer data session io k w message).2 = (answer data session' io k w message).2 ∧
      (answer data session io k w message).1.length =
        (answer data session' io k w message).1.length := by
  by_cases h : RequestsKey data message
  · rw [answer_requestsKey h, answer_requestsKey h]
    refine writeReply_congr ?_
    simp only [List.length_append, session.length_keyData, session'.length_keyData]
  · rw [answer_eq_of_not_requestsKey hid h]
    exact ⟨rfl, rfl⟩

theorem RequestsKey.isRequest (h : RequestsKey data message) : isRequest message := by
  obtain ⟨payload, rfl, -⟩ := h
  rfl

theorem beforeNull_cons (h : isRequest message) :
    beforeNull (message :: messages) = message :: beforeNull messages :=
  List.takeWhile_cons_of_pos h

/-- Only a request is followed by another message. -/
theorem isRequest_of_read (hne : message ≠ [])
    (h : (answer data session io k w message).2 = .read) : isRequest message := by
  cases message with
  | nil => exact absurd rfl hne
  | cons type payload =>
    have hnull : type ≠ PIPE_MESSAGE_NULL := by
      rintro rfl
      rw [answer, if_pos rfl] at h
      cases h
    simpa [isRequest] using hnull

/-- One more message. -/
theorem exchanges_cons (session : SessionType) (hne : message ≠ []) :
    exchanges data session io k w (message :: messages) =
      (answer data session io k w message).2.after
        ⟨message, (answer data session io k w message).1⟩
        (exchanges data session io (k + requestsFor message)
          (w + (answer data session io k w message).1.length) messages) := by
  rw [exchanges]
  exact if_neg hne

theorem exchanges_congr (io : PipeIo) (k w : ℕ) (hid : session.id = session'.id)
    (h : ∀ message ∈ beforeNull messages, RequestsKey data message → Authorized data message) :
    (exchanges data session io k w messages).2 = (exchanges data session' io k w messages).2 ∧
      List.Forall₂ (SameReplies data) (exchanges data session io k w messages).1
        (exchanges data session' io k w messages).1 := by
  induction messages generalizing k w with
  | nil => exact ⟨rfl, List.Forall₂.nil⟩
  | cons message messages ih =>
    by_cases hne : message = []
    · rw [exchanges, exchanges, if_pos hne, if_pos hne]
      exact ⟨rfl, List.Forall₂.nil⟩
    · obtain ⟨hnext, hlen⟩ := answer_congr data io k w message hid
      have hhead : SameReplies data ⟨message, (answer data session io k w message).1⟩
          ⟨message, (answer data session' io k w message).1⟩ := by
        refine ⟨rfl, fun hauth => ?_⟩
        by_cases hkey : RequestsKey data message
        · have hmem : message ∈ beforeNull (message :: messages) := by
            rw [beforeNull_cons hkey.isRequest]
            exact List.mem_cons_self
          exact absurd (h message hmem hkey) hauth
        · rw [answer_eq_of_not_requestsKey hid hkey]
      rw [exchanges_cons session hne, exchanges_cons session' hne, ← hnext, ← hlen]
      cases hcase : (answer data session io k w message).2 with
      | read =>
        have htail : ∀ m ∈ beforeNull messages, RequestsKey data m → Authorized data m := by
          intro m hm
          refine h m ?_
          rw [beforeNull_cons (isRequest_of_read hne hcase)]
          exact List.mem_cons_of_mem _ hm
        obtain ⟨hrv, hrest⟩ := ih (k + requestsFor message)
          (w + (answer data session io k w message).1.length) htail
        exact ⟨hrv, List.Forall₂.cons hhead hrest⟩
      | exit => exact ⟨rfl, List.Forall₂.cons hhead List.Forall₂.nil⟩
      | failed => exact ⟨rfl, List.Forall₂.cons hhead List.Forall₂.nil⟩

/-- When all writes succeed, two different keys are seen in the replies. -/
theorem authorized_of_sameReplies (hio : ∀ w n, io.writeFile w n = (true, n))
    (hkeys : session.keyData ≠ session'.keyData)
    (h : List.Forall₂ (SameReplies data) (exchanges data session io k w messages).1
      (exchanges data session' io k w messages).1) :
    ∀ message ∈ beforeNull messages, RequestsKey data message → Authorized data message := by
  induction messages generalizing k w with
  | nil =>
    intro message hm
    cases hm
  | cons message messages ih =>
    by_cases hreq : isRequest message
    · have hne : message ≠ [] := by
        rintro rfl
        exact absurd hreq (by decide)
      obtain ⟨replies, hanswer, hcount⟩ := answer_request hio data session k w hreq
      obtain ⟨replies', hanswer', hcount'⟩ := answer_request hio data session' k w hreq
      rw [exchanges_cons session hne, exchanges_cons session' hne, hanswer, hanswer', hcount,
        hcount'] at h
      obtain ⟨hhead, htail⟩ := List.forall₂_cons.mp h
      rw [beforeNull_cons hreq, List.forall_mem_cons]
      refine ⟨fun hkey => ?_, ih htail⟩
      by_contra hauth
      have hsame := hhead.2 hauth
      rw [answer_requestsKey hkey, writeReply_eq hio, Prod.mk.injEq] at hanswer hanswer'
      rw [← hanswer.1, ← hanswer'.1] at hsame
      exact hkeys (List.append_cancel_right (List.singleton_inj.mp hsame))
    · rw [beforeNull, List.takeWhile_cons_of_neg hreq]
      intro message' hm
      cases hm

/-- A session with the given byte in its key. -/
def sessionOf (b : Byte) : SessionType where
  keyData := List.replicate RSA_SIZE b
  id := List.replicate 32 0
  length_keyData := List.length_replicate
  length_id := List.length_replicate

theorem keys_ne : (sessionOf 0).keyData ≠ (sessionOf 1).keyData := by
  intro heq
  exact absurd (congrArg (List.take 1) heq) (by decide)

theorem KeySafe.authorized (h : KeySafe data messages)
    (hmessages : ∀ message ∈ messages, message.length ≤ BUFFER_SIZE) :
    ∀ message ∈ beforeNull messages, RequestsKey data message → Authorized data message := by
  obtain ⟨t, t', rv, ht, ht', hsame⟩ := h echoIo (sessionOf 0) (sessionOf 1) rfl
    freshState.buffer freshState.buffer length_freshState length_freshState
  rw [gameConnectionLoop_eq (s := ⟨freshState.buffer, 0, 0⟩) length_freshState hmessages,
    Option.some.injEq] at ht ht'
  have hexchanges : List.Forall₂ (SameReplies data)
      (exchanges data (sessionOf 0) echoIo 0 0 messages).1
      (exchanges data (sessionOf 1) echoIo 0 0 messages).1 := by
    rw [ht, ht']
    exact hsame
  exact authorized_of_sameReplies (fun _ _ => rfl) keys_ne hexchanges

/-- The key is safe exactly if every request for it that begins with the first byte of the revision
begins with the whole revision. -/
theorem keySafe_iff (hmessages : ∀ message ∈ messages, message.length ≤ BUFFER_SIZE) :
    KeySafe data messages ↔
      ∀ message ∈ beforeNull messages, RequestsKey data message → Authorized data message := by
  constructor
  · intro h
    exact h.authorized hmessages
  · intro h io session session' hid buffer buffer' hbuffer hbuffer'
    obtain ⟨hrv, hsame⟩ := exchanges_congr io 0 0 hid h
    refine ⟨_, _, _, gameConnectionLoop_eq hbuffer hmessages, ?_, hsame⟩
    rw [gameConnectionLoop_eq hbuffer' hmessages, hrv]

/-- A request with the whole revision, and one with no byte of it. -/
theorem keySafe_two_requests : KeySafe someData [[1, 4, 3, 2, 1], [1, 9, 9, 9, 9]] := by
  refine (keySafe_iff (by decide)).mpr ?_
  intro message hmem hkey
  have hlist : beforeNull [[1, 4, 3, 2, 1], [1, 9, 9, 9, 9]] =
      [[1, 4, 3, 2, 1], [1, 9, 9, 9, 9]] := by
    decide
  rw [hlist] at hmem
  rcases List.mem_cons.mp hmem with rfl | hmem
  · exact ⟨[4, 3, 2, 1], rfl, by decide⟩
  · obtain rfl := List.mem_singleton.mp hmem
    obtain ⟨payload, heq, hmatch⟩ := hkey
    obtain rfl := (List.cons.inj heq).2
    exact absurd hmatch (by decide)

/-- One byte of the revision is enough. -/
theorem one_byte_of_revision : ¬ KeySafe someData [[1, 4, 0, 0, 0]] := by
  intro h
  have hkey : RequestsKey someData [1, 4, 0, 0, 0] := ⟨[4, 0, 0, 0], rfl, by decide⟩
  obtain ⟨payload, heq, hrevision⟩ := h.authorized (by decide) _ (by decide) hkey
  obtain rfl := (List.cons.inj heq).2
  exact absurd hrevision (by decide)

end DreamDota
