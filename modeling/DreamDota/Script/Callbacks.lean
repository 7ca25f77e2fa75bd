import DreamDota.Lib.Session
import DreamDota.Lib.Traversal

/-!
# The callbacks of scripts

`ScriptProcess.cpp`: scripts register functions for the types of events, and `ExecuteCallbacks`
starts a thread for each function of a type. A function is named by its identity, which is what
`lua_rawequal` compares. The reference that a list node holds is taken when the node is linked and
released when it is erased, so a node carries the function itself.

`beh` says for the `k`-th thread of a pass which calls it makes until it returns to `ThreadExec`,
and how it returns.

1. `call_edits`: what the calls of a thread do to a list of callbacks.
2. `executesInOrder_iff`: the passes that give every callback its turn.
-/

namespace DreamDota

/-- A node of a list of callbacks, by the order of the insertions. -/
structure CallbackNode where
  node : ℕ
  callback : ℕ
  deriving DecidableEq, Repr

/-- The calls that change the lists. -/
inductive CallbackCall where
  | addCallback (type : BitVec 32) (callback : ℕ)
  | removeCallback (type : BitVec 32) (callback : ℕ)
  deriving DecidableEq, Repr

/-- What `lua_resume` returns. -/
inductive ThreadResult where
  | finished
  | yielded
  | failed
  deriving DecidableEq, Repr

/-- What a thread does until it returns. -/
structure ThreadRun where
  calls : List CallbackCall
  result : ThreadResult
  deriving DecidableEq, Repr

structure ScriptCallbacks where
  /-- `callback_map_`; a type without an entry has no callbacks. -/
  callbackMap : BitVec 32 → List CallbackNode
  nodes : ℕ
  /-- The callbacks whose threads are suspended. -/
  suspended : List CallbackNode
  /-- The calls of `ProcessError`. -/
  errors : ℕ

namespace ScriptCallbacks

def init : ScriptCallbacks where
  callbackMap _ := []
  nodes := 0
  suspended := []
  errors := 0

/-- The list of a type is replaced. -/
def setList (c : ScriptCallbacks) (type : BitVec 32) (l : List CallbackNode) : ScriptCallbacks :=
  { c with callbackMap := Function.update c.callbackMap type l }

@[simp] theorem setList_same (c : ScriptCallbacks) (type : BitVec 32) (l : List CallbackNode) :
    (c.setList type l).callbackMap type = l := Function.update_self ..

@[simp] theorem setList_other {type type' : BitVec 32} (h : type' ≠ type) (c : ScriptCallbacks)
    (l : List CallbackNode) : (c.setList type l).callbackMap type' = c.callbackMap type' :=
  Function.update_of_ne h ..

@[simp] theorem setList_nodes (c : ScriptCallbacks) (type : BitVec 32) (l : List CallbackNode) :
    (c.setList type l).nodes = c.nodes := rfl

def addCallback (c : ScriptCallbacks) (type : BitVec 32) (callback : ℕ) : ScriptCallbacks :=
  { c.setList type (c.callbackMap type ++ [⟨c.nodes, callback⟩]) with nodes := c.nodes + 1 }

/-- The first node with the function is erased. -/
def removeCallback (c : ScriptCallbacks) (type : BitVec 32) (callback : ℕ) : ScriptCallbacks :=
  c.setList type ((c.callbackMap type).eraseP (·.callback = callback))

def call (c : ScriptCallbacks) : CallbackCall → ScriptCallbacks
  | .addCallback type callback => c.addCallback type callback
  | .removeCallback type callback => c.removeCallback type callback

/-- `ThreadExec` on the function of a node. -/
def threadExec (c : ScriptCallbacks) (n : CallbackNode) (r : ThreadRun) : ScriptCallbacks :=
  let c := r.calls.foldl call c
  match r.result with
  | .finished => c
  | .yielded => { c with suspended := c.suspended ++ [n] }
  | .failed => { c with errors := c.errors + 1 }

/-- The loop of `ExecuteCallbacks`. -/
def executeCallbacks (type : BitVec 32) (beh : ℕ → ThreadRun) :
    Traversal.Visitor ScriptCallbacks CallbackNode where
  items c := c.callbackMap type
  visit k n c := c.threadExec n (beh k)

/-- The pass ends, follows no iterator to an erased node, and starts, in the order of the
registrations, the callbacks that are registered at its start and still so at their turn. -/
def ExecutesInOrder (type : BitVec 32) (beh : ℕ → ThreadRun) (c : ScriptCallbacks) : Prop :=
  (executeCallbacks type beh).Ok c

/-- The callback after the one that starts was registered at the start of the pass, and the thread
that starts does not remove it. -/
def NextKept (type : BitVec 32) (beh : ℕ → ThreadRun) (c : ScriptCallbacks) (n : ℕ) : Prop :=
  (executeCallbacks type beh).Guarded (c.callbackMap type)
    ((executeCallbacks type beh).step^[n] ((executeCallbacks type beh).start c))

instance (type : BitVec 32) (beh : ℕ → ThreadRun) (c : ScriptCallbacks) (n : ℕ) :
    Decidable (NextKept type beh c n) := by
  unfold NextKept
  infer_instance

/-! ## The calls -/

/-- How a thread returns changes no list. -/
theorem threadExec_callbackMap (c : ScriptCallbacks) (n : CallbackNode) (r : ThreadRun) :
    (c.threadExec n r).callbackMap = (r.calls.foldl call c).callbackMap := by
  unfold threadExec
  cases r.result <;> rfl

theorem threadExec_nodes (c : ScriptCallbacks) (n : CallbackNode) (r : ThreadRun) :
    (c.threadExec n r).nodes = (r.calls.foldl call c).nodes := by
  unfold threadExec
  cases r.result <;> rfl

theorem nodes_call (c : ScriptCallbacks) (a : CallbackCall) : c.nodes ≤ (c.call a).nodes := by
  cases a with
  | addCallback type callback => exact Nat.le_succ c.nodes
  | removeCallback type callback => exact le_rfl

/-- What a call can do to a list. -/
theorem callbackMap_call (c : ScriptCallbacks) (type : BitVec 32) (a : CallbackCall) :
    (c.call a).callbackMap type = c.callbackMap type ∨
      (∃ f, a = .addCallback type f ∧
        (c.call a).callbackMap type = c.callbackMap type ++ [⟨c.nodes, f⟩]) ∨
      ∃ f, a = .removeCallback type f ∧
        (c.call a).callbackMap type = (c.callbackMap type).eraseP (·.callback = f) := by
  cases a with
  | addCallback type' f =>
    by_cases h : type = type'
    · subst h
      exact .inr (.inl ⟨f, rfl, setList_same ..⟩)
    · exact .inl (setList_other h ..)
  | removeCallback type' f =>
    by_cases h : type = type'
    · subst h
      exact .inr (.inr ⟨f, rfl, setList_same ..⟩)
    · exact .inl (setList_other h ..)

/-- A call appends a new node or erases one. -/
theorem call_edits {S : List CallbackNode} {c : ScriptCallbacks}
    (hS : ∀ n ∈ S, n.node < c.nodes) (type : BitVec 32) (a : CallbackCall) :
    Traversal.Edits S (c.callbackMap type) ((c.call a).callbackMap type) := by
  rcases callbackMap_call c type a with h | ⟨f, rfl, h⟩ | ⟨f, rfl, h⟩ <;> rw [h]
  · exact .refl S _
  · refine ⟨c.callbackMap type, [⟨c.nodes, f⟩], rfl, .refl _, fun x hx hxS => ?_⟩
    obtain rfl := List.mem_singleton.mp hx
    exact Nat.lt_irrefl _ (hS _ hxS)
  · exact ⟨_, [], (List.append_nil _).symm, List.eraseP_sublist, by simp⟩

/-- The calls of a thread append new nodes and erase some. -/
theorem calls_edits {S : List CallbackNode} {c : ScriptCallbacks}
    (hS : ∀ n ∈ S, n.node < c.nodes) (type : BitVec 32) (calls : List CallbackCall) :
    (∀ n ∈ S, n.node < (calls.foldl call c).nodes) ∧
      Traversal.Edits S (c.callbackMap type) ((calls.foldl call c).callbackMap type) := by
  induction calls generalizing c with
  | nil => exact ⟨hS, .refl S _⟩
  | cons a calls ih =>
    have hS' : ∀ n ∈ S, n.node < (c.call a).nodes := fun n hn =>
      (hS n hn).trans_le (nodes_call c a)
    obtain ⟨hnodes, hedits⟩ := ih hS'
    exact ⟨hnodes, (call_edits hS type a).trans hedits⟩

/-- The nodes of every list are in the order of their insertions. -/
def Numbered (c : ScriptCallbacks) : Prop :=
  ∀ type, (c.callbackMap type).Pairwise (fun n m => n.node < m.node) ∧
    ∀ n ∈ c.callbackMap type, n.node < c.nodes

theorem Numbered.call {c : ScriptCallbacks} (h : c.Numbered) (a : CallbackCall) :
    (c.call a).Numbered := by
  intro type
  obtain ⟨hsorted, hlt⟩ := h type
  have hlt' : ∀ n ∈ c.callbackMap type, n.node < (c.call a).nodes := fun n hn =>
    (hlt n hn).trans_le (nodes_call c a)
  rcases callbackMap_call c type a with heq | ⟨f, rfl, heq⟩ | ⟨f, rfl, heq⟩ <;> rw [heq]
  · exact ⟨hsorted, hlt'⟩
  · refine ⟨List.pairwise_append.mpr ⟨hsorted, List.pairwise_singleton _ _, ?_⟩, ?_⟩
    · intro n hn m hm
      obtain rfl := List.mem_singleton.mp hm
      exact hlt n hn
    · intro n hn
      rcases List.mem_append.mp hn with hn | hn
      · exact hlt' n hn
      · obtain rfl := List.mem_singleton.mp hn
        exact Nat.lt_succ_self c.nodes
  · exact ⟨hsorted.sublist List.eraseP_sublist, fun n hn => hlt' n (List.mem_of_mem_eraseP hn)⟩

theorem numbered_session (calls : List CallbackCall) : (calls.foldl call init).Numbered := by
  have hinit : init.Numbered := fun type => ⟨.nil, fun n hn => by cases hn⟩
  have halways : Session.Always call init calls Numbered :=
    .of_step (fun c a _ hc => hc.call a) hinit
  exact halways.last

/-! ## The passes -/

/-- The nodes of a list are apart from each other. -/
theorem Numbered.nodup {c : ScriptCallbacks} (h : c.Numbered) (type : BitVec 32) :
    (c.callbackMap type).Nodup := by
  refine (h type).1.imp fun {n m} hlt heq => ?_
  rw [heq] at hlt
  exact Nat.lt_irrefl _ hlt

/-- Whatever was registered before and whatever the callbacks do: a pass gives every callback its
turn if and only if no thread removes the callback after it, and this one is not a new one. -/
theorem executesInOrder_iff (type : BitVec 32) (beh : ℕ → ThreadRun) (calls : List CallbackCall) :
    ExecutesInOrder type beh (calls.foldl call init) ↔
      ∀ n, NextKept type beh (calls.foldl call init) n := by
  have hnum := numbered_session calls
  refine Traversal.Visitor.ok_iff (v := executeCallbacks type beh)
    (I := fun c => ∀ n ∈ (calls.foldl call init).callbackMap type, n.node < c.nodes)
    (hnum.nodup type) (hnum type).2 ?_
  intro k a c hc
  obtain ⟨hnodes, hedits⟩ := calls_edits hc type (beh k).calls
  refine ⟨?_, ?_⟩
  · show ∀ n ∈ (calls.foldl call init).callbackMap type, n.node < (c.threadExec a (beh k)).nodes
    rwa [threadExec_nodes]
  · show Traversal.Edits _ _ ((c.threadExec a (beh k)).callbackMap type)
    rwa [threadExec_callbackMap]

/-- The first of two callbacks removes the second, so that the iterator is at an erased node; or it
registers a third one, which the same pass starts. -/
theorem next_not_kept :
    ¬ ExecutesInOrder 0 (fun k => ⟨if k = 0 then [.removeCallback 0 1] else [], .finished⟩)
        ([.addCallback 0 0, .addCallback 0 1].foldl call init) ∧
      ¬ ExecutesInOrder 0 (fun k => ⟨if k = 0 then [.addCallback 0 2] else [], .finished⟩)
        ([.addCallback 0 0, .addCallback 0 1].foldl call init) := by
  refine ⟨fun h => ?_, fun h => ?_⟩
  · have hguard := h.guarded 0
    revert hguard
    decide
  · have hguard := h.guarded 1
    revert hguard
    decide

end ScriptCallbacks

end DreamDota
