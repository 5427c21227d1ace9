import ScRedirection.Library.EventMachine
import ScRedirection.Library.NodeHeap

/-! # `TMultiThreadSingleQueue.h`

`Push` and `Pop` as the loads and stores they consist of, with the locks that are commented out
left out. One producer thread and one consumer thread share the heap, the two pointers and the
size; an event names the thread that moves next.
-/

universe u

namespace ScRedirection.MultiThreadQueue

open NodeHeap

/-- Where the producer stands in `Push`; every constructor is the access it makes next. -/
inductive PushPc (α : Type u)
  | idle
  | fill (pNewNode : Ptr) (pNewValue : α)
  | loadTail (pNewNode : Ptr) (pNewValue : α)
  | link (pNewNode : Ptr) (pNewValue : α) (tail : Ptr)
  | storeTail (pNewNode : Ptr)
  | loadSize
  | storeSize (size : Int)
  deriving DecidableEq

/-- Where the consumer stands in `Pop`. -/
inductive PopPc (α : Type u)
  | idle
  | loadHead (pCurrentNode : Ptr)
  | loadNext (pCurrentNode head : Ptr)
  | readValue (pCurrentNode pNewHeadNode : Ptr)
  | storeHead (pCurrentNode pNewHeadNode : Ptr) (pValue : α)
  | loadSize (pCurrentNode : Ptr) (pValue : α)
  | storeSize (pCurrentNode : Ptr) (pValue : α) (size : Int)
  | delete (pCurrentNode : Ptr) (pValue : α)
  deriving DecidableEq

/-- The queue, both threads, and the record of what they did: `linked` has the values in the order
of the stores that linked them, `results` what each finished `Pop` returned. `fault` is set by an
access to a node that is not there. -/
structure State (α : Type u) where
  heap : Heap α
  pHeadNode : Ptr
  pTailNode : Ptr
  mSize : Int := 0
  push : PushPc α := .idle
  pop : PopPc α := .idle
  fault : Bool := false
  linked : List α := []
  results : List (Option α) := []

inductive Event (α : Type u)
  | push (pNewValue : α) (pNewNode : Ptr)
  | pushStep
  | pop
  | popStep

namespace State

variable {α : Type u}

/-- The constructor: one dummy node that both pointers point to. -/
def init [Inhabited α] (pFirstNode : Ptr) : State α where
  heap := Function.update (fun _ => .unallocated) pFirstNode (.live ⟨none, default⟩)
  pHeadNode := pFirstNode
  pTailNode := pFirstNode

def getSize (s : State α) : Int := s.mSize

def returned (s : State α) : List α := s.results.reduceOption

def access (s : State α) (p : Ptr) (next : Node α → State α) : State α :=
  match s.heap p with
  | .live node => next node
  | _ => { s with fault := true }

theorem access_cases (s : State α) (p : Ptr) (next : Node α → State α) :
    (∀ node, s.heap p ≠ .live node) ∧ s.access p next = { s with fault := true } ∨
      ∃ node, s.heap p = .live node ∧ s.access p next = next node := by
  cases hCell : s.heap p with
  | live node => exact .inr ⟨node, rfl, by rw [access, hCell]⟩
  | unallocated => exact .inl ⟨nofun, by rw [access, hCell]⟩
  | deleted => exact .inl ⟨nofun, by rw [access, hCell]⟩

/-- `new CTNode`, whose constructor sets `pNextNode` and leaves the value as it was made. -/
def callPush [Inhabited α] (s : State α) (pNewValue : α) (pNewNode : Ptr) : Option (State α) :=
  match s.push, s.heap pNewNode with
  | .idle, .unallocated =>
    some { s with
      heap := Function.update s.heap pNewNode (.live ⟨none, default⟩)
      push := .fill pNewNode pNewValue }
  | _, _ => none

theorem of_callPush [Inhabited α] {s t : State α} {v : α} {n : Ptr}
    (h : s.callPush v n = some t) : s.push = .idle ∧ s.heap n = .unallocated ∧
      t = { s with
        heap := Function.update s.heap n (.live ⟨none, default⟩)
        push := .fill n v } := by
  unfold callPush at h
  split at h
  case h_1 hPush hCell => exact ⟨hPush, hCell, (Option.some.inj h).symm⟩
  case h_2 => cases h

def pushStep (s : State α) : Option (State α) :=
  match s.push with
  | .idle => none
  | .fill n v =>
    some (s.access n fun node => { s with
      heap := Function.update s.heap n (.live { node with value := v })
      push := .loadTail n v })
  | .loadTail n v => some { s with push := .link n v s.pTailNode }
  | .link n v tail =>
    some (s.access tail fun node => { s with
      heap := Function.update s.heap tail (.live { node with next := some n })
      push := .storeTail n
      linked := s.linked ++ [v] })
  | .storeTail n => some { s with pTailNode := n, push := .loadSize }
  -- incrementSize is m_Size++ on a volatile long: a load and a store
  | .loadSize => some { s with push := .storeSize s.mSize }
  | .storeSize size => some { s with mSize := size + 1, push := .idle }

def callPop (s : State α) : Option (State α) :=
  match s.pop with
  | .idle => some { s with pop := .loadHead s.pHeadNode }
  | _ => none

theorem of_callPop {s t : State α} (h : s.callPop = some t) :
    s.pop = .idle ∧ t = { s with pop := .loadHead s.pHeadNode } := by
  unfold callPop at h
  split at h
  case h_1 hPop => exact ⟨hPop, (Option.some.inj h).symm⟩
  case h_2 => cases h

def popStep (s : State α) : Option (State α) :=
  match s.pop with
  | .idle => none
  -- pHeadNode->pNextNode reads pHeadNode a second time
  | .loadHead cur => some { s with pop := .loadNext cur s.pHeadNode }
  | .loadNext cur head =>
    some (s.access head fun node =>
      match node.next with
      | none => { s with pop := .idle, results := s.results ++ [none] }
      | some n => { s with pop := .readValue cur n })
  | .readValue cur n => some (s.access n fun node => { s with pop := .storeHead cur n node.value })
  | .storeHead cur n v => some { s with pHeadNode := n, pop := .loadSize cur v }
  | .loadSize cur v => some { s with pop := .storeSize cur v s.mSize }
  | .storeSize cur v size => some { s with mSize := size - 1, pop := .delete cur v }
  | .delete cur v =>
    some (s.access cur fun _ => { s with
      heap := Function.update s.heap cur .deleted
      pop := .idle
      results := s.results ++ [some v] })

end State

/-! ## What a step can do -/

variable {α : Type u}

/-- The node that the next access goes to, if it goes to one. -/
def PushPc.target : PushPc α → Option Ptr
  | .fill n _ => some n
  | .link _ _ tail => some tail
  | _ => none

def PopPc.target : PopPc α → Option Ptr
  | .loadNext _ head => some head
  | .readValue _ n => some n
  | .delete cur _ => some cur
  | _ => none

inductive PushMove (s : State α) : State α → Prop
  | faulted {p : Ptr} (hTarget : s.push.target = some p) (hDead : ∀ node, s.heap p ≠ .live node) :
      PushMove s { s with fault := true }
  | filled {n : Ptr} {v : α} {node : Node α} (hPush : s.push = .fill n v)
      (hLive : s.heap n = .live node) :
      PushMove s { s with
        heap := Function.update s.heap n (.live { node with value := v })
        push := .loadTail n v }
  | tailLoaded {n : Ptr} {v : α} (hPush : s.push = .loadTail n v) :
      PushMove s { s with push := .link n v s.pTailNode }
  | linked {n tail : Ptr} {v : α} {node : Node α} (hPush : s.push = .link n v tail)
      (hLive : s.heap tail = .live node) :
      PushMove s { s with
        heap := Function.update s.heap tail (.live { node with next := some n })
        push := .storeTail n
        linked := s.linked ++ [v] }
  | tailStored {n : Ptr} (hPush : s.push = .storeTail n) :
      PushMove s { s with pTailNode := n, push := .loadSize }
  | sizeLoaded (hPush : s.push = .loadSize) : PushMove s { s with push := .storeSize s.mSize }
  | sizeStored {size : Int} (hPush : s.push = .storeSize size) :
      PushMove s { s with mSize := size + 1, push := .idle }

inductive PopMove (s : State α) : State α → Prop
  | faulted {p : Ptr} (hTarget : s.pop.target = some p) (hDead : ∀ node, s.heap p ≠ .live node) :
      PopMove s { s with fault := true }
  | headLoaded {cur : Ptr} (hPop : s.pop = .loadHead cur) :
      PopMove s { s with pop := .loadNext cur s.pHeadNode }
  | failed {cur head : Ptr} {v : α} (hPop : s.pop = .loadNext cur head)
      (hLive : s.heap head = .live ⟨none, v⟩) :
      PopMove s { s with pop := .idle, results := s.results ++ [none] }
  | nextLoaded {cur head n : Ptr} {v : α} (hPop : s.pop = .loadNext cur head)
      (hLive : s.heap head = .live ⟨some n, v⟩) : PopMove s { s with pop := .readValue cur n }
  | valueRead {cur n : Ptr} {node : Node α} (hPop : s.pop = .readValue cur n)
      (hLive : s.heap n = .live node) : PopMove s { s with pop := .storeHead cur n node.value }
  | headStored {cur n : Ptr} {v : α} (hPop : s.pop = .storeHead cur n v) :
      PopMove s { s with pHeadNode := n, pop := .loadSize cur v }
  | sizeLoaded {cur : Ptr} {v : α} (hPop : s.pop = .loadSize cur v) :
      PopMove s { s with pop := .storeSize cur v s.mSize }
  | sizeStored {cur : Ptr} {v : α} {size : Int} (hPop : s.pop = .storeSize cur v size) :
      PopMove s { s with mSize := size - 1, pop := .delete cur v }
  | deleted {cur : Ptr} {v : α} {node : Node α} (hPop : s.pop = .delete cur v)
      (hLive : s.heap cur = .live node) :
      PopMove s { s with
        heap := Function.update s.heap cur .deleted
        pop := .idle
        results := s.results ++ [some v] }

namespace State

variable {s t : State α}

theorem of_pushStep (h : s.pushStep = some t) : PushMove s t := by
  cases hPush : s.push with
  | idle => simp [pushStep, hPush] at h
  | fill n v =>
    simp only [pushStep, hPush, Option.some.injEq] at h
    subst h
    rcases s.access_cases n _ with ⟨hDead, hAccess⟩ | ⟨node, hLive, hAccess⟩ <;> rw [hAccess]
    · exact .faulted (by rw [hPush]; rfl) hDead
    · exact .filled hPush hLive
  | link n v tail =>
    simp only [pushStep, hPush, Option.some.injEq] at h
    subst h
    rcases s.access_cases tail _ with ⟨hDead, hAccess⟩ | ⟨node, hLive, hAccess⟩ <;> rw [hAccess]
    · exact .faulted (by rw [hPush]; rfl) hDead
    · exact .linked hPush hLive
  | loadTail n v =>
    simp only [pushStep, hPush, Option.some.injEq] at h
    exact h ▸ .tailLoaded hPush
  | storeTail n =>
    simp only [pushStep, hPush, Option.some.injEq] at h
    exact h ▸ .tailStored hPush
  | loadSize =>
    simp only [pushStep, hPush, Option.some.injEq] at h
    exact h ▸ .sizeLoaded hPush
  | storeSize size =>
    simp only [pushStep, hPush, Option.some.injEq] at h
    exact h ▸ .sizeStored hPush

theorem of_popStep (h : s.popStep = some t) : PopMove s t := by
  cases hPop : s.pop with
  | idle => simp [popStep, hPop] at h
  | loadNext cur head =>
    simp only [popStep, hPop, Option.some.injEq] at h
    subst h
    rcases s.access_cases head _ with ⟨hDead, hAccess⟩ | ⟨⟨next, v⟩, hLive, hAccess⟩ <;>
      rw [hAccess]
    · exact .faulted (by rw [hPop]; rfl) hDead
    · cases next with
      | none => exact .failed hPop hLive
      | some n => exact .nextLoaded hPop hLive
  | readValue cur n =>
    simp only [popStep, hPop, Option.some.injEq] at h
    subst h
    rcases s.access_cases n _ with ⟨hDead, hAccess⟩ | ⟨node, hLive, hAccess⟩ <;> rw [hAccess]
    · exact .faulted (by rw [hPop]; rfl) hDead
    · exact .valueRead hPop hLive
  | delete cur v =>
    simp only [popStep, hPop, Option.some.injEq] at h
    subst h
    rcases s.access_cases cur _ with ⟨hDead, hAccess⟩ | ⟨node, hLive, hAccess⟩ <;> rw [hAccess]
    · exact .faulted (by rw [hPop]; rfl) hDead
    · exact .deleted hPop hLive
  | loadHead cur =>
    simp only [popStep, hPop, Option.some.injEq] at h
    exact h ▸ .headLoaded hPop
  | storeHead cur n v =>
    simp only [popStep, hPop, Option.some.injEq] at h
    exact h ▸ .headStored hPop
  | loadSize cur v =>
    simp only [popStep, hPop, Option.some.injEq] at h
    exact h ▸ .sizeLoaded hPop
  | storeSize cur v size =>
    simp only [popStep, hPop, Option.some.injEq] at h
    exact h ▸ .sizeStored hPop

end State

variable [Inhabited α]

/-- Every sequentially consistent interleaving of the two threads. Nothing is said of what follows
a fault. -/
def machine : EventMachine (State α) (Event α) where
  step s e :=
    if s.fault then none
    else match e with
      | .push v n => s.callPush v n
      | .pushStep => s.pushStep
      | .pop => s.callPop
      | .popStep => s.popStep

/-- The values of the `Push` calls, in order. -/
def pushes (es : List (Event α)) : List α :=
  es.flatMap fun
    | .push v _ => [v]
    | _ => []

end ScRedirection.MultiThreadQueue
