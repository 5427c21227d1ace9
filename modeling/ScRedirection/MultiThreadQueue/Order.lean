import Mathlib.Data.List.ReduceOption
import ScRedirection.Basic
import ScRedirection.Library.Pipe
import ScRedirection.MultiThreadQueue

/-! # Order without the locks

The nodes from the head on are a chain whose first node is the dummy. What the two threads hold
outside it, the new node before it is linked and the old head after the head has moved on, stands
at the two ends of one list of distinct live nodes: linking and moving the head shift the ends of
the chain and leave that list as it is.
-/

universe u

namespace ScRedirection.MultiThreadQueue

open NodeHeap

variable {α : Type u}

/-- The new node, until it is linked. -/
def PushPc.node : PushPc α → List Ptr
  | .fill n _ | .loadTail n _ | .link n _ _ => [n]
  | _ => []

/-- The old head, once the head has moved on. -/
def PopPc.node : PopPc α → List Ptr
  | .loadSize cur _ | .storeSize cur _ _ | .delete cur _ => [cur]
  | _ => []

def PopPc.value : PopPc α → List α
  | .loadSize _ v | .storeSize _ v _ | .delete _ v => [v]
  | _ => []

/-- What the producer relies on. Between its link and the move of the tail it relies on nothing
about the tail, whose node the consumer may have deleted. -/
def PushPc.Holds (heap : Heap α) (tail : Ptr) (nodes : List (Ptr × α)) : PushPc α → Prop
  | .idle | .loadSize | .storeSize _ => EndsAt nodes tail
  | .fill n _ => EndsAt nodes tail ∧ ∃ w, heap n = .live ⟨none, w⟩
  | .loadTail n v => EndsAt nodes tail ∧ heap n = .live ⟨none, v⟩
  | .link n v t => EndsAt nodes tail ∧ heap n = .live ⟨none, v⟩ ∧ t = tail
  | .storeTail n => EndsAt nodes n

def PopPc.Holds (heap : Heap α) (head : Ptr) (items : List (Ptr × α)) : PopPc α → Prop
  | .idle => True
  | .loadHead cur => cur = head
  | .loadNext cur h => cur = head ∧ h = head
  | .readValue cur n => cur = head ∧ items.head?.map Prod.fst = some n
  | .storeHead cur n v => cur = head ∧ items.head? = some (n, v)
  | .loadSize cur _ | .storeSize cur _ _ | .delete cur _ => ∃ node, heap cur = .live node

/-- The values that have left the chain. -/
def State.passed (s : State α) : List α := s.returned ++ s.pop.value

structure Shape (s : State α) (dummy : α) (items : List (Ptr × α)) : Prop where
  noFault : s.fault = false
  chain : Chain s.heap ((s.pHeadNode, dummy) :: items)
  nodup : (s.pop.node ++ s.pHeadNode :: items.map Prod.fst ++ s.push.node).Nodup
  push : s.push.Holds s.heap s.pTailNode ((s.pHeadNode, dummy) :: items)
  pop : s.pop.Holds s.heap s.pHeadNode items
  conserved : s.linked = s.passed ++ items.map Prod.snd

variable {s t : State α} {dummy : α} {items : List (Ptr × α)}

/-! ## What each thread relies on is out of the other's reach -/

theorem PushPc.Holds.live {heap : Heap α} {tail p : Ptr} {nodes : List (Ptr × α)} {pc : PushPc α}
    (h : pc.Holds heap tail nodes) (hp : p ∈ pc.node) : ∃ node, heap p = .live node := by
  cases pc <;> simp only [PushPc.node, List.mem_singleton, List.not_mem_nil] at hp
  case fill => exact hp ▸ h.2.imp' _ fun _ hLive => hLive
  case loadTail => exact ⟨_, hp ▸ h.2⟩
  case link => exact ⟨_, hp ▸ h.2.1⟩

theorem PopPc.Holds.live {heap : Heap α} {head p : Ptr} {pc : PopPc α}
    (h : pc.Holds heap head items) (hp : p ∈ pc.node) : ∃ node, heap p = .live node := by
  cases pc <;> simp only [PopPc.node, List.mem_singleton, List.not_mem_nil] at hp
  all_goals exact hp ▸ h

theorem PushPc.Holds.congr {heap heap' : Heap α} {tail : Ptr} {nodes : List (Ptr × α)}
    {pc : PushPc α} (h : pc.Holds heap tail nodes) (hSame : ∀ p ∈ pc.node, heap' p = heap p) :
    pc.Holds heap' tail nodes := by
  cases pc with
  | fill n v =>
    obtain ⟨hEnds, w, hLive⟩ := h
    exact ⟨hEnds, w, (hSame n List.mem_cons_self).trans hLive⟩
  | loadTail n v => exact ⟨h.1, (hSame n List.mem_cons_self).trans h.2⟩
  | link n v t => exact ⟨h.1, (hSame n List.mem_cons_self).trans h.2.1, h.2.2⟩
  | _ => exact h

theorem PopPc.Holds.congr {heap heap' : Heap α} {head : Ptr} {pc : PopPc α}
    (h : pc.Holds heap head items) (hSame : ∀ p ∈ pc.node, heap' p = heap p) :
    pc.Holds heap' head items := by
  cases pc with
  | loadSize cur v => exact h.imp fun _ hLive => (hSame cur List.mem_cons_self).trans hLive
  | storeSize cur v size => exact h.imp fun _ hLive => (hSame cur List.mem_cons_self).trans hLive
  | delete cur v => exact h.imp fun _ hLive => (hSame cur List.mem_cons_self).trans hLive
  | _ => exact h

/-- A node that joins the end of the chain changes nothing for the consumer. -/
theorem PopPc.Holds.concat {heap : Heap α} {head : Ptr} {pc : PopPc α} {item : Ptr × α}
    (h : pc.Holds heap head items) : pc.Holds heap head (items ++ [item]) := by
  cases pc with
  | readValue cur n =>
    obtain ⟨hCur, hNext⟩ := h
    cases items with
    | nil => cases hNext
    | cons first rest => exact ⟨hCur, hNext⟩
  | storeHead cur n v =>
    obtain ⟨hCur, hNext⟩ := h
    cases items with
    | nil => cases hNext
    | cons first rest => exact ⟨hCur, hNext⟩
  | _ => exact h

/-- The dummy that leaves the front of the chain changes nothing for the producer. -/
theorem PushPc.Holds.tail {heap : Heap α} {tail : Ptr} {pc : PushPc α} {first second : Ptr × α}
    (h : pc.Holds heap tail (first :: second :: items)) :
    pc.Holds heap tail (second :: items) := by
  cases pc with
  | fill n v => exact ⟨h.1.tail, h.2⟩
  | loadTail n v => exact ⟨h.1.tail, h.2⟩
  | link n v t => exact ⟨h.1.tail, h.2⟩
  | idle => exact EndsAt.tail h
  | storeTail n => exact EndsAt.tail h
  | loadSize => exact EndsAt.tail h
  | storeSize size => exact EndsAt.tail h

namespace Shape

theorem live (h : Shape s dummy items) {p : Ptr}
    (hp : p ∈ s.pop.node ++ s.pHeadNode :: items.map Prod.fst ++ s.push.node) :
    ∃ node, s.heap p = .live node := by
  rcases List.mem_append.mp hp with hp | hp
  · rcases List.mem_append.mp hp with hp | hp
    · exact h.pop.live hp
    · exact h.chain.live hp
  · exact h.push.live hp

theorem apart_of_push (h : Shape s dummy items) {p : Ptr} (hp : p ∈ s.push.node) :
    p ∉ s.pop.node ∧ p ∉ ((s.pHeadNode, dummy) :: items).map Prod.fst := by
  have hNot := fun hMem => List.disjoint_of_nodup_append h.nodup hMem hp
  exact ⟨fun hPop => hNot (List.mem_append_left _ hPop),
    fun hChain => hNot (List.mem_append_right _ hChain)⟩

theorem apart_of_pop (h : Shape s dummy items) {p : Ptr} (hp : p ∈ s.pop.node) :
    p ∉ s.push.node ∧ p ∉ ((s.pHeadNode, dummy) :: items).map Prod.fst := by
  refine ⟨fun hPush => (h.apart_of_push hPush).1 hp, fun hChain => ?_⟩
  exact List.disjoint_of_nodup_append (List.nodup_append.mp h.nodup).1 hp hChain

/-! ## One step -/

theorem callPush [Inhabited α] (h : Shape s dummy items) {v : α} {n : Ptr}
    (hStep : s.callPush v n = some t) : Shape t dummy items := by
  obtain ⟨hPush, hCell, rfl⟩ := State.of_callPush hStep
  have hFresh : n ∉ s.pop.node ++ s.pHeadNode :: items.map Prod.fst ++ s.push.node := by
    intro hMem
    obtain ⟨node, hLive⟩ := h.live hMem
    rw [hCell] at hLive
    cases hLive
  have hNodup := h.nodup
  have hEnds := h.push
  simp only [hPush, PushPc.node, List.append_nil] at hFresh hNodup hEnds
  constructor
  case noFault => exact h.noFault
  case chain => exact h.chain.update (fun hMem => hFresh (List.mem_append_right _ hMem)) _
  case nodup =>
    exact hNodup.append (List.nodup_singleton n) (List.disjoint_singleton.mpr hFresh)
  case push => exact ⟨hEnds, default, Function.update_self ..⟩
  case pop =>
    exact h.pop.congr (update_elsewhere (fun hMem => hFresh (List.mem_append_left _ hMem)) _)
  case conserved => exact h.conserved

/-- A step of the producer that leaves the heap and its own node alone. -/
theorem of_push (h : Shape s dummy items) {pc : PushPc α} {tail : Ptr} {size : Int}
    (hNode : pc.node = s.push.node) (hHolds : pc.Holds s.heap tail ((s.pHeadNode, dummy) :: items)) :
    Shape { s with pTailNode := tail, mSize := size, push := pc } dummy items :=
  ⟨h.noFault, h.chain, hNode ▸ h.nodup, hHolds, h.pop, h.conserved⟩

theorem of_pop (h : Shape s dummy items) {pc : PopPc α} {size : Int} (hNode : pc.node = s.pop.node)
    (hValue : pc.value = s.pop.value) (hHolds : pc.Holds s.heap s.pHeadNode items) :
    Shape { s with mSize := size, pop := pc } dummy items :=
  ⟨h.noFault, h.chain, hNode ▸ h.nodup, h.push, hHolds, by
    rw [State.passed, hValue]
    exact h.conserved⟩

/-- The node that the producer's next access goes to has not been deleted. -/
theorem push_target (h : Shape s dummy items) {p : Ptr} (hTarget : s.push.target = some p) :
    ∃ node, s.heap p = .live node := by
  have hHolds := h.push
  cases hPush : s.push with
  | fill n v =>
    rw [hPush] at hTarget hHolds
    obtain rfl := Option.some.inj hTarget
    exact hHolds.live List.mem_cons_self
  | link n v tail =>
    rw [hPush] at hTarget hHolds
    obtain rfl := Option.some.inj hTarget
    obtain ⟨⟨front, u, hNodes⟩, -, rfl⟩ := hHolds
    have hChain := h.chain
    rw [hNodes] at hChain
    exact ⟨_, hChain.last⟩
  | _ =>
    rw [hPush] at hTarget
    cases hTarget

theorem pop_target (h : Shape s dummy items) {p : Ptr} (hTarget : s.pop.target = some p) :
    ∃ node, s.heap p = .live node := by
  have hHolds := h.pop
  cases hPop : s.pop with
  | loadNext cur head =>
    rw [hPop] at hTarget hHolds
    obtain rfl := Option.some.inj hTarget
    obtain ⟨-, rfl⟩ := hHolds
    exact h.chain.live List.mem_cons_self
  | readValue cur n =>
    rw [hPop] at hTarget hHolds
    obtain rfl := Option.some.inj hTarget
    obtain ⟨first, hFirst, rfl⟩ := Option.map_eq_some_iff.mp hHolds.2
    refine h.chain.live (List.mem_cons_of_mem _ ?_)
    exact List.mem_map_of_mem (List.mem_of_mem_head? hFirst)
  | delete cur v =>
    rw [hPop] at hTarget hHolds
    obtain rfl := Option.some.inj hTarget
    exact hHolds
  | _ =>
    rw [hPop] at hTarget
    cases hTarget

theorem filled (h : Shape s dummy items) {n : Ptr} {v : α} {node : Node α}
    (hPush : s.push = .fill n v) (hLive : s.heap n = .live node) :
    Shape { s with
      heap := Function.update s.heap n (.live { node with value := v })
      push := .loadTail n v } dummy items := by
  have hMem : n ∈ s.push.node := by simp [hPush, PushPc.node]
  obtain ⟨hPop, hChain⟩ := h.apart_of_push hMem
  have hHolds := h.push
  have hNodup := h.nodup
  rw [hPush] at hHolds hNodup
  obtain ⟨hEnds, w, hNew⟩ := hHolds
  obtain rfl := Cell.live.inj (hLive.symm.trans hNew)
  constructor
  case noFault => exact h.noFault
  case chain => exact h.chain.update hChain _
  case nodup => exact hNodup
  case push => exact ⟨hEnds, Function.update_self ..⟩
  case pop => exact h.pop.congr (update_elsewhere hPop _)
  case conserved => exact h.conserved

theorem linked (h : Shape s dummy items) {n tail : Ptr} {v : α} {node : Node α}
    (hPush : s.push = .link n v tail) (hLive : s.heap tail = .live node) :
    Shape { s with
      heap := Function.update s.heap tail (.live { node with next := some n })
      push := .storeTail n
      linked := s.linked ++ [v] } dummy (items ++ [(n, v)]) := by
  have hHolds := h.push
  have hNodup := h.nodup
  rw [hPush] at hHolds hNodup
  obtain ⟨⟨front, u, hNodes⟩, hNew, rfl⟩ := hHolds
  have hChain := h.chain
  rw [hNodes] at hChain
  obtain rfl := Cell.live.inj (hLive.symm.trans hChain.last)
  have hFirst : (s.pHeadNode, dummy) :: (items ++ [(n, v)]) =
      front ++ [(s.pTailNode, u), (n, v)] := by
    rw [← List.cons_append, hNodes, List.append_assoc]
    rfl
  have hPointers : s.pHeadNode :: (items ++ [(n, v)]).map Prod.fst =
      (front ++ [(s.pTailNode, u), (n, v)]).map Prod.fst := by
    rw [← hFirst, List.map_cons]
  have hNodup' : (s.pop.node ++ s.pHeadNode :: (items ++ [(n, v)]).map Prod.fst).Nodup := by
    simpa [PushPc.node] using hNodup
  constructor
  case noFault => exact h.noFault
  case chain =>
    rw [hFirst]
    refine hChain.link hNew ?_
    rw [← hPointers]
    exact (List.nodup_append.mp hNodup').2.1
  case nodup => simpa [PushPc.node] using hNodup'
  case push => exact ⟨(s.pHeadNode, dummy) :: items, v, rfl⟩
  case pop =>
    refine (h.pop.congr (update_elsewhere ?_ _)).concat
    intro hMem
    refine (h.apart_of_pop hMem).2 ?_
    rw [hNodes]
    simp
  case conserved =>
    change s.linked ++ [v] = s.passed ++ _
    rw [h.conserved, List.map_append, List.append_assoc]
    rfl

theorem pushStep (h : Shape s dummy items) (hStep : s.pushStep = some t) :
    ∃ items, Shape t dummy items := by
  have hHolds := h.push
  cases State.of_pushStep hStep with
  | faulted hTarget hDead =>
    obtain ⟨node, hLive⟩ := h.push_target hTarget
    exact absurd hLive (hDead node)
  | filled hPush hLive => exact ⟨items, h.filled hPush hLive⟩
  | linked hPush hLive => exact ⟨_, h.linked hPush hLive⟩
  | tailLoaded hPush =>
    rw [hPush] at hHolds
    exact ⟨items, h.of_push (hPush ▸ rfl) ⟨hHolds.1, hHolds.2, rfl⟩⟩
  | tailStored hPush =>
    rw [hPush] at hHolds
    exact ⟨items, h.of_push (hPush ▸ rfl) hHolds⟩
  | sizeLoaded hPush =>
    rw [hPush] at hHolds
    exact ⟨items, h.of_push (hPush ▸ rfl) hHolds⟩
  | sizeStored hPush =>
    rw [hPush] at hHolds
    exact ⟨items, h.of_push (hPush ▸ rfl) hHolds⟩

theorem callPop (h : Shape s dummy items) (hStep : s.callPop = some t) : Shape t dummy items := by
  obtain ⟨hPop, rfl⟩ := State.of_callPop hStep
  exact h.of_pop (hPop ▸ rfl) (hPop ▸ rfl) rfl

/-- The head's next pointer is null only when the chain is the dummy alone. -/
theorem empty_of_next {head : Ptr} {v : α} (h : Shape s dummy items) (hHead : head = s.pHeadNode)
    (hLive : s.heap head = .live ⟨none, v⟩) : items = [] := by
  have hFirst := Cell.live.inj (hLive.symm.trans (hHead ▸ h.chain.1))
  cases items with
  | nil => rfl
  | cons first rest => cases hFirst

theorem failed (h : Shape s dummy items) {cur head : Ptr} (hPop : s.pop = .loadNext cur head) :
    Shape { s with pop := .idle, results := s.results ++ [none] } dummy items := by
  have hNodup := h.nodup
  have hConserved := h.conserved
  rw [State.passed, hPop] at hConserved
  rw [hPop] at hNodup
  refine ⟨h.noFault, h.chain, hNodup, h.push, trivial, ?_⟩
  simpa [State.passed, State.returned, List.reduceOption_append, PopPc.value] using hConserved

theorem headStored (h : Shape s dummy items) {cur n : Ptr} {v : α}
    (hPop : s.pop = .storeHead cur n v) :
    ∃ rest, Shape { s with pHeadNode := n, pop := .loadSize cur v } v rest := by
  have hHolds := h.pop
  have hNodup := h.nodup
  have hConserved := h.conserved
  rw [State.passed, hPop] at hConserved
  rw [hPop] at hHolds hNodup
  obtain ⟨rfl, hFirst⟩ := hHolds
  obtain ⟨rest, rfl⟩ := List.head?_eq_some_iff.mp hFirst
  refine ⟨rest, h.noFault, h.chain.2, hNodup, h.push.tail, ⟨_, h.chain.1⟩, ?_⟩
  simpa [State.passed, State.returned, PopPc.value] using hConserved

theorem deleted (h : Shape s dummy items) {cur : Ptr} {v : α} (hPop : s.pop = .delete cur v) :
    Shape { s with
      heap := Function.update s.heap cur .deleted
      pop := .idle
      results := s.results ++ [some v] } dummy items := by
  have hMem : cur ∈ s.pop.node := by simp [hPop, PopPc.node]
  obtain ⟨hPush, hChain⟩ := h.apart_of_pop hMem
  have hNodup := h.nodup
  have hConserved := h.conserved
  rw [State.passed, hPop] at hConserved
  rw [hPop] at hNodup
  constructor
  case noFault => exact h.noFault
  case chain => exact h.chain.update hChain _
  case nodup => exact (List.nodup_cons.mp hNodup).2
  case push => exact h.push.congr (update_elsewhere hPush _)
  case pop => trivial
  case conserved =>
    simpa [State.passed, State.returned, List.reduceOption_append, PopPc.value] using hConserved

theorem popStep (h : Shape s dummy items) (hStep : s.popStep = some t) :
    ∃ dummy items, Shape t dummy items := by
  have hHolds := h.pop
  cases State.of_popStep hStep with
  | faulted hTarget hDead =>
    obtain ⟨node, hLive⟩ := h.pop_target hTarget
    exact absurd hLive (hDead node)
  | failed hPop => exact ⟨dummy, items, h.failed hPop⟩
  | headStored hPop => exact ⟨_, h.headStored hPop⟩
  | deleted hPop => exact ⟨dummy, items, h.deleted hPop⟩
  | headLoaded hPop =>
    rw [hPop] at hHolds
    exact ⟨dummy, items, h.of_pop (hPop ▸ rfl) (hPop ▸ rfl) ⟨hHolds, rfl⟩⟩
  | nextLoaded hPop hLive =>
    rw [hPop] at hHolds
    obtain ⟨hCur, rfl⟩ := hHolds
    have hNext := congrArg Node.next (Cell.live.inj (h.chain.1.symm.trans hLive))
    exact ⟨dummy, items, h.of_pop (hPop ▸ rfl) (hPop ▸ rfl) ⟨hCur, hNext⟩⟩
  | valueRead hPop hLive =>
    rw [hPop] at hHolds
    obtain ⟨hCur, hNext⟩ := hHolds
    obtain ⟨⟨_, v⟩, hFirst, rfl⟩ := Option.map_eq_some_iff.mp hNext
    obtain ⟨rest, rfl⟩ := List.head?_eq_some_iff.mp hFirst
    obtain rfl := Cell.live.inj (hLive.symm.trans h.chain.2.1)
    exact ⟨dummy, _, h.of_pop (hPop ▸ rfl) (hPop ▸ rfl) ⟨hCur, rfl⟩⟩
  | sizeLoaded hPop =>
    rw [hPop] at hHolds
    exact ⟨dummy, items, h.of_pop (hPop ▸ rfl) (hPop ▸ rfl) hHolds⟩
  | sizeStored hPop =>
    rw [hPop] at hHolds
    exact ⟨dummy, items, h.of_pop (hPop ▸ rfl) (hPop ▸ rfl) hHolds⟩

/-- Only the read of a next pointer can end a `Pop` without a value. -/
theorem linked_of_failed (h : Shape s dummy items) (hStep : s.popStep = some t)
    (hFailed : t.results = s.results ++ [none]) : s.linked = s.returned := by
  have hHolds := h.pop
  have hConserved := h.conserved
  cases State.of_popStep hStep with
  | failed hPop hLive =>
    rw [hPop] at hHolds
    rw [State.passed, hPop, h.empty_of_next hHolds.2 hLive] at hConserved
    simpa [PopPc.value] using hConserved
  | _ => simp at hFailed

/-- The chain is a pipe that links feed and moves of the head drain. -/
def pipe (h : Shape s dummy items) : Pipe α where
  input := s.linked
  output := s.passed
  inside := items.map Prod.snd
  conserved := h.conserved

theorem returned_isPrefix (h : Shape s dummy items) : s.returned <+: s.linked :=
  (List.prefix_append _ _).trans h.pipe.output_isPrefix

end Shape

theorem shape_init [Inhabited α] (first : Ptr) :
    Shape (State.init first : State α) default [] where
  noFault := rfl
  chain := by simp [Chain, State.init]
  nodup := List.nodup_singleton first
  push := ⟨[], default, rfl⟩
  pop := trivial
  conserved := rfl

theorem Shape.step [Inhabited α] (h : Shape s dummy items) {e : Event α}
    (hStep : machine.step s e = some t) : ∃ dummy items, Shape t dummy items := by
  simp only [machine, h.noFault, Bool.false_eq_true, if_false] at hStep
  cases e with
  | push v n => exact ⟨dummy, items, h.callPush hStep⟩
  | pushStep => exact ⟨dummy, h.pushStep hStep⟩
  | pop => exact ⟨dummy, items, h.callPop hStep⟩
  | popStep => exact h.popStep hStep

/-! ## What the values do over a run -/

/-- The argument of the `Push` in progress, until its node is linked. -/
def PushPc.value : PushPc α → List α
  | .fill _ v | .loadTail _ v | .link _ v _ => [v]
  | _ => []

theorem State.pushStep_linked (hStep : s.pushStep = some t) :
    t.linked ++ t.push.value = s.linked ++ s.push.value := by
  cases State.of_pushStep hStep with
  | faulted => rfl
  | linked hPush =>
    rw [hPush]
    exact List.append_nil _
  | _ hPush =>
    rw [hPush]
    rfl

theorem State.popStep_linked (hStep : s.popStep = some t) :
    t.linked = s.linked ∧ t.push = s.push := by
  cases State.of_popStep hStep <;> exact ⟨rfl, rfl⟩

theorem pushes_append [Inhabited α] (es fs : List (Event α)) :
    pushes (es ++ fs) = pushes es ++ pushes fs := List.flatMap_append

theorem pushes_of_run [Inhabited α] {first : Ptr} {es : List (Event α)}
    (h : machine.run (State.init first) es = some s) :
    pushes es = s.linked ++ s.push.value := by
  refine machine.run_history (P := fun es s => pushes es = s.linked ++ s.push.value) rfl ?_ h
  intro es m e t _ hPushes hStep
  rw [pushes_append, hPushes]
  simp only [machine, Option.ite_none_left_eq_some] at hStep
  obtain ⟨-, hStep⟩ := hStep
  cases e with
  | push v n =>
    obtain ⟨hPush, _, rfl⟩ := State.of_callPush hStep
    rw [hPush]
    exact congrArg (· ++ [v]) (List.append_nil _)
  | pushStep => exact (List.append_nil _).trans (State.pushStep_linked hStep).symm
  | pop =>
    obtain ⟨_, rfl⟩ := State.of_callPop hStep
    exact List.append_nil _
  | popStep =>
    obtain ⟨hLinked, hPush⟩ := State.popStep_linked hStep
    rw [hLinked, hPush]
    exact List.append_nil _

theorem shape_of_run [Inhabited α] {first : Ptr} {es : List (Event α)}
    (h : machine.run (State.init first) es = some s) : ∃ dummy items, Shape s dummy items := by
  refine machine.run_invariant (P := fun s => ∃ dummy items, Shape s dummy items) ?_
    ⟨default, [], shape_init first⟩ h
  rintro s e t ⟨dummy, items, hShape⟩ hStep
  exact hShape.step hStep

/-- The order of the values, the meaning of a failed `Pop` and the safety of every access, in any
interleaving of one producer and one consumer. -/
theorem pops_follow_pushes [Inhabited α] {first : Ptr} {es : List (Event α)}
    (h : machine.run (State.init first) es = some s) :
    s.fault = false ∧ s.returned <+: pushes es ∧ s.linked <+: pushes es ∧
      ∀ t, machine.step s .popStep = some t → t.results = s.results ++ [none] →
        s.linked = s.returned := by
  obtain ⟨dummy, items, hShape⟩ := shape_of_run h
  have hLinked : s.linked <+: pushes es := by
    rw [pushes_of_run h]
    exact List.prefix_append _ _
  refine ⟨hShape.noFault, hShape.returned_isPrefix.trans hLinked, hLinked, ?_⟩
  intro t hStep hFailed
  simp only [machine, hShape.noFault, Bool.false_eq_true, if_false] at hStep
  exact hShape.linked_of_failed hStep hFailed

/-- The consumer takes the new node and deletes the old one before the producer has moved the tail
off it. -/
def tailDeleted : List (Event Bytes) :=
  [.push (bytes "a") 1, .pushStep, .pop, .pushStep, .pushStep, .popStep, .popStep, .popStep,
    .popStep, .popStep, .popStep, .popStep, .pop, .popStep, .pushStep]

theorem pops_follow_pushes_tailDeleted :
    ∃ s, machine.run (State.init 0) tailDeleted = some s ∧ s.fault = false ∧
      s.returned <+: pushes tailDeleted ∧ s.linked <+: pushes tailDeleted ∧
      ∀ t, machine.step s .popStep = some t → t.results = s.results ++ [none] →
        s.linked = s.returned := by
  have hSome : (machine.run (State.init 0) tailDeleted).isSome := by decide +kernel
  obtain ⟨s, hRun⟩ := Option.isSome_iff_exists.mp hSome
  exact ⟨s, hRun, pops_follow_pushes hRun⟩

end ScRedirection.MultiThreadQueue
