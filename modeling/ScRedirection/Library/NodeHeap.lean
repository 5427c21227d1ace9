import Mathlib.Logic.Function.Basic
import Mathlib.Data.List.Nodup

/-! # Singly linked nodes in a heap

A pointer is the identity of one allocation, so a node that was deleted is never seen again under
another node's name.
-/

universe u

namespace NodeHeap

abbrev Ptr := Nat

structure Node (α : Type u) where
  next : Option Ptr
  value : α

inductive Cell (α : Type u)
  | unallocated
  | live (node : Node α)
  | deleted

abbrev Heap (α : Type u) := Ptr → Cell α

variable {α : Type u} {heap heap' : Heap α} {nodes : List (Ptr × α)}

/-- Each node points to the one after it, and the last one nowhere. -/
def Chain (heap : Heap α) : List (Ptr × α) → Prop
  | [] => True
  | (p, v) :: rest => heap p = .live ⟨rest.head?.map Prod.fst, v⟩ ∧ Chain heap rest

theorem Chain.congr (h : Chain heap nodes) (hSame : ∀ p ∈ nodes.map Prod.fst, heap' p = heap p) :
    Chain heap' nodes := by
  induction nodes with
  | nil => trivial
  | cons node rest ih =>
    obtain ⟨p, v⟩ := node
    rw [List.map_cons, List.forall_mem_cons] at hSame
    obtain ⟨hFirst, hRest⟩ := h
    exact ⟨hSame.1.trans hFirst, ih hRest hSame.2⟩

theorem update_elsewhere {p : Ptr} {ps : List Ptr} (hp : p ∉ ps) (cell : Cell α) :
    ∀ q ∈ ps, Function.update heap p cell q = heap q := by
  intro q hq
  rw [Function.update_of_ne]
  rintro rfl
  exact hp hq

theorem Chain.update (h : Chain heap nodes) {p : Ptr} (hp : p ∉ nodes.map Prod.fst)
    (cell : Cell α) : Chain (Function.update heap p cell) nodes :=
  h.congr (update_elsewhere hp cell)

theorem Chain.live (h : Chain heap nodes) {p : Ptr} (hp : p ∈ nodes.map Prod.fst) :
    ∃ node, heap p = .live node := by
  induction nodes with
  | nil => cases hp
  | cons node rest ih =>
    obtain ⟨hFirst, hRest⟩ := h
    rcases List.mem_cons.mp hp with rfl | hp
    · exact ⟨_, hFirst⟩
    · exact ih hRest hp

theorem Chain.last {t : Ptr} {u : α} (h : Chain heap (nodes ++ [(t, u)])) :
    heap t = .live ⟨none, u⟩ := by
  induction nodes with
  | nil => exact h.1
  | cons node rest ih => exact ih h.2

/-- Linking a node that points nowhere behind the last one. -/
theorem Chain.link {t q : Ptr} {u w : α} (h : Chain heap (nodes ++ [(t, u)]))
    (hq : heap q = .live ⟨none, w⟩)
    (hNodup : ((nodes ++ [(t, u), (q, w)]).map Prod.fst).Nodup) :
    Chain (Function.update heap t (.live ⟨some q, u⟩)) (nodes ++ [(t, u), (q, w)]) := by
  induction nodes with
  | nil =>
    have hNe : q ≠ t := by
      rintro rfl
      simp at hNodup
    exact ⟨by simp, by rw [Function.update_of_ne hNe, hq]; rfl, trivial⟩
  | cons node rest ih =>
    obtain ⟨p, v⟩ := node
    obtain ⟨hFirst, hRest⟩ := h
    rw [List.cons_append, List.map_cons, List.nodup_cons] at hNodup
    have hNe : p ≠ t := by
      rintro rfl
      exact hNodup.1 (by simp)
    refine ⟨?_, ih hRest hNodup.2⟩
    rw [Function.update_of_ne hNe, hFirst]
    cases rest <;> rfl

/-- The chain is not empty and this is its last node. -/
def EndsAt (nodes : List (Ptr × α)) (p : Ptr) : Prop := ∃ front v, nodes = front ++ [(p, v)]

theorem EndsAt.tail {p : Ptr} {first second : Ptr × α} (h : EndsAt (first :: second :: nodes) p) :
    EndsAt (second :: nodes) p := by
  obtain ⟨front, v, hNodes⟩ := h
  cases front with
  | nil => simp at hNodes
  | cons node front => exact ⟨front, v, (List.cons.inj hNodes).2⟩

end NodeHeap
