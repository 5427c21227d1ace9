import ScRedirection.MultiThreadQueue.Order

/-! # What `GetSize` says

The size is brought up to date after the chain, by a load and a store of each thread. It goes wrong
when one thread stores between the other's load and store, and only then.
-/

universe u

namespace ScRedirection.MultiThreadQueue

variable {α : Type u}

/-- What a linked value has not yet added to the size. -/
def PushPc.unstored : PushPc α → Int
  | .storeTail _ | .loadSize | .storeSize _ => 1
  | _ => 0

/-- What a value that left the chain has not yet taken off the size. -/
def PopPc.unstored : PopPc α → Int
  | .loadSize _ _ | .storeSize _ _ _ => 1
  | _ => 0

/-- With no operation in progress the size is the number of values in the queue, so that the test
`GetSize() > 0` of `use_tunnel` passes when there is one. -/
def SizeAccurate (s : State α) : Prop :=
  s.push = .idle → s.pop = .idle →
    s.getSize = s.linked.length - s.returned.length ∧ (s.linked ≠ s.returned → 0 < s.getSize)

def Accounted (s : State α) : Prop :=
  s.getSize + s.push.unstored - s.pop.unstored = s.linked.length - s.passed.length

/-- A store of the size finds there the value that its thread loaded. -/
def Undisturbed (s : State α) : Event α → Prop
  | .pushStep => ∀ size, s.push = .storeSize size → s.mSize = size
  | .popStep => ∀ cur v size, s.pop = .storeSize cur v size → s.mSize = size
  | _ => True

variable {s t : State α} {dummy : α} {items : List (NodeHeap.Ptr × α)}

theorem Accounted.sizeAccurate (hSize : Accounted s) (h : Shape s dummy items) :
    SizeAccurate s := by
  intro hPush hPop
  rw [Accounted, State.passed, hPush, hPop] at hSize
  simp only [PushPc.unstored, PopPc.unstored, PopPc.value, List.append_nil] at hSize
  have hExact : s.getSize = s.linked.length - s.returned.length := by omega
  refine ⟨hExact, fun hItems => ?_⟩
  have hLonger : s.returned.length < s.linked.length := by
    apply Nat.lt_of_le_of_ne h.returned_isPrefix.length_le
    intro hLength
    exact hItems (h.returned_isPrefix.eq_of_length hLength).symm
  omega

/-! ## One step -/

theorem accounted_pushStep (h : Accounted s) (hStep : s.pushStep = some t) :
    Accounted t ↔ Undisturbed s .pushStep := by
  cases State.of_pushStep hStep with
  | @sizeStored size hPush =>
    have hOther : Undisturbed s .pushStep ↔ s.mSize = size := by simp [Undisturbed, hPush]
    rw [hOther]
    simp only [Accounted, hPush, PushPc.unstored, State.getSize, State.passed,
      State.returned] at h ⊢
    omega
  | faulted hTarget =>
    refine iff_of_true h fun size hPush => ?_
    rw [hPush] at hTarget
    cases hTarget
  | linked hPush =>
    refine iff_of_true ?_ fun size hStore => by cases hPush.symm.trans hStore
    rw [Accounted, hPush] at h
    simp only [Accounted, PushPc.unstored, State.getSize, State.passed, State.returned,
      List.length_append, List.length_singleton] at h ⊢
    omega
  | _ hPush =>
    refine iff_of_true ?_ fun size hStore => by cases hPush.symm.trans hStore
    rw [Accounted, hPush] at h
    exact h

theorem accounted_popStep (h : Accounted s) (hStep : s.popStep = some t) :
    Accounted t ↔ Undisturbed s .popStep := by
  cases State.of_popStep hStep with
  | @sizeStored cur v size hPop =>
    have hOther : Undisturbed s .popStep ↔ s.mSize = size := by simp [Undisturbed, hPop]
    rw [hOther]
    simp only [Accounted, hPop, PopPc.unstored, PopPc.value, State.getSize, State.passed,
      State.returned] at h ⊢
    omega
  | faulted hTarget =>
    refine iff_of_true h fun cur v size hPop => ?_
    rw [hPop] at hTarget
    cases hTarget
  | headStored hPop =>
    refine iff_of_true ?_ fun cur v size hStore => by cases hPop.symm.trans hStore
    rw [Accounted, State.passed, hPop] at h
    simp only [Accounted, PopPc.unstored, PopPc.value, State.getSize, State.passed, State.returned,
      List.append_nil, List.length_append, List.length_singleton] at h ⊢
    omega
  | failed hPop =>
    refine iff_of_true ?_ fun cur v size hStore => by cases hPop.symm.trans hStore
    rw [Accounted, State.passed, hPop] at h
    simpa [Accounted, State.getSize, State.passed, State.returned, List.reduceOption_append,
      PopPc.value, PopPc.unstored] using h
  | deleted hPop =>
    refine iff_of_true ?_ fun cur v size hStore => by cases hPop.symm.trans hStore
    rw [Accounted, State.passed, hPop] at h
    simpa [Accounted, State.getSize, State.passed, State.returned, List.reduceOption_append,
      PopPc.value, PopPc.unstored] using h
  | _ hPop =>
    refine iff_of_true ?_ fun cur v size hStore => by cases hPop.symm.trans hStore
    rw [Accounted, State.passed, hPop] at h
    exact h

theorem accounted_step [Inhabited α] {e : Event α} (h : Accounted s)
    (hStep : machine.step s e = some t) : Accounted t ↔ Undisturbed s e := by
  simp only [machine, Option.ite_none_left_eq_some] at hStep
  obtain ⟨-, hStep⟩ := hStep
  cases e with
  | push v n =>
    obtain ⟨hPush, _, rfl⟩ := State.of_callPush hStep
    rw [Accounted, hPush] at h
    exact ⟨fun _ => trivial, fun _ => h⟩
  | pushStep => exact accounted_pushStep h hStep
  | pop =>
    obtain ⟨hPop, rfl⟩ := State.of_callPop hStep
    rw [Accounted, State.passed, hPop] at h
    exact ⟨fun _ => trivial, fun _ => h⟩
  | popStep => exact accounted_popStep h hStep

/-! ## Every run -/

theorem accounted_init [Inhabited α] (first : NodeHeap.Ptr) :
    Accounted (State.init first : State α) := rfl

/-- In a run whose stores of the size are all undisturbed the size is accurate whenever both
threads are at rest, and the stores are undisturbed exactly when every state balances. -/
theorem sizeAccurate_throughout [Inhabited α] (first : NodeHeap.Ptr) (es : List (Event α)) :
    (machine.StepsMeet Undisturbed (State.init first) es →
      machine.Throughout SizeAccurate (State.init first) es) ∧
    (machine.StepsMeet Undisturbed (State.init first) es ↔
      machine.Throughout Accounted (State.init first) es) := by
  constructor
  · apply machine.throughout_of_stepsMeet
      (I := fun s => Accounted s ∧ ∃ dummy items, Shape s dummy items)
    · rintro s e t ⟨hSize, dummy, items, hShape⟩ hC hStep
      exact ⟨(accounted_step hSize hStep).mpr hC, hShape.step hStep⟩
    · rintro s ⟨hSize, dummy, items, hShape⟩
      exact hSize.sizeAccurate hShape
    · exact ⟨accounted_init first, default, [], shape_init first⟩
  · refine (machine.throughout_iff_stepsMeet (I := fun _ => True) ?_ ?_ trivial
      (accounted_init first)).symm
    · exact fun _ _ _ _ _ _ _ => trivial
    · exact fun s e t _ hSize hStep => accounted_step hSize hStep

/-- The consumer loads the size 1, a whole `Push` makes it 2, and the consumer stores 0. -/
def lostIncrement : List (Event Bytes) :=
  [.push (bytes "a") 1, .pushStep, .pushStep, .pushStep, .pushStep, .pushStep, .pushStep,
    .pop, .popStep, .popStep, .popStep, .popStep, .popStep,
    .push (bytes "b") 2, .pushStep, .pushStep, .pushStep, .pushStep, .pushStep, .pushStep,
    .popStep, .popStep]

theorem size_loses_increment :
    ¬ ∀ es : List (Event Bytes), machine.Throughout SizeAccurate (State.init 0) es := by
  intro h
  have hEnd : ((machine.run (State.init 0) lostIncrement).map fun s =>
      ((s.push, s.pop), s.getSize, s.linked, s.returned)) =
        some ((.idle, .idle), 0, [bytes "a", bytes "b"], [bytes "a"]) := by
    decide +kernel
  obtain ⟨s, hRun, hState⟩ := Option.map_eq_some_iff.mp hEnd
  simp only [Prod.mk.injEq] at hState
  obtain ⟨⟨hPush, hPop⟩, hSize, hLinked, hReturned⟩ := hState
  have hPositive := ((h lostIncrement).last _ hRun hPush hPop).2
  rw [hSize, hLinked, hReturned] at hPositive
  exact absurd (hPositive (by decide)) (by decide)

end ScRedirection.MultiThreadQueue
