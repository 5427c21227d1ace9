import ScRedirection.Library.EventMachine

/-! # A pipe

What is fed at one end is drained at the other, in order and once. The state is what is inside.
A system shown to answer its own events with those of a pipe inherits both laws below.
-/

universe u

/-- Both ends of a pipe and what is inside, with the law that ties them. -/
structure Pipe (α : Type u) where
  input : List α
  output : List α
  inside : List α
  conserved : input = output ++ inside

namespace Pipe

variable {α : Type u}

theorem output_isPrefix (p : Pipe α) : p.output <+: p.input := ⟨p.inside, p.conserved.symm⟩

theorem output_eq_of_empty (p : Pipe α) (h : p.inside = []) : p.output = p.input := by
  rw [p.conserved, h, List.append_nil]

inductive Event (α : Type u)
  | feed (items : List α)
  | drain (items : List α)

def fed (es : List (Event α)) : List α := es.flatMap fun | .feed items => items | .drain _ => []

def drained (es : List (Event α)) : List α :=
  es.flatMap fun | .feed _ => [] | .drain items => items

variable [DecidableEq α]

def machine : EventMachine (List α) (Event α) where
  step
    | inside, .feed items => some (inside ++ items)
    | inside, .drain items =>
      if items <+: inside then some (inside.drop items.length) else none

theorem run_feed (inside items : List α) :
    machine.run inside [.feed items] = some (inside ++ items) := rfl

theorem run_drain (items rest : List α) :
    machine.run (items ++ rest) [.drain items] = some rest := by
  simp [machine, EventMachine.run]

theorem run_conserves {inside inside' : List α} {es : List (Event α)}
    (h : machine.run inside es = some inside') : inside ++ fed es = drained es ++ inside' := by
  induction es generalizing inside with
  | nil =>
    obtain rfl := Option.some.inj h
    simp [fed, drained]
  | cons e es ih =>
    obtain ⟨middle, hStep, hRun⟩ := machine.run_cons_eq_some.mp h
    cases e with
    | feed items =>
      obtain rfl := Option.some.inj hStep
      simpa [fed, drained] using ih hRun
    | drain items =>
      simp only [machine, Option.ite_none_right_eq_some, Option.some.injEq] at hStep
      obtain ⟨⟨rest, rfl⟩, rfl⟩ := hStep
      rw [List.drop_left] at hRun
      simp only [fed, drained, List.flatMap_cons, List.nil_append, List.append_assoc] at ih ⊢
      exact congrArg (items ++ ·) (ih hRun)

def ofRun {inside : List α} {es : List (Event α)} (h : machine.run [] es = some inside) :
    Pipe α where
  input := fed es
  output := drained es
  inside := inside
  conserved := by simpa using run_conserves h

end Pipe
