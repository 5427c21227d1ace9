import Mathlib.Data.List.Induction

/-! # Machines driven by a list of events

A step is a partial function of the state and one event, so every choice of the
environment is written in the event and a run is the fold of a list of events.
Quantifying over the list is quantifying over every interleaving.
-/

universe u v w

structure EventMachine (σ : Type u) (ε : Type v) where
  step : σ → ε → Option σ

namespace EventMachine

variable {σ : Type u} {ε : Type v} {τ : Type w} (M : EventMachine σ ε)

def run : σ → List ε → Option σ
  | s, [] => some s
  | s, e :: es => (M.step s e).bind fun t => run t es

@[simp] theorem run_nil (s : σ) : M.run s [] = some s := rfl

theorem run_cons_eq_some {s t : σ} {e : ε} {es : List ε} :
    M.run s (e :: es) = some t ↔ ∃ m, M.step s e = some m ∧ M.run m es = some t := by
  rw [run, Option.bind_eq_some_iff]

theorem run_append (s : σ) (es fs : List ε) :
    M.run s (es ++ fs) = (M.run s es).bind fun t => M.run t fs := by
  induction es generalizing s with
  | nil => rfl
  | cons e es ih =>
    simp only [List.cons_append, run]
    cases M.step s e with
    | none => rfl
    | some m => exact ih m

theorem run_concat_eq_some {s t : σ} {e : ε} {es : List ε} :
    M.run s (es ++ [e]) = some t ↔ ∃ m, M.run s es = some m ∧ M.step m e = some t := by
  rw [run_append, Option.bind_eq_some_iff]
  simp [run]

theorem run_invariant {P : σ → Prop} (hStep : ∀ s e t, P s → M.step s e = some t → P t)
    {s t : σ} {es : List ε} (hs : P s) (h : M.run s es = some t) : P t := by
  induction es generalizing s with
  | nil => exact Option.some.inj h ▸ hs
  | cons e es ih =>
    obtain ⟨m, hm, hRun⟩ := M.run_cons_eq_some.mp h
    exact ih (hStep s e m hs hm) hRun

/-- Some events lead from the one state to the other. -/
def Reaches (s t : σ) : Prop := ∃ es, M.run s es = some t

variable {M} in
theorem Reaches.refl (s : σ) : M.Reaches s s := ⟨[], rfl⟩

variable {M} in
theorem Reaches.trans {s t u : σ} (h : M.Reaches s t) (h' : M.Reaches t u) : M.Reaches s u := by
  obtain ⟨es, hRun⟩ := h
  obtain ⟨fs, hRun'⟩ := h'
  exact ⟨es ++ fs, by rw [run_append, hRun, Option.bind_some, hRun']⟩

/-- Steps that each bring a measure down are no more than it says. -/
theorem length_le_of_run {q : ε → Prop} {measure : σ → Nat}
    (hStep : ∀ s e t, q e → M.step s e = some t → measure t < measure s) {s t : σ} {es : List ε}
    (hAll : ∀ e ∈ es, q e) (h : M.run s es = some t) : es.length + measure t ≤ measure s := by
  induction es generalizing s with
  | nil =>
    obtain rfl := Option.some.inj h
    exact Nat.le_of_eq (Nat.zero_add _)
  | cons e es ih =>
    obtain ⟨m, hm, hRun⟩ := M.run_cons_eq_some.mp h
    obtain ⟨hHead, hTail⟩ := List.forall_mem_cons.mp hAll
    have hLess := hStep s e m hHead hm
    have hRest := ih hTail hRun
    rw [List.length_cons]
    omega

theorem run_history {P : List ε → σ → Prop} {s : σ} (hs : P [] s)
    (hStep : ∀ es m e t, M.run s es = some m → P es m → M.step m e = some t → P (es ++ [e]) t)
    {es : List ε} {t : σ} (h : M.run s es = some t) : P es t := by
  induction es using List.reverseRecOn generalizing t with
  | nil => exact Option.some.inj h ▸ hs
  | append_singleton es e ih =>
    obtain ⟨m, hRun, hm⟩ := M.run_concat_eq_some.mp h
    exact hStep es m e t hRun (ih hRun) hm

/-- Every step the run takes meets a condition on the state before it and its event. -/
def StepsMeet (C : σ → ε → Prop) : σ → List ε → Prop
  | _, [] => True
  | s, e :: es => ∀ t, M.step s e = some t → C s e ∧ StepsMeet C t es

/-- The property holds in every state the run passes through, its first and last included. -/
def Throughout (P : σ → Prop) : σ → List ε → Prop
  | s, [] => P s
  | s, e :: es => P s ∧ ∀ t, M.step s e = some t → Throughout P t es

theorem Throughout.head {P : σ → Prop} {s : σ} {es : List ε} (h : M.Throughout P s es) : P s := by
  cases es with
  | nil => exact h
  | cons e es => exact h.1

theorem Throughout.last {P : σ → Prop} {s t : σ} {es : List ε} (h : M.Throughout P s es)
    (hRun : M.run s es = some t) : P t := by
  induction es generalizing s with
  | nil => exact Option.some.inj hRun ▸ h
  | cons e es ih =>
    obtain ⟨m, hm, hRun⟩ := M.run_cons_eq_some.mp hRun
    exact ih (h.2 m hm) hRun

/-- An invariant that need only be kept by steps that meet the condition. -/
theorem throughout_of_stepsMeet {I P : σ → Prop} {C : σ → ε → Prop}
    (hInv : ∀ s e t, I s → C s e → M.step s e = some t → I t) (hP : ∀ s, I s → P s)
    {s : σ} {es : List ε} (hI : I s) (h : M.StepsMeet C s es) : M.Throughout P s es := by
  induction es generalizing s with
  | nil => exact hP s hI
  | cons e es ih =>
    refine ⟨hP s hI, fun m hm => ?_⟩
    obtain ⟨hNow, hRest⟩ := h m hm
    exact ih (hInv s e m hI hNow hm) hRest

theorem throughout_of_invariant {I P : σ → Prop}
    (hInv : ∀ s e t, I s → M.step s e = some t → I t) (hP : ∀ s, I s → P s)
    {s : σ} (hI : I s) (es : List ε) : M.Throughout P s es := by
  induction es generalizing s with
  | nil => exact hP s hI
  | cons e es ih => exact ⟨hP s hI, fun m hm => ih (hInv s e m hI hm)⟩

/-- When the condition decides, at each step, whether the property survives it, the runs with
the property in every state are the runs whose steps all meet the condition. The invariant that
this takes need only be kept by steps that meet it. -/
theorem throughout_iff_stepsMeet {I P : σ → Prop} {C : σ → ε → Prop}
    (hInv : ∀ s e t, I s → P s → C s e → M.step s e = some t → I t)
    (hExact : ∀ s e t, I s → P s → M.step s e = some t → (P t ↔ C s e))
    {s : σ} {es : List ε} (hI : I s) (hs : P s) :
    M.Throughout P s es ↔ M.StepsMeet C s es := by
  induction es generalizing s with
  | nil => exact ⟨fun _ => trivial, fun _ => hs⟩
  | cons e es ih =>
    constructor
    · rintro ⟨_, hRest⟩ m hm
      have hP := (hRest m hm).head
      have hNow := (hExact s e m hI hs hm).mp hP
      exact ⟨hNow, (ih (hInv s e m hI hs hNow hm) hP).mp (hRest m hm)⟩
    · intro hC
      refine ⟨hs, fun m hm => ?_⟩
      obtain ⟨hNow, hRest⟩ := hC m hm
      exact (ih (hInv s e m hI hs hNow hm) ((hExact s e m hI hs hm).mpr hNow)).mpr hRest

/-- A relation kept by every step, with the other machine answering by some events, is kept by
every run: the first machine's states are all matched by states the second can reach. -/
theorem run_simulation {δ : Type v} (N : EventMachine τ δ) {R : σ → τ → Prop}
    (hStep : ∀ s e t a, R s a → M.step s e = some t → ∃ ds b, N.run a ds = some b ∧ R t b)
    {s t : σ} {a : τ} {es : List ε} (hs : R s a) (h : M.run s es = some t) :
    ∃ ds b, N.run a ds = some b ∧ R t b := by
  induction es generalizing s a with
  | nil => exact ⟨[], a, rfl, Option.some.inj h ▸ hs⟩
  | cons e es ih =>
    obtain ⟨m, hm, hRun⟩ := M.run_cons_eq_some.mp h
    obtain ⟨ds, b, hds, hb⟩ := hStep s e m a hs hm
    obtain ⟨ds', b', hds', hb'⟩ := ih hb hRun
    refine ⟨ds ++ ds', b', ?_, hb'⟩
    rw [run_append, hds]
    exact hds'

/-- The functional form: an abstraction of the states and an answer to each event. What a step
of the first machine needs may be an invariant of it. -/
theorem run_refines {δ : Type v} (N : EventMachine τ δ) {I : σ → Prop} (abs : σ → τ)
    (answer : ε → List δ)
    (hStep : ∀ s e t, I s → M.step s e = some t → I t ∧ N.run (abs s) (answer e) = some (abs t))
    {s t : σ} {es : List ε} (hs : I s) (h : M.run s es = some t) :
    I t ∧ N.run (abs s) (es.flatMap answer) = some (abs t) := by
  induction es generalizing s with
  | nil =>
    obtain rfl := Option.some.inj h
    exact ⟨hs, rfl⟩
  | cons e es ih =>
    obtain ⟨m, hm, hRun⟩ := M.run_cons_eq_some.mp h
    obtain ⟨hI, hNow⟩ := hStep s e m hs hm
    obtain ⟨ht, hRest⟩ := ih hI hRun
    refine ⟨ht, ?_⟩
    rw [List.flatMap_cons, run_append, hNow]
    exact hRest

end EventMachine
