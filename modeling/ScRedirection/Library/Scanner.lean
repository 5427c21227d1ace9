import Mathlib.Data.List.Basic

/-! # Scanners

A scanner takes its input in pieces, as a connection is read. It turns as long as it has input or
does not wait for any, and a turn takes what it can of the input at hand. If every turn can be cut,
the pieces do not matter: what is read of them is what is read of the whole.
-/

universe u v w

structure Scanner (σ : Type u) (β : Type v) (ω : Type w) where
  turn : σ → List β → σ × List β × List ω
  waits : σ → Bool
  /-- A bound on the turns a state and an input can take. -/
  weight : σ → Nat → Nat

namespace Scanner

variable {σ : Type u} {β : Type v} {ω : Type w} (scanner : Scanner σ β ω)

def stopped (s : σ) (input : List β) : Bool := scanner.waits s && input.isEmpty

def run : Nat → σ → List β → σ × List ω
  | 0, s, _ => (s, [])
  | fuel + 1, s, input =>
    if scanner.stopped s input then (s, [])
    else
      let (s', rest, out) := scanner.turn s input
      let (s'', outs) := run fuel s' rest
      (s'', out ++ outs)

def read (s : σ) (input : List β) : σ × List ω :=
  scanner.run (scanner.weight s input.length) s input

def readAll : σ → List (List β) → σ × List ω
  | s, [] => (s, [])
  | s, piece :: pieces =>
    let (s', out) := scanner.read s piece
    let (s'', outs) := readAll s' pieces
    (s'', out ++ outs)

/-- A turn that does the same whatever comes behind its input. -/
def Whole (s : σ) (input more : List β) : Prop :=
  scanner.turn s (input ++ more) =
    ((scanner.turn s input).1, (scanner.turn s input).2.1 ++ more, (scanner.turn s input).2.2)

/-- A turn that takes all of its input and waits, and would have gone on with what comes behind. -/
structure Parted (s : σ) (input more : List β) : Prop where
  rest : (scanner.turn s input).2.1 = []
  waits : scanner.waits (scanner.turn s input).1 = true
  turn : scanner.turn s (input ++ more) =
    ((scanner.turn (scanner.turn s input).1 more).1,
      (scanner.turn (scanner.turn s input).1 more).2.1,
      (scanner.turn s input).2.2 ++ (scanner.turn (scanner.turn s input).1 more).2.2)

/-- The states in `Inv` are kept, every turn gets nearer to the end, and every turn can be cut. -/
structure Lawful (Inv : σ → Prop) : Prop where
  keeps : ∀ s input, Inv s → scanner.stopped s input = false → Inv (scanner.turn s input).1
  nearer : ∀ s input, Inv s → scanner.stopped s input = false →
    scanner.weight (scanner.turn s input).1 (scanner.turn s input).2.1.length <
      scanner.weight s input.length
  cut : ∀ s input more, Inv s → scanner.stopped s input = false → more ≠ [] →
    scanner.Whole s input more ∨ scanner.Parted s input more

namespace Lawful

variable {scanner} {Inv : σ → Prop} (law : scanner.Lawful Inv) {s : σ} {input more : List β}
include law

theorem run_eq {fuel : Nat} (hs : Inv s) (hFuel : scanner.weight s input.length ≤ fuel) :
    scanner.run fuel s input = scanner.read s input := by
  have hRun : ∀ {fuel fuel' : Nat} {s : σ} {input : List β}, Inv s →
      scanner.weight s input.length ≤ fuel → scanner.weight s input.length ≤ fuel' →
      scanner.run fuel s input = scanner.run fuel' s input := by
    intro fuel
    induction fuel with
    | zero =>
      intro fuel' s input hs hFuel _
      have hStopped : scanner.stopped s input = true := by
        by_contra hGoes
        have hLess := law.nearer s input hs (Bool.eq_false_iff.mpr hGoes)
        omega
      cases fuel' with
      | zero => rfl
      | succ fuel' => rw [run, run, if_pos hStopped]
    | succ fuel ih =>
      intro fuel' s input hs hFuel hFuel'
      by_cases hStopped : scanner.stopped s input = true
      · cases fuel' with
        | zero => rw [run, run, if_pos hStopped]
        | succ fuel' => rw [run, run, if_pos hStopped, if_pos hStopped]
      · have hGoes := Bool.eq_false_iff.mpr hStopped
        have hLess := law.nearer s input hs hGoes
        obtain ⟨fuel', rfl⟩ := Nat.exists_eq_succ_of_ne_zero (Nat.ne_zero_of_lt
          (Nat.lt_of_lt_of_le hLess hFuel'))
        rw [run, run, if_neg hStopped, if_neg hStopped]
        have hNext : scanner.run fuel (scanner.turn s input).1 (scanner.turn s input).2.1 =
            scanner.run fuel' (scanner.turn s input).1 (scanner.turn s input).2.1 :=
          ih (law.keeps s input hs hGoes) (by omega) (by omega)
        dsimp only
        rw [hNext]
  exact hRun hs hFuel (Nat.le_refl _)

theorem read_stopped (hs : Inv s) (hStopped : scanner.stopped s input = true) :
    scanner.read s input = (s, []) := by
  have hRun := law.run_eq (s := s) hs (Nat.le_succ (scanner.weight s input.length))
  rw [← hRun, run, if_pos hStopped]

/-- The loop, without its bound. -/
theorem read_turn (hs : Inv s) (hGoes : scanner.stopped s input = false) :
    scanner.read s input =
      ((scanner.read (scanner.turn s input).1 (scanner.turn s input).2.1).1,
        (scanner.turn s input).2.2 ++
          (scanner.read (scanner.turn s input).1 (scanner.turn s input).2.1).2) := by
  have hLess := law.nearer s input hs hGoes
  have hRun := law.run_eq (s := s) hs (Nat.le_succ (scanner.weight s input.length))
  rw [← hRun, run, if_neg (Bool.eq_false_iff.mp hGoes)]
  dsimp only
  rw [law.run_eq (law.keeps s input hs hGoes) (Nat.le_of_lt hLess)]

/-- A property that no turn loses holds of what a read leaves. -/
theorem read_induction {motive : σ → List β → Prop} (goal : σ × List ω → Prop) (hs : Inv s)
    (hStart : motive s input)
    (hTurn : ∀ s input, Inv s → motive s input → scanner.stopped s input = false →
      motive (scanner.turn s input).1 (scanner.turn s input).2.1)
    (hStop : ∀ s input, Inv s → motive s input → scanner.stopped s input = true → goal (s, []))
    (hOut : ∀ s input result, Inv s → motive s input → scanner.stopped s input = false →
      goal result → goal (result.1, (scanner.turn s input).2.2 ++ result.2)) :
    goal (scanner.read s input) := by
  induction hWeight : scanner.weight s input.length using Nat.strongRecOn generalizing s input with
  | ind n ih =>
    by_cases hStopped : scanner.stopped s input = true
    · rw [law.read_stopped hs hStopped]
      exact hStop s input hs hStart hStopped
    · have hGoes := Bool.eq_false_iff.mpr hStopped
      rw [law.read_turn hs hGoes]
      have hLess := law.nearer s input hs hGoes
      exact hOut s input _ hs hStart hGoes (ih _ (hWeight ▸ hLess) (law.keeps s input hs hGoes)
        (hTurn s input hs hStart hGoes) rfl)

theorem read_keeps (hs : Inv s) : Inv (scanner.read s input).1 :=
  law.read_induction (motive := fun s _ => Inv s) (fun result => Inv result.1) hs hs
    (fun s input hs _ hGoes => law.keeps s input hs hGoes) (fun _ _ hs _ _ => hs)
    (fun _ _ _ _ _ _ h => h)

theorem read_waits (hs : Inv s) : scanner.waits (scanner.read s input).1 = true := by
  refine law.read_induction (motive := fun _ _ => True)
    (fun result => scanner.waits result.1 = true) hs trivial (fun _ _ _ _ _ => trivial)
    ?_ (fun _ _ _ _ _ _ h => h)
  intro s input _ _ hStopped
  rw [stopped, Bool.and_eq_true] at hStopped
  exact hStopped.1

theorem read_nil (hs : Inv s) (hWaits : scanner.waits s = true) : scanner.read s [] = (s, []) :=
  law.read_stopped hs (by rw [stopped, hWaits]; rfl)

/-- What is read of two pieces is what is read of them together. -/
theorem read_append (hs : Inv s) :
    scanner.read s (input ++ more) =
      ((scanner.read (scanner.read s input).1 more).1,
        (scanner.read s input).2 ++ (scanner.read (scanner.read s input).1 more).2) := by
  induction hWeight : scanner.weight s input.length using Nat.strongRecOn generalizing s input with
  | ind n ih =>
    by_cases hStopped : scanner.stopped s input = true
    · have hInput : input = [] := by
        rw [stopped, Bool.and_eq_true] at hStopped
        exact List.isEmpty_iff.mp hStopped.2
      rw [law.read_stopped hs hStopped, hInput]
      rfl
    have hGoes := Bool.eq_false_iff.mpr hStopped
    have hLess := law.nearer s input hs hGoes
    have hNext := law.keeps s input hs hGoes
    by_cases hMore : more = []
    · rw [hMore, List.append_nil, law.read_nil (law.read_keeps hs) (law.read_waits hs),
        List.append_nil]
    have hTogether : scanner.stopped s (input ++ more) = false := by
      rw [stopped, Bool.and_eq_false_iff]
      exact .inr (by simp [hMore])
    rw [law.read_turn hs hTogether]
    rcases law.cut s input more hs hGoes hMore with hWhole | hParted
    · rw [hWhole, law.read_turn hs hGoes]
      dsimp only
      rw [ih _ (hWeight ▸ hLess) hNext rfl, List.append_assoc]
    · have hRead : scanner.read s input =
          ((scanner.turn s input).1, (scanner.turn s input).2.2) := by
        rw [law.read_turn hs hGoes, hParted.rest, law.read_nil hNext hParted.waits,
          List.append_nil]
      have hGoesOn : scanner.stopped (scanner.turn s input).1 more = false := by
        rw [stopped, Bool.and_eq_false_iff]
        exact .inr (by simp [hMore])
      rw [hParted.turn, hRead]
      dsimp only
      rw [law.read_turn hNext hGoesOn, List.append_assoc]

/-- However the input is cut, it is read as a whole. -/
theorem readAll_eq (hs : Inv s) (hWaits : scanner.waits s = true) (pieces : List (List β)) :
    scanner.readAll s pieces = scanner.read s pieces.flatten := by
  induction pieces generalizing s with
  | nil => rw [readAll, List.flatten_nil, law.read_nil hs hWaits]
  | cons piece pieces ih =>
    rw [readAll, List.flatten_cons, law.read_append hs,
      ← ih (law.read_keeps hs) (law.read_waits hs)]

end Lawful

end Scanner
