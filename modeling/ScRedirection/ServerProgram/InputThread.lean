import ScRedirection.ServerProgram

/-! # server.cpp: the input thread

`std::getline` on `std::cin` and the loop around it, which has no exit and looks at no state of the
stream. The content of stdin is given as a whole; a turn waits until its line is there.
-/

namespace ScRedirection.ServerProgram.InputThread

/-- `std::cin` as far as `std::getline` uses it. -/
structure Istream where
  rest : Bytes
  eofbit : Bool := false
  failbit : Bool := false
  deriving DecidableEq, Repr

namespace Istream

def good (cin : Istream) : Bool := !cin.eofbit && !cin.failbit

/-- `std::getline(cin, input)`: the stream and the string it leaves. On a stream that is not good
the string is not touched; else it is erased first, and a line that ends at the end of the content
sets `eofbit`, with `failbit` if nothing was read. -/
def getline (cin : Istream) (input : Bytes) : Istream × Bytes :=
  if cin.good = false then ({ cin with failbit := true }, input)
  else
    let line := cin.rest.takeWhile (· ≠ 10)
    match cin.rest.drop line.length with
    | _ :: rest => ({ cin with rest := rest }, line)
    | [] => ({ rest := [], eofbit := true, failbit := line.isEmpty }, line)

end Istream

/-- The thread after some turns. `late` counts the broadcasts of turns that began with nothing left
to read. -/
structure Thread where
  cin : Istream
  input : Bytes := []
  broadcasts : List Broadcast := []
  late : Nat := 0

def start (content : Bytes) : Thread where
  cin := { rest := content }

/-- One turn of `while (1)`. A broadcast that throws ends the program, and the run with it. -/
def turn (thread : Thread) : Thread :=
  let (cin, input) := thread.cin.getline thread.input
  { cin := cin
    input := input
    broadcasts := thread.broadcasts ++ [.userInput input]
    late := thread.late + if thread.cin.rest = [] then 1 else 0 }

def turns : Nat → Thread → Thread
  | 0, thread => thread
  | n + 1, thread => turns n (turn thread)

/-- The lines of a content, the last one with or without its newline. -/
def linesFrom (line : Bytes) : Bytes → List Bytes
  | [] => if line = [] then [] else [line]
  | c :: rest => if c = 10 then line :: linesFrom [] rest else linesFrom (line ++ [c]) rest

def lines (content : Bytes) : List Bytes := linesFrom [] content

example : lines (bytes "a\n\nb") = [bytes "a", [], bytes "b"] := by decide

example : lines (bytes "a\n") = [bytes "a"] := by decide

/-- The broadcasts so far are those of the first lines, and none was made after the end. -/
def BroadcastsLines (content : Bytes) (thread : Thread) : Prop :=
  thread.broadcasts <+: (lines content).map .userInput ∧ thread.late = 0

/-! ## One turn -/

theorem linesFrom_line {front : Bytes} (hFront : 10 ∉ front) (line rest : Bytes) :
    linesFrom line (front ++ 10 :: rest) = (line ++ front) :: lines rest := by
  induction front generalizing line with
  | nil => simp [linesFrom, lines]
  | cons c front ih =>
    rw [List.mem_cons, not_or] at hFront
    rw [List.cons_append, linesFrom, if_neg (Ne.symm hFront.1), ih hFront.2]
    simp

theorem linesFrom_last {content : Bytes} (hLast : 10 ∉ content) (line : Bytes) :
    linesFrom line content = if line ++ content = [] then [] else [line ++ content] := by
  induction content generalizing line with
  | nil => simp [linesFrom]
  | cons c content ih =>
    rw [List.mem_cons, not_or] at hLast
    rw [linesFrom, if_neg (Ne.symm hLast.1), ih hLast.2]
    simp

theorem takeWhile_line {front : Bytes} (hFront : 10 ∉ front) (rest : Bytes) :
    (front ++ rest).takeWhile (· ≠ 10) = front ++ rest.takeWhile (· ≠ 10) := by
  apply List.takeWhile_append_of_pos
  intro c hc
  rw [decide_eq_true_eq]
  rintro rfl
  exact hFront hc

theorem getline_line {cin : Istream} {front rest : Bytes} (hGood : cin.good = true)
    (hFront : 10 ∉ front) (hRest : cin.rest = front ++ 10 :: rest) (input : Bytes) :
    cin.getline input = ({ cin with rest := rest }, front) := by
  have hTake := takeWhile_line hFront (10 :: rest)
  rw [List.takeWhile_cons, if_neg (by simp), List.append_nil] at hTake
  rw [Istream.getline, hGood, if_neg (by simp), hRest, hTake]
  simp

theorem getline_last {cin : Istream} (hGood : cin.good = true) (hLast : 10 ∉ cin.rest)
    (input : Bytes) :
    cin.getline input =
      ({ rest := [], eofbit := true, failbit := cin.rest.isEmpty }, cin.rest) := by
  have hTake := takeWhile_line hLast []
  rw [List.append_nil, List.takeWhile_nil, List.append_nil] at hTake
  rw [Istream.getline, hGood, if_neg (by simp), hTake]
  simp

/-- The stream is good while there is something to read. -/
def Readable (cin : Istream) : Prop := cin.rest ≠ [] → cin.good = true

theorem turn_line {thread : Thread} (h : Readable thread.cin) (hRest : thread.cin.rest ≠ []) :
    ∃ line, lines thread.cin.rest = line :: lines (turn thread).cin.rest ∧
      (turn thread).broadcasts = thread.broadcasts ++ [.userInput line] ∧
      (turn thread).late = thread.late ∧ Readable (turn thread).cin := by
  have hGood := h hRest
  by_cases hNewline : 10 ∈ thread.cin.rest
  · obtain ⟨front, rest, hSplit, hFront⟩ := List.eq_append_cons_of_mem hNewline
    refine ⟨front, ?_⟩
    rw [turn, getline_line hGood hFront hSplit, if_neg hRest, hSplit, lines,
      linesFrom_line hFront]
    exact ⟨rfl, rfl, rfl, fun _ => hGood⟩
  · refine ⟨thread.cin.rest, ?_⟩
    rw [turn, getline_last hGood hNewline, if_neg hRest, lines, linesFrom_last hNewline,
      List.nil_append, if_neg hRest]
    exact ⟨rfl, rfl, rfl, fun hNone => absurd rfl hNone⟩

theorem turn_end {thread : Thread} (hRest : thread.cin.rest = []) :
    (turn thread).cin.rest = [] ∧ (turn thread).late = thread.late + 1 := by
  rw [turn, if_pos hRest]
  refine ⟨?_, rfl⟩
  rw [Istream.getline]
  split_ifs
  · exact hRest
  · simp [hRest]

/-! ## Every run -/

theorem late_turns (n : Nat) {thread : Thread} (hRest : thread.cin.rest = []) :
    (turns n thread).late = thread.late + n := by
  induction n generalizing thread with
  | zero => rfl
  | succ n ih =>
    obtain ⟨hNext, hLate⟩ := turn_end hRest
    rw [turns, ih hNext, hLate]
    omega

/-- The first turns read the lines; every turn after them is late. -/
theorem turns_eq (n : Nat) {thread : Thread} (h : Readable thread.cin) :
    (turns n thread).late = thread.late + (n - (lines thread.cin.rest).length) ∧
      (n ≤ (lines thread.cin.rest).length → (turns n thread).broadcasts =
        thread.broadcasts ++ ((lines thread.cin.rest).take n).map .userInput) := by
  induction n generalizing thread with
  | zero => simp [turns]
  | succ n ih =>
    by_cases hRest : thread.cin.rest = []
    · rw [late_turns _ hRest, hRest]
      exact ⟨rfl, fun hNone => absurd hNone (by simp [lines, linesFrom])⟩
    · obtain ⟨line, hLines, hBroadcasts, hLate, hReadable⟩ := turn_line h hRest
      obtain ⟨hLateRest, hRead⟩ := ih hReadable
      rw [turns, hLateRest, hLate, hLines, List.length_cons]
      refine ⟨by omega, fun hn => ?_⟩
      rw [hRead (by omega), hBroadcasts, List.take_succ_cons, List.map_cons, List.append_assoc]
      rfl

/-- A run of the thread broadcasts lines and nothing else exactly as long as it takes no more turns
than there are lines. -/
theorem broadcastsLines_iff (content : Bytes) (n : Nat) :
    BroadcastsLines content (turns n (start content)) ↔ n ≤ (lines content).length := by
  have hStart : Readable (start content).cin := fun _ => rfl
  obtain ⟨hLate, hRead⟩ := turns_eq n hStart
  constructor
  · rintro ⟨-, hNone⟩
    rw [hLate] at hNone
    change 0 + (n - (lines content).length) = 0 at hNone
    omega
  · intro hn
    constructor
    · rw [hRead hn]
      exact (List.take_prefix n (lines content)).map _
    · rw [hLate]
      change 0 + (n - (lines content).length) = 0
      omega

/-- One line without a newline at the end of stdin is broadcast in every turn from then on. -/
theorem last_line_repeats :
    ¬ ∀ content n, BroadcastsLines content (turns n (start content)) := by
  intro hAll
  obtain ⟨hPrefix, -⟩ := hAll (bytes "a") 2
  exact absurd hPrefix.length_le (by decide +kernel)

end ScRedirection.ServerProgram.InputThread
