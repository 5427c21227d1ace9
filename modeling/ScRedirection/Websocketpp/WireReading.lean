import ScRedirection.Library.Scanner
import ScRedirection.Websocketpp.Reading
import ScRedirection.Websocketpp.WireConnection

/-! # Reading in pieces

The two loops of a read, that of `handle_read_frame` around that of `consume`, are one scanner with
its messages handed to the handlers: what is delivered, queued and left does not depend on how the
bytes were cut into reads.
-/

namespace ScRedirection.Websocketpp

open Websocketpp.Frame

/-- A processor, or the error that it came to. -/
abbrev Reader := Except ProcessorError Hybi13

namespace Reader

variable {processor : Hybi13} {buf more : Bytes}

/-- One turn of the inner loop, and the message that it ends. -/
def turn (reader : Reader) (buf : Bytes) : Reader × Bytes × List WireMessage :=
  match reader with
  | .error error => (.error error, [], [])
  | .ok processor =>
    match processor.turn buf with
    | .error error => (.error error, [], [])
    | .ok (processor, rest) =>
      (.ok processor.getMessage.1, rest, (processor.getMessage.2.map MsgMetadata.message).toList)

def waits (reader : Reader) : Bool :=
  match reader with
  | .error _ => true
  | .ok processor => processor.bytesNeeded != 0

def weight (reader : Reader) (length : Nat) : Nat :=
  match reader with
  | .error _ => length
  | .ok processor => processor.weight length

def scanner : Scanner Reader UInt8 WireMessage := ⟨turn, waits, weight⟩

@[simp] theorem scanner_turn : scanner.turn = turn := rfl

def Valid (reader : Reader) : Prop := ∀ processor, reader = .ok processor → processor.Valid

theorem valid_ok (h : processor.Valid) : Valid (.ok processor) := by
  intro p hp
  cases hp
  exact h

theorem valid_error (error : ProcessorError) : Valid (.error error) := fun _ h => nomatch h

/-! ## The scanner -/

theorem ready_eq_false (h : processor.Valid) : processor.ready = false :=
  beq_eq_false_iff_ne.mpr h.state_ne_ready

theorem getMessage_of_valid (h : processor.Valid) : processor.getMessage = (processor, none) := by
  rw [Hybi13.getMessage, ready_eq_false h]
  rfl

theorem turn_of_ok {p : Hybi13} {rest : Bytes} (hTurn : processor.turn buf = .ok (p, rest)) :
    turn (.ok processor) buf =
      (.ok p.getMessage.1, rest, (p.getMessage.2.map MsgMetadata.message).toList) := by
  rw [turn, hTurn]

theorem turn_of_error {error : ProcessorError} (hTurn : processor.turn buf = .error error) :
    turn (.ok processor) buf = (.error error, [], []) := by
  rw [turn, hTurn]

theorem goes_iff : scanner.stopped (.ok processor) buf = false ↔
    buf ≠ [] ∨ processor.bytesNeeded = 0 := by
  simp only [Scanner.stopped, scanner, waits, Bool.and_eq_false_iff, bne_eq_false_iff_eq,
    List.isEmpty_eq_false_iff, or_comm]

/-- The processor that reads on behind a turn. -/
theorem turned_getMessage {p : Hybi13} {rest : Bytes} (h : processor.Turned buf p rest) :
    p.getMessage.1.Valid ∧ p.getMessage.1.weight rest.length < processor.weight buf.length ∧
      p.getMessage.1.server = processor.server ∧
      p.getMessage.1.maxMessageSize = processor.maxMessageSize := by
  rcases h.keeps with hValid | ⟨msg, hReady⟩
  · rw [getMessage_of_valid hValid]
    exact ⟨hValid, h.nearer, h.server, h.maxMessageSize⟩
  · obtain ⟨p', hMessage, hValid, hState, -, hServer, hSize, -⟩ := hReady.getMessage
    have hNearer := h.nearer
    rw [Hybi13.weight, hReady.state] at hNearer
    rw [hMessage]
    refine ⟨hValid, ?_, hServer.trans h.server, hSize.trans h.maxMessageSize⟩
    rw [Hybi13.weight, hState]
    exact hNearer

theorem weight_pos (h : processor.Valid) (hGoes : buf ≠ [] ∨ processor.bytesNeeded = 0) :
    0 < processor.weight buf.length := by
  rcases hGoes with hBuf | hNone
  · have hLength := List.length_pos_of_ne_nil hBuf
    rw [Hybi13.weight]
    omega
  · rw [Hybi13.weight]
    cases h.stage with
    | headerBasic hState hNeeded => omega
    | headerExtended hState | application hState =>
      rw [hState, Hybi13.rank]
      omega

/-- An error is the same with more bytes, and then these are not read either. -/
theorem cut_of_whole (hWhole : processor.turn (buf ++ more) =
      (processor.turn buf).map fun result => (result.1, result.2 ++ more)) :
    scanner.Whole (.ok processor) buf more ∨ scanner.Parted (.ok processor) buf more := by
  cases hTurn : processor.turn buf with
  | error error =>
    rw [hTurn] at hWhole
    have hFailed := turn_of_error hTurn
    have hTogether := turn_of_error hWhole
    right
    refine ⟨?_, ?_, ?_⟩
    · rw [scanner_turn, hFailed]
    · rw [scanner_turn, hFailed]
      rfl
    · rw [scanner_turn, hTogether, hFailed]
      rfl
  | ok result =>
    rw [hTurn] at hWhole
    left
    rw [Scanner.Whole, scanner_turn, turn_of_ok hTurn, turn_of_ok hWhole]

theorem parted_of_parted {p : Hybi13} (hValid : p.Valid)
    (hTurn : processor.turn buf = .ok (p, [])) (hNeeds : 0 < p.bytesNeeded)
    (hTogether : processor.turn (buf ++ more) = p.turn more) :
    scanner.Parted (.ok processor) buf more := by
  have hFirst : turn (.ok processor) buf = (.ok p, [], []) := by
    rw [turn_of_ok hTurn, getMessage_of_valid hValid]
    rfl
  refine ⟨?_, ?_, ?_⟩
  · rw [scanner_turn, hFirst]
  · rw [scanner_turn, hFirst]
    exact bne_iff_ne.mpr (Nat.ne_of_gt hNeeds)
  · rw [scanner_turn, hFirst, List.nil_append, turn, turn, hTogether]

theorem lawful : scanner.Lawful Valid where
  keeps reader buf h hGoes := by
    cases reader with
    | error error => exact valid_error error
    | ok processor =>
      have hValid := h processor rfl
      rw [scanner_turn]
      cases hTurn : processor.turn buf with
      | error error =>
        rw [turn_of_error hTurn]
        exact valid_error error
      | ok result =>
        rw [turn_of_ok hTurn]
        exact valid_ok (turned_getMessage (hValid.turned (goes_iff.mp hGoes) hTurn)).1
  nearer reader buf h hGoes := by
    cases reader with
    | error error =>
      have hBuf : buf ≠ [] := by
        rintro rfl
        cases hGoes
      exact List.length_pos_of_ne_nil hBuf
    | ok processor =>
      have hValid := h processor rfl
      have hStart := goes_iff.mp hGoes
      rw [scanner_turn]
      cases hTurn : processor.turn buf with
      | error error =>
        rw [turn_of_error hTurn]
        exact weight_pos hValid hStart
      | ok result =>
        rw [turn_of_ok hTurn]
        exact (turned_getMessage (hValid.turned hStart hTurn)).2.1
  cut reader buf more h hGoes hMore := by
    cases reader with
    | error error => exact .inr ⟨rfl, rfl, rfl⟩
    | ok processor =>
      have hValid := h processor rfl
      cases hValid.turnCut (goes_iff.mp hGoes) hMore with
      | whole hWhole => exact cut_of_whole hWhole
      | @parted p hTurn hNeeds hState hTogether =>
        have hTurned := hValid.turned (goes_iff.mp hGoes) hTurn
        have hNext := hTurned.valid (hState ▸ hValid.state_ne_ready)
        exact .inr (parted_of_parted hNext hTurn hNeeds hTogether)

def read (reader : Reader) (buf : Bytes) : Reader × List WireMessage := scanner.read reader buf

theorem read_error (error : ProcessorError) (buf : Bytes) :
    read (.error error) buf = (.error error, []) := by
  have hNil := lawful.read_nil (s := .error error) (valid_error error) rfl
  by_cases hBuf : buf = []
  · rw [hBuf]
    exact hNil
  · have hGoes : scanner.stopped (.error error) buf = false := by
      rw [Scanner.stopped, Bool.and_eq_false_iff]
      exact .inr (List.isEmpty_eq_false_iff.mpr hBuf)
    rw [read, lawful.read_turn (valid_error error) hGoes]
    exact congrArg (fun result => (result.1, [] ++ result.2)) hNil

/-! What a turn leaves to read -/

theorem read_of_error {error : ProcessorError} (hValid : processor.Valid)
    (hGoes : buf ≠ [] ∨ processor.bytesNeeded = 0) (hTurn : processor.turn buf = .error error) :
    read (.ok processor) buf = (.error error, []) := by
  have hRead := lawful.read_turn (valid_ok hValid) (goes_iff.mpr hGoes)
  rw [scanner_turn, turn_of_error hTurn] at hRead
  exact hRead.trans (congrArg (fun result => (result.1, [] ++ result.2)) (read_error error []))

theorem read_of_ok {p : Hybi13} {rest : Bytes} (hValid : processor.Valid)
    (hGoes : buf ≠ [] ∨ processor.bytesNeeded = 0) (hTurn : processor.turn buf = .ok (p, rest)) :
    read (.ok processor) buf = ((read (.ok p.getMessage.1) rest).1,
      (p.getMessage.2.map MsgMetadata.message).toList ++ (read (.ok p.getMessage.1) rest).2) := by
  have hRead := lawful.read_turn (valid_ok hValid) (goes_iff.mpr hGoes)
  rwa [scanner_turn, turn_of_ok hTurn] at hRead

theorem read_of_valid {p : Hybi13} {rest : Bytes} (hValid : processor.Valid)
    (hGoes : buf ≠ [] ∨ processor.bytesNeeded = 0) (hTurn : processor.turn buf = .ok (p, rest))
    (hNext : p.Valid) : read (.ok processor) buf = read (.ok p) rest := by
  rw [read_of_ok hValid hGoes hTurn, getMessage_of_valid hNext]
  rfl

/-! ## The inner loop -/

/-- What comes of the inner loop, with the message that is taken behind it. -/
inductive Consumed (processor : Hybi13) (buf : Bytes) :
    Except ProcessorError (Hybi13 × Bytes) → Prop
  | error {error : ProcessorError} (h : read (.ok processor) buf = (.error error, [])) :
      Consumed processor buf (.error error)
  | ok {p : Hybi13} {rest : Bytes} (hValid : p.getMessage.1.Valid)
      (hWaits : p.getMessage.1.bytesNeeded ≠ 0) (hRest : rest.length ≤ buf.length)
      (hTakes : buf ≠ [] → 0 < processor.bytesNeeded → rest.length < buf.length)
      (h : read (.ok processor) buf = ((read (.ok p.getMessage.1) rest).1,
        (p.getMessage.2.map MsgMetadata.message).toList ++ (read (.ok p.getMessage.1) rest).2)) :
      Consumed processor buf (.ok (p, rest))

theorem consumed_of_stopped (hValid : processor.Valid)
    (hStops : ¬(buf ≠ [] ∨ processor.bytesNeeded = 0)) :
    Consumed processor buf (.ok (processor, buf)) := by
  push Not at hStops
  obtain ⟨rfl, hNeeds⟩ := hStops
  have hMessage := getMessage_of_valid hValid
  refine .ok ?_ ?_ (Nat.le_refl _) (fun h => absurd rfl h) ?_ <;> rw [hMessage]
  · exact hValid
  · exact hNeeds
  · rfl

/-- A turn that leaves the loop running. -/
theorem Consumed.after {p : Hybi13} {rest : Bytes}
    {result : Except ProcessorError (Hybi13 × Bytes)} (h : Consumed p rest result)
    (hTurn : read (.ok processor) buf = read (.ok p) rest) (hRest : rest.length ≤ buf.length)
    (hTakes : buf ≠ [] → 0 < processor.bytesNeeded → rest.length < buf.length) :
    Consumed processor buf result := by
  cases h with
  | error h => exact .error (hTurn.trans h)
  | ok hValid hWaits hLess hLeft h =>
    refine .ok hValid hWaits (Nat.le_trans hLess hRest) (fun hBuf hNeeded => ?_) (hTurn.trans h)
    exact Nat.lt_of_le_of_lt hLess (hTakes hBuf hNeeded)

theorem consumed_consumeLoop {fuel : Nat} (hValid : processor.Valid)
    (hFuel : processor.weight buf.length ≤ fuel) :
    Consumed processor buf (Hybi13.consumeLoop fuel processor buf) := by
  induction fuel generalizing processor buf with
  | zero =>
    refine consumed_of_stopped hValid fun hGoes => ?_
    have hPos := weight_pos hValid hGoes
    omega
  | succ fuel ih =>
    rw [Hybi13.consumeLoop]
    by_cases hGoes : buf ≠ [] ∨ processor.bytesNeeded = 0
    · have hState : processor.state ≠ .ready ∧ processor.state ≠ .fatalError := by
        cases hValid.stage with
        | headerBasic hAt | headerExtended hAt | application hAt => simp [hAt]
      rw [if_pos ⟨hState.1, hState.2, hGoes⟩]
      cases hResult : processor.turn buf with
      | error error =>
        exact .error (read_of_error hValid hGoes hResult)
      | ok result =>
        obtain ⟨p, rest⟩ := result
        have hTurned := hValid.turned hGoes hResult
        have hNearer := hTurned.nearer
        have hRest : rest.length ≤ buf.length := by
          have hRank := Hybi13.rank_le processor.state
          simp only [Hybi13.weight] at hNearer
          omega
        have hTakes := hValid.turn_takes hResult
        dsimp only
        rcases hTurned.keeps with hNext | ⟨msg, hReady⟩
        · have hTurn := read_of_valid hValid hGoes hResult hNext
          exact (ih hNext (by omega)).after hTurn hRest hTakes
        · have hNow : Hybi13.consumeLoop fuel p rest = .ok (p, rest) := by
            cases fuel with
            | zero => rfl
            | succ fuel => rw [Hybi13.consumeLoop, if_neg fun h => h.1 hReady.state]
          rw [hNow]
          obtain ⟨p', hMessage, hValid', -, hNeeded, -⟩ := hReady.getMessage
          refine .ok ?_ ?_ hRest hTakes (read_of_ok hValid hGoes hResult) <;> rw [hMessage]
          · exact hValid'
          · dsimp only
            rw [hNeeded]
            decide
    · rw [if_neg fun h => hGoes h.2.2]
      exact consumed_of_stopped hValid hGoes

theorem consumed_consume (hValid : processor.Valid) :
    Consumed processor buf (processor.consume buf) := by
  refine consumed_consumeLoop hValid ?_
  have hRank := Hybi13.rank_le processor.state
  rw [Hybi13.weight]
  omega

end Reader

/-! ## The outer loop -/

namespace WireSession

def handleMessages : WireSession → List WireMessage → WireSession × List WireMessage
  | con, [] => (con, [])
  | con, msg :: msgs =>
    let (con, delivered) := con.handleMessage msg
    let (con, more) := handleMessages con msgs
    (con, delivered ++ more)

theorem handleMessages_append (con : WireSession) (msgs more : List WireMessage) :
    con.handleMessages (msgs ++ more) =
      (((con.handleMessages msgs).1.handleMessages more).1,
        (con.handleMessages msgs).2 ++ ((con.handleMessages msgs).1.handleMessages more).2) := by
  induction msgs generalizing con with
  | nil => rfl
  | cons msg msgs ih =>
    rw [List.cons_append, handleMessages, handleMessages]
    dsimp only
    rw [ih, List.append_assoc]

end WireSession

namespace WireConnection

variable {con : WireConnection} {processor : Hybi13} {buf : Bytes}

/-- The messages of a read go to their handlers, then the error that ended it. -/
def conclude (session : WireSession) (result : Reader × List WireMessage) :
    WireConnection × List WireMessage :=
  match result.1 with
  | .error error => (⟨(session.handleMessages result.2).1.failRead error, none⟩,
    (session.handleMessages result.2).2)
  | .ok processor => (⟨(session.handleMessages result.2).1, some processor⟩,
    (session.handleMessages result.2).2)

theorem dispatch_eq (con : WireConnection) (processor : Hybi13) :
    con.dispatch processor =
      conclude con.session (.ok processor.getMessage.1,
        (processor.getMessage.2.map MsgMetadata.message).toList) := by
  rw [dispatch, Hybi13.getMessage]
  by_cases hReady : processor.ready = true
  · rw [if_pos hReady, if_pos hReady]
    cases processor.current with
    | none => rfl
    | some msg => simp [conclude, WireSession.handleMessages]
  · rw [if_neg hReady, if_neg hReady]
    rfl

theorem conclude_append (session : WireSession) (msgs : List WireMessage)
    (result : Reader × List WireMessage) :
    conclude session (result.1, msgs ++ result.2) =
      ((conclude (session.handleMessages msgs).1 result).1,
        (session.handleMessages msgs).2 ++
          (conclude (session.handleMessages msgs).1 result).2) := by
  rw [conclude, conclude, WireSession.handleMessages_append]
  cases result.1 <;> rfl

theorem handleReadLoop_none {fuel : Nat} (hReading : con.reading = none) (buf : Bytes) :
    handleReadLoop fuel con buf = (con, []) := by
  cases fuel with
  | zero => rfl
  | succ fuel =>
    rw [handleReadLoop]
    split_ifs
    · rfl
    · rw [hReading]

theorem conclude_nil (hReading : con.reading = some processor) (hValid : processor.Valid)
    (hWaits : processor.bytesNeeded ≠ 0) :
    (con, []) = conclude con.session (Reader.read (.ok processor) []) := by
  rw [Reader.read, Reader.lawful.read_nil (Reader.valid_ok hValid) (bne_iff_ne.mpr hWaits)]
  obtain ⟨session, reading⟩ := con
  cases hReading
  rfl

theorem handleReadLoop_eq {fuel : Nat} (hReading : con.reading = some processor)
    (hValid : processor.Valid) (hWaits : processor.bytesNeeded ≠ 0) (hFuel : buf.length ≤ fuel) :
    handleReadLoop fuel con buf = conclude con.session (Reader.read (.ok processor) buf) := by
  induction fuel generalizing con processor buf with
  | zero =>
    rw [List.eq_nil_of_length_eq_zero (Nat.le_zero.mp hFuel)]
    exact conclude_nil hReading hValid hWaits
  | succ fuel ih =>
    rw [handleReadLoop]
    split_ifs with hBuf
    · rw [hBuf]
      exact conclude_nil hReading hValid hWaits
    rw [hReading]
    dsimp only
    have hConsumed : Reader.Consumed processor buf (processor.consume buf) :=
      Reader.consumed_consume hValid
    generalize processor.consume buf = result at hConsumed ⊢
    cases hConsumed with
    | error h =>
      rw [h]
      rfl
    | ok hNext hNeeds hRest hTakes h =>
      have hLess := hTakes hBuf (Nat.pos_of_ne_zero hWaits)
      rw [h, conclude_append]
      dsimp only
      rw [dispatch_eq, conclude]
      dsimp only
      rw [ih rfl hNext hNeeds (by omega)]

/-- A read, in one piece. -/
theorem handleReadFrame_eq (hReading : con.reading = some processor) (hValid : processor.Valid)
    (hWaits : processor.bytesNeeded ≠ 0) (buf : Bytes) :
    con.handleReadFrame buf = conclude con.session (Reader.read (.ok processor) buf) :=
  handleReadLoop_eq hReading hValid hWaits (Nat.le_refl _)

theorem handleReadFrame_none (hReading : con.reading = none) (buf : Bytes) :
    con.handleReadFrame buf = (con, []) :=
  handleReadLoop_none hReading buf

/-- What holds between two reads. -/
def Waiting (con : WireConnection) : Prop :=
  ∀ processor ∈ con.reading, processor.Valid ∧ processor.bytesNeeded ≠ 0

theorem waiting_opened (maxMessageSize : Nat) : (opened maxMessageSize).Waiting := by
  intro processor hProcessor
  cases hProcessor
  exact ⟨⟨rfl, fun _ h => (nomatch h), .headerBasic rfl (.inr rfl)⟩, Nat.succ_ne_zero 1⟩

theorem Waiting.handleReadFrame (h : con.Waiting) (buf : Bytes) :
    (con.handleReadFrame buf).1.Waiting := by
  cases hReading : con.reading with
  | none => rwa [handleReadFrame_none hReading]
  | some processor =>
    obtain ⟨hValid, hWaits⟩ := h processor hReading
    have hKeeps : Reader.Valid (Reader.read (.ok processor) buf).1 :=
      Reader.lawful.read_keeps (Reader.valid_ok hValid)
    have hWaits' : Reader.waits (Reader.read (.ok processor) buf).1 = true :=
      Reader.lawful.read_waits (Reader.valid_ok hValid)
    rw [handleReadFrame_eq hReading hValid hWaits, conclude]
    cases hResult : (Reader.read (.ok processor) buf).1 with
    | error error =>
      intro p hp
      cases hp
    | ok p =>
      rw [hResult] at hKeeps hWaits'
      intro p' hp'
      cases hp'
      exact ⟨hKeeps p rfl, bne_iff_ne.mp hWaits'⟩

/-- The reads of a connection, one behind the other. -/
def handleReadFrames : WireConnection → List Bytes → WireConnection × List WireMessage
  | con, [] => (con, [])
  | con, piece :: pieces =>
    let (con, delivered) := con.handleReadFrame piece
    let (con, more) := handleReadFrames con pieces
    (con, delivered ++ more)

theorem handleReadFrame_append (h : con.Waiting) (buf more : Bytes) :
    con.handleReadFrame (buf ++ more) =
      (((con.handleReadFrame buf).1.handleReadFrame more).1,
        (con.handleReadFrame buf).2 ++ ((con.handleReadFrame buf).1.handleReadFrame more).2) := by
  cases hReading : con.reading with
  | none =>
    rw [handleReadFrame_none hReading, handleReadFrame_none hReading]
    dsimp only
    rw [handleReadFrame_none hReading]
    rfl
  | some processor =>
    obtain ⟨hValid, hWaits⟩ := h processor hReading
    have hNext := h.handleReadFrame buf
    have hFirst := handleReadFrame_eq hReading hValid hWaits buf
    rw [handleReadFrame_eq hReading hValid hWaits, Reader.read,
      Reader.lawful.read_append (Reader.valid_ok hValid), ← Reader.read, ← Reader.read,
      conclude_append]
    rw [conclude] at hFirst
    cases hResult : (Reader.read (.ok processor) buf).1 with
    | error error =>
      rw [hResult] at hFirst
      rw [hFirst, Reader.read_error, handleReadFrame_none rfl, conclude]
      rfl
    | ok p =>
      rw [hResult] at hFirst
      rw [hFirst] at hNext ⊢
      obtain ⟨hValid', hWaits'⟩ := hNext p rfl
      rw [handleReadFrame_eq rfl hValid' hWaits']

/-- However the bytes are cut into reads, what is delivered, queued and left is the same. -/
theorem handleReadFrames_eq (h : con.Waiting) (pieces : List Bytes) :
    con.handleReadFrames pieces = con.handleReadFrame pieces.flatten := by
  induction pieces generalizing con with
  | nil =>
    rw [handleReadFrames, List.flatten_nil]
    rfl
  | cons piece pieces ih =>
    rw [handleReadFrames, List.flatten_cons, handleReadFrame_append h,
      ← ih (h.handleReadFrame piece)]

end WireConnection

end ScRedirection.Websocketpp
