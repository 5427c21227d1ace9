import ScRedirection.Websocketpp.Hybi13

/-! # What a turn of the processor keeps

The states between two turns, and how a turn takes an input that is cut in two.
-/

namespace ScRedirection.Websocketpp

open Websocketpp.Frame

/-- The key is one that `byte_mask_circ` can have left, and the text so far is not rejected. -/
structure MsgMetadata.Valid (msg : MsgMetadata) : Prop where
  prepared : ∃ key i, Prepared key i msg.preparedKey
  text : msg.opcode = .text →
    Utf8Validator.advance Utf8Validator.utf8Accept msg.payload = some msg.validator

namespace Hybi13

variable {processor : Hybi13} {buf more : Bytes}

/-- Where a processor stands between two turns: what it needs is what it has announced. -/
inductive Stage (processor : Hybi13) : Prop
  | headerBasic (hState : processor.state = .headerBasic)
      (hNeeded : processor.bytesNeeded = 1 ∨ processor.bytesNeeded = 2)
  | headerExtended (hState : processor.state = .headerExtended)
      (hNeeded : basicHeaderLength + processor.cursor + processor.bytesNeeded =
        getHeaderLen processor.basicHeader)
  | application (hState : processor.state = .application) {msg : MsgMetadata}
      (hCurrent : processor.current = some msg) (hMsg : msg.Valid)
      (hControl : msg.opcode.isControl = (processor.currentMsg == .control))

structure Valid (processor : Hybi13) : Prop where
  header : processor.extendedHeader.length = maxExtendedHeaderLength
  data : ∀ msg ∈ processor.dataMsg, msg.Valid ∧ msg.opcode.isControl = false
  stage : Stage processor

/-! ## Input that is cut -/

theorem getHeaderLen_le (h : BasicHeader) :
    getHeaderLen h ≤ basicHeaderLength + maxExtendedHeaderLength := by
  unfold getHeaderLen getMaskingKeyOffset maxExtendedHeaderLength
  split_ifs <;> omega

theorem splice_length {header : ExtendedHeader} {cursor : Nat} {bytes : Bytes}
    (h : cursor + bytes.length ≤ header.length) :
    (splice header cursor bytes).length = header.length := by
  simp only [splice, List.length_append, List.length_take, List.length_drop]
  omega

theorem splice_splice {header : ExtendedHeader} {cursor : Nat} {xs ys : Bytes}
    (h : cursor + xs.length ≤ header.length) :
    splice (splice header cursor xs) (cursor + xs.length) ys =
      splice header cursor (xs ++ ys) := by
  have hFront : (header.take cursor ++ xs).length = cursor + xs.length := by
    rw [List.length_append, List.length_take]
    omega
  rw [splice, splice, splice, List.take_left' hFront, ← hFront, List.drop_length_add_append, hFront,
    List.drop_drop]
  simp only [List.append_assoc, List.length_append, Nat.add_assoc]

/-- A basic header that is not complete takes one byte, or is cut behind it. -/
theorem copyBasicHeaderBytes_cut (hNeeded : processor.bytesNeeded = 1 ∨ processor.bytesNeeded = 2)
    (hBuf : buf ≠ []) (hMore : more ≠ []) :
    processor.copyBasicHeaderBytes (buf ++ more) =
        ((processor.copyBasicHeaderBytes buf).1, (processor.copyBasicHeaderBytes buf).2 ++ more) ∨
      (processor.copyBasicHeaderBytes buf).2 = [] ∧
      (processor.copyBasicHeaderBytes buf).1.bytesNeeded = 1 ∧
      (processor.copyBasicHeaderBytes buf).1.state = processor.state ∧
      processor.copyBasicHeaderBytes (buf ++ more) =
        (processor.copyBasicHeaderBytes buf).1.copyBasicHeaderBytes more := by
  obtain ⟨b, buf, rfl⟩ := List.exists_cons_of_ne_nil hBuf
  obtain ⟨m, more, rfl⟩ := List.exists_cons_of_ne_nil hMore
  rcases hNeeded with hOne | hTwo
  · left
    cases buf <;> simp [copyBasicHeaderBytes, hOne]
  · cases buf with
    | nil =>
      right
      cases more <;> simp [copyBasicHeaderBytes, hTwo]
    | cons c buf =>
      left
      simp [copyBasicHeaderBytes, hTwo]

/-- A copy that ends inside the header goes on with the next bytes. -/
theorem copyExtendedHeaderBytes_short (more : Bytes) (hShort : buf.length < processor.bytesNeeded)
    (hFits : processor.cursor + buf.length ≤ processor.extendedHeader.length) :
    processor.copyExtendedHeaderBytes buf =
        ({ processor with
          extendedHeader := splice processor.extendedHeader processor.cursor buf
          cursor := processor.cursor + buf.length
          bytesNeeded := processor.bytesNeeded - buf.length }, []) ∧
      processor.copyExtendedHeaderBytes (buf ++ more) =
        (processor.copyExtendedHeaderBytes buf).1.copyExtendedHeaderBytes more := by
  have hCopy : processor.copyExtendedHeaderBytes buf =
      ({ processor with
        extendedHeader := splice processor.extendedHeader processor.cursor buf
        cursor := processor.cursor + buf.length
        bytesNeeded := processor.bytesNeeded - buf.length }, []) := by
    rw [copyExtendedHeaderBytes, Nat.min_eq_right (Nat.le_of_lt hShort), List.take_length,
      List.drop_length]
  refine ⟨hCopy, ?_⟩
  have hMin : min processor.bytesNeeded (buf ++ more).length =
      buf.length + min (processor.bytesNeeded - buf.length) more.length := by
    rw [List.length_append]
    omega
  rw [hCopy, copyExtendedHeaderBytes, copyExtendedHeaderBytes, hMin, List.take_length_add_append,
    List.drop_length_add_append, ← splice_splice hFits, Nat.add_assoc, Nat.sub_add_eq]

theorem copyExtendedHeaderBytes_enough (more : Bytes)
    (hEnough : processor.bytesNeeded ≤ buf.length) :
    processor.copyExtendedHeaderBytes buf =
        ({ processor with
          extendedHeader := splice processor.extendedHeader processor.cursor
            (buf.take processor.bytesNeeded)
          cursor := processor.cursor + processor.bytesNeeded
          bytesNeeded := 0 }, buf.drop processor.bytesNeeded) ∧
      processor.copyExtendedHeaderBytes (buf ++ more) =
        ((processor.copyExtendedHeaderBytes buf).1,
          (processor.copyExtendedHeaderBytes buf).2 ++ more) := by
  have hLonger : processor.bytesNeeded ≤ (buf ++ more).length := by
    rw [List.length_append]
    omega
  rw [copyExtendedHeaderBytes, copyExtendedHeaderBytes, Nat.min_eq_left hEnough,
    Nat.min_eq_left hLonger, List.take_append_of_le_length hEnough,
    List.drop_append_of_le_length hEnough, Nat.sub_self]
  exact ⟨rfl, rfl⟩

/-! Payload bytes -/

@[simp] theorem current_setCurrent (msg : MsgMetadata) :
    (processor.setCurrent msg).current = some msg := by
  unfold setCurrent
  split <;> rename_i hCurrent <;> simp [current, hCurrent]

/-- The message behind some more of its payload. -/
def appendPayload (processor : Hybi13) (msg : MsgMetadata) (buf : Bytes) :
    Option MsgMetadata :=
  let (bytes, preparedKey) := processor.unmask buf msg.preparedKey
  (if msg.opcode = .text then Utf8Validator.advance msg.validator bytes
    else some msg.validator).map fun validator =>
      { msg with
        payload := msg.payload ++ bytes
        preparedKey := preparedKey
        validator := validator }

def takePayload (processor : Hybi13) (msg : MsgMetadata) (length : Nat) : Hybi13 :=
  { processor.setCurrent msg with bytesNeeded := processor.bytesNeeded - length }

theorem processPayloadBytes_eq {msg : MsgMetadata} (hCurrent : processor.current = some msg) :
    processor.processPayloadBytes buf =
      match processor.appendPayload msg buf with
      | none => .error .invalidUtf8
      | some msg => .ok (processor.takePayload msg buf.length) := by
  rw [processPayloadBytes, hCurrent, appendPayload]
  dsimp only
  cases (if msg.opcode = .text then Utf8Validator.advance msg.validator
    (processor.unmask buf msg.preparedKey).1 else some msg.validator) <;> rfl

theorem unmask_append {key : UInt32} {i : Nat} {preparedKey : UInt64}
    (h : Prepared key i preparedKey) (xs ys : Bytes) :
    processor.unmask (xs ++ ys) preparedKey =
      ((processor.unmask xs preparedKey).1 ++
        (processor.unmask ys (processor.unmask xs preparedKey).2).1,
        (processor.unmask ys (processor.unmask xs preparedKey).2).2) := by
  unfold unmask
  split_ifs
  · exact byteMaskCirc_append h xs ys
  · rfl

theorem unmask_prepared {key : UInt32} {i : Nat} {preparedKey : UInt64}
    (h : Prepared key i preparedKey) (buf : Bytes) :
    ∃ i, Prepared key i (processor.unmask buf preparedKey).2 := by
  unfold unmask
  split_ifs
  · exact ⟨_, h.afterMask buf⟩
  · exact ⟨i, h⟩

theorem appendPayload_append {msg : MsgMetadata} (hMsg : msg.Valid) (xs ys : Bytes) :
    processor.appendPayload msg (xs ++ ys) =
      (processor.appendPayload msg xs).bind fun msg => processor.appendPayload msg ys := by
  obtain ⟨key, i, hKey⟩ := hMsg.prepared
  simp only [appendPayload, unmask_append hKey]
  by_cases hText : msg.opcode = .text
  · rw [if_pos hText, if_pos hText, Utf8Validator.advance_append]
    cases Utf8Validator.advance msg.validator (processor.unmask xs msg.preparedKey).1 with
    | none => rfl
    | some validator =>
      simp [hText]
  · simp [hText]

theorem appendPayload_valid {msg msg' : MsgMetadata} (hMsg : msg.Valid)
    (h : processor.appendPayload msg buf = some msg') :
    msg'.Valid ∧ msg'.opcode = msg.opcode := by
  obtain ⟨key, i, hKey⟩ := hMsg.prepared
  obtain ⟨validator, hValidator, rfl⟩ := Option.map_eq_some_iff.mp h
  refine ⟨⟨⟨key, unmask_prepared hKey buf⟩, fun hText => ?_⟩, rfl⟩
  have hOpcode : msg.opcode = .text := hText
  rw [if_pos hOpcode] at hValidator
  rw [Utf8Validator.advance_append, hMsg.text hOpcode]
  exact hValidator

theorem setCurrent_current {msg : MsgMetadata} (hCurrent : processor.current = some msg) :
    processor.setCurrent msg = processor := by
  obtain ⟨server, size, state, needed, basic, extended, cursor, dataMsg, controlMsg, kind⟩ :=
    processor
  cases kind <;> (cases hCurrent; rfl)

theorem appendPayload_nil {msg : MsgMetadata} (hMsg : msg.Valid) :
    processor.appendPayload msg [] = some msg := by
  obtain ⟨key, i, hKey⟩ := hMsg.prepared
  have hUnmask : processor.unmask [] msg.preparedKey = ([], msg.preparedKey) := by
    unfold unmask
    split_ifs
    · exact Prod.ext rfl ((hKey.afterMask []).unique hKey)
    · rfl
  rw [appendPayload, hUnmask]
  dsimp only
  split_ifs <;> simp [Utf8Validator.advance]

theorem processPayloadBytes_nil {msg : MsgMetadata} (hCurrent : processor.current = some msg)
    (hMsg : msg.Valid) : processor.processPayloadBytes [] = .ok processor := by
  rw [processPayloadBytes_eq hCurrent, appendPayload_nil hMsg]
  exact congrArg Except.ok (by rw [takePayload, setCurrent_current hCurrent]; rfl)

theorem processPayloadBytes_cases {msg : MsgMetadata} (hCurrent : processor.current = some msg)
    (hMsg : msg.Valid) (buf : Bytes) :
    processor.processPayloadBytes buf = .error .invalidUtf8 ∨
      ∃ msg', processor.appendPayload msg buf = some msg' ∧ msg'.Valid ∧
        msg'.opcode = msg.opcode ∧
        processor.processPayloadBytes buf = .ok (processor.takePayload msg' buf.length) := by
  rw [processPayloadBytes_eq hCurrent]
  cases hAppend : processor.appendPayload msg buf with
  | none => exact .inl rfl
  | some msg' =>
    obtain ⟨hValid, hOpcode⟩ := appendPayload_valid hMsg hAppend
    exact .inr ⟨msg', rfl, hValid, hOpcode, rfl⟩

theorem setCurrent_basicHeader (msg : MsgMetadata) :
    (processor.setCurrent msg).basicHeader = processor.basicHeader := by
  unfold setCurrent
  split <;> rfl

theorem appendPayload_takePayload (msg msg' : MsgMetadata) (length : Nat) :
    (processor.takePayload msg length).appendPayload msg' buf =
      processor.appendPayload msg' buf := by
  simp only [appendPayload, unmask, takePayload, setCurrent_basicHeader]

theorem takePayload_takePayload (msg msg' : MsgMetadata) (m n : Nat) :
    (processor.takePayload msg m).takePayload msg' n = processor.takePayload msg' (m + n) := by
  unfold takePayload setCurrent
  cases processor.currentMsg <;> simp [Nat.sub_add_eq]

/-- The payload in two pieces. -/
theorem processPayloadBytes_append {msg : MsgMetadata} (hCurrent : processor.current = some msg)
    (hMsg : msg.Valid) (xs ys : Bytes) :
    processor.processPayloadBytes (xs ++ ys) =
      (processor.processPayloadBytes xs).bind fun p => p.processPayloadBytes ys := by
  rw [processPayloadBytes_eq hCurrent, processPayloadBytes_eq hCurrent,
    appendPayload_append hMsg]
  cases hAppend : processor.appendPayload msg xs with
  | none => rfl
  | some msg' =>
    have hNext : (processor.takePayload msg' xs.length).current = some msg' := by
      rw [takePayload]
      exact current_setCurrent msg'
    rw [Option.bind_some]
    dsimp only [Except.bind]
    rw [processPayloadBytes_eq hNext, appendPayload_takePayload]
    cases processor.appendPayload msg' ys with
    | none => rfl
    | some msg'' => simp only [takePayload_takePayload, List.length_append]

/-- What is left of an application turn when its payload bytes are processed. -/
def afterPayload (buf : Bytes) (processor : Hybi13) : Except ProcessorError (Hybi13 × Bytes) :=
  if processor.bytesNeeded > 0 then .ok (processor, buf)
  else processor.endFrame.map fun p => (p, buf)

theorem turn_application (hState : processor.state = .application) {msg : MsgMetadata}
    (hCurrent : processor.current = some msg) (hMsg : msg.Valid) (buf : Bytes) :
    processor.turn buf =
      (processor.processPayloadBytes (buf.take (min processor.bytesNeeded buf.length))).bind
        (afterPayload (buf.drop (min processor.bytesNeeded buf.length))) := by
  have hProcessed : (if min processor.bytesNeeded buf.length > 0 then
      processor.processPayloadBytes (buf.take (min processor.bytesNeeded buf.length))
      else .ok processor) =
      processor.processPayloadBytes (buf.take (min processor.bytesNeeded buf.length)) := by
    by_cases hNone : min processor.bytesNeeded buf.length > 0
    · exact if_pos hNone
    · rw [if_neg hNone, Nat.eq_zero_of_not_pos hNone, List.take_zero,
        processPayloadBytes_nil hCurrent hMsg]
  rw [turn, hState]
  dsimp only
  rw [hProcessed]
  cases processor.processPayloadBytes (buf.take (min processor.bytesNeeded buf.length)) with
  | error error => rfl
  | ok p =>
    dsimp only [Except.bind, afterPayload]
    split_ifs
    · rfl
    · cases p.endFrame <;> rfl

/-- The end of the basic header, and of the extended one. -/
def endBasicHeader (processor : Hybi13) (buf : Bytes) : Except ProcessorError (Hybi13 × Bytes) :=
  if processor.bytesNeeded > 0 then .ok (processor, buf)
  else match validateIncomingBasicHeader processor.basicHeader processor.server
      processor.dataMsg.isNone with
    | some error => .error error
    | none => .ok ({ processor with
        state := .headerExtended
        cursor := 0
        bytesNeeded := getHeaderLen processor.basicHeader - basicHeaderLength }, buf)

def endExtendedHeader (processor : Hybi13) (buf : Bytes) : Except ProcessorError (Hybi13 × Bytes) :=
  if processor.bytesNeeded > 0 then .ok (processor, buf)
  else match validateIncomingExtendedHeader processor.basicHeader processor.extendedHeader with
    | some error => .error error
    | none =>
      ({ processor with
        state := .application
        bytesNeeded := getPayloadSize processor.basicHeader
          processor.extendedHeader }.startPayload (getOpcode processor.basicHeader)
        (getMaskingKey processor.basicHeader processor.extendedHeader)).map fun p => (p, buf)

theorem turn_headerBasic (hState : processor.state = .headerBasic) (buf : Bytes) :
    processor.turn buf = endBasicHeader (processor.copyBasicHeaderBytes buf).1
      (processor.copyBasicHeaderBytes buf).2 := by
  rw [turn, hState]
  rfl

theorem turn_headerExtended (hState : processor.state = .headerExtended) (buf : Bytes) :
    processor.turn buf = endExtendedHeader (processor.copyExtendedHeaderBytes buf).1
      (processor.copyExtendedHeaderBytes buf).2 := by
  rw [turn, hState]
  dsimp only [endExtendedHeader]
  split_ifs
  · rfl
  · cases validateIncomingExtendedHeader (processor.copyExtendedHeaderBytes buf).1.basicHeader
      (processor.copyExtendedHeaderBytes buf).1.extendedHeader with
    | some error => rfl
    | none =>
      dsimp only
      cases startPayload _ _ _ <;> rfl

/-- Bytes behind those a stage ends with are left alone. -/
def KeepsRest (stage : Bytes → Except ProcessorError (Hybi13 × Bytes)) : Prop :=
  ∀ buf more, stage (buf ++ more) = (stage buf).map fun result => (result.1, result.2 ++ more)

theorem endBasicHeader_rest (processor : Hybi13) : KeepsRest processor.endBasicHeader := by
  intro buf more
  unfold endBasicHeader
  split_ifs
  · rfl
  · cases validateIncomingBasicHeader processor.basicHeader processor.server
      processor.dataMsg.isNone <;> rfl

theorem endExtendedHeader_rest (processor : Hybi13) : KeepsRest processor.endExtendedHeader := by
  intro buf more
  unfold endExtendedHeader
  split_ifs
  · rfl
  · cases validateIncomingExtendedHeader processor.basicHeader processor.extendedHeader with
    | some error => rfl
    | none =>
      dsimp only
      cases startPayload _ _ _ <;> rfl

theorem afterPayload_rest (processor : Hybi13) :
    KeepsRest fun buf => afterPayload buf processor := by
  intro buf more
  dsimp only
  unfold afterPayload
  split_ifs
  · rfl
  · cases processor.endFrame <;> rfl

/-- How a turn takes an input that is cut: it ends before the cut, or it goes on behind it. -/
inductive TurnCut (processor : Hybi13) (buf more : Bytes) : Prop
  | whole (h : processor.turn (buf ++ more) =
      (processor.turn buf).map fun result => (result.1, result.2 ++ more))
  | parted {p : Hybi13} (hTurn : processor.turn buf = .ok (p, []))
      (hNeeds : 0 < p.bytesNeeded) (hState : p.state = processor.state)
      (h : processor.turn (buf ++ more) = p.turn more)

theorem turnCut_headerBasic (hState : processor.state = .headerBasic)
    (hNeeded : processor.bytesNeeded = 1 ∨ processor.bytesNeeded = 2) (hBuf : buf ≠ [])
    (hMore : more ≠ []) : TurnCut processor buf more := by
  rcases copyBasicHeaderBytes_cut hNeeded hBuf hMore with hCopy | ⟨hRest, hOne, hSame, hCopy⟩
  · refine .whole ?_
    rw [turn_headerBasic hState, turn_headerBasic hState, hCopy]
    exact endBasicHeader_rest _ _ _
  · refine .parted (p := (processor.copyBasicHeaderBytes buf).1) ?_ (by omega) hSame ?_
    · rw [turn_headerBasic hState, hRest, endBasicHeader, if_pos (by omega)]
    · rw [turn_headerBasic hState, turn_headerBasic (hSame.trans hState), hCopy]

theorem turnCut_headerExtended (hState : processor.state = .headerExtended)
    (hHeader : processor.extendedHeader.length = maxExtendedHeaderLength)
    (hNeeded : basicHeaderLength + processor.cursor + processor.bytesNeeded =
      getHeaderLen processor.basicHeader) : TurnCut processor buf more := by
  rcases Nat.lt_or_ge buf.length processor.bytesNeeded with hShort | hEnough
  · have hLength := getHeaderLen_le processor.basicHeader
    obtain ⟨hCopy, hTogether⟩ := copyExtendedHeaderBytes_short more hShort (by omega)
    refine .parted (p := (processor.copyExtendedHeaderBytes buf).1) ?_ ?_ ?_ ?_
    · rw [turn_headerExtended hState, hCopy, endExtendedHeader, if_pos]
      exact Nat.sub_pos_of_lt hShort
    · rw [hCopy]
      exact Nat.sub_pos_of_lt hShort
    · rw [hCopy]
    · rw [turn_headerExtended hState, turn_headerExtended (by rw [hCopy]; exact hState), hTogether]
  · refine .whole ?_
    rw [turn_headerExtended hState, turn_headerExtended hState,
      (copyExtendedHeaderBytes_enough more hEnough).2]
    exact endExtendedHeader_rest _ _ _

theorem turnCut_application (hState : processor.state = .application) {msg : MsgMetadata}
    (hCurrent : processor.current = some msg) (hMsg : msg.Valid) :
    TurnCut processor buf more := by
  rcases Nat.lt_or_ge buf.length processor.bytesNeeded with hShort | hEnough
  · have hTogether : min processor.bytesNeeded (buf ++ more).length =
        buf.length + min (processor.bytesNeeded - buf.length) more.length := by
      rw [List.length_append]
      omega
    have hTurn := turn_application hState hCurrent hMsg buf
    rw [Nat.min_eq_right (Nat.le_of_lt hShort), List.take_length, List.drop_length] at hTurn
    have hBoth := turn_application hState hCurrent hMsg (buf ++ more)
    rw [hTogether, List.take_length_add_append, List.drop_length_add_append,
      processPayloadBytes_append hCurrent hMsg] at hBoth
    rcases processPayloadBytes_cases hCurrent hMsg buf with
      hError | ⟨msg', -, hMsg', -, hDone⟩
    · refine .whole ?_
      rw [hBoth, hTurn, hError]
      rfl
    · have hNeeds : 0 < (processor.takePayload msg' buf.length).bytesNeeded :=
        Nat.sub_pos_of_lt hShort
      have hSame : (processor.takePayload msg' buf.length).state = processor.state := by
        unfold takePayload setCurrent
        cases processor.currentMsg <;> rfl
      have hNext : (processor.takePayload msg' buf.length).current = some msg' :=
        current_setCurrent msg'
      refine .parted (p := processor.takePayload msg' buf.length) ?_ hNeeds hSame ?_
      · rw [hTurn, hDone]
        exact if_pos hNeeds
      · rw [hBoth, hDone, turn_application (hSame.trans hState) hNext hMsg']
        rfl
  · have hLonger : processor.bytesNeeded ≤ (buf ++ more).length := by
      rw [List.length_append]
      omega
    refine .whole ?_
    rw [turn_application hState hCurrent hMsg, turn_application hState hCurrent hMsg,
      Nat.min_eq_left hEnough, Nat.min_eq_left hLonger, List.take_append_of_le_length hEnough,
      List.drop_append_of_le_length hEnough]
    cases processor.processPayloadBytes (buf.take processor.bytesNeeded) with
    | error error => rfl
    | ok p => exact afterPayload_rest p _ _

theorem Valid.turnCut (h : processor.Valid) (hGoes : buf ≠ [] ∨ processor.bytesNeeded = 0)
    (hMore : more ≠ []) : TurnCut processor buf more := by
  cases h.stage with
  | headerBasic hState hNeeded =>
    exact turnCut_headerBasic hState hNeeded (hGoes.resolve_right (by omega)) hMore
  | headerExtended hState hNeeded => exact turnCut_headerExtended hState h.header hNeeded
  | application hState hCurrent hMsg => exact turnCut_application hState hCurrent hMsg

/-! ## What a turn leaves -/

/-- A processor with a message to hand out. -/
structure Ready (processor : Hybi13) (msg : MsgMetadata) : Prop where
  state : processor.state = .ready
  current : processor.current = some msg
  header : processor.extendedHeader.length = maxExtendedHeaderLength
  data : ∀ msg ∈ processor.dataMsg, msg.Valid ∧ msg.opcode.isControl = false
  valid : msg.Valid
  control : msg.opcode.isControl = (processor.currentMsg == .control)
  /-- The text is checked to its end if it came in one frame. -/
  complete : getOpcode processor.basicHeader = .text → msg.validator = Utf8Validator.utf8Accept

/-- The turns that a state can take without input. -/
def rank : ProcessorState → Nat
  | .headerExtended => 2
  | .application => 1
  | _ => 0

theorem rank_le (state : ProcessorState) : rank state ≤ 2 := by
  cases state <;> decide

def weight (processor : Hybi13) (length : Nat) : Nat := 3 * length + rank processor.state

/-- What every turn comes to. -/
structure Turned (processor : Hybi13) (buf : Bytes) (p : Hybi13) (rest : Bytes) : Prop where
  keeps : p.Valid ∨ ∃ msg, p.Ready msg
  nearer : p.weight rest.length < processor.weight buf.length
  server : p.server = processor.server
  maxMessageSize : p.maxMessageSize = processor.maxMessageSize

theorem copyBasicHeaderBytes_spec (hNeeded : processor.bytesNeeded = 1 ∨ processor.bytesNeeded = 2)
    (hBuf : buf ≠ []) :
    ∃ header needed rest, processor.copyBasicHeaderBytes buf =
        ({ processor with basicHeader := header, bytesNeeded := needed }, rest) ∧
      needed ≤ 1 ∧ rest.length < buf.length := by
  obtain ⟨b, buf, rfl⟩ := List.exists_cons_of_ne_nil hBuf
  unfold copyBasicHeaderBytes
  rw [if_neg (by omega)]
  cases buf with
  | nil =>
    dsimp only
    split_ifs <;> exact ⟨_, _, _, rfl, by omega, by simp⟩
  | cons c buf =>
    dsimp only
    split_ifs <;>
      exact ⟨_, _, _, rfl, by omega, by simp only [List.length_cons]; omega⟩

theorem turned_headerBasic (h : processor.Valid) (hState : processor.state = .headerBasic)
    (hNeeded : processor.bytesNeeded = 1 ∨ processor.bytesNeeded = 2) (hBuf : buf ≠ [])
    {p : Hybi13} {rest : Bytes} (hTurn : processor.turn buf = .ok (p, rest)) :
    Turned processor buf p rest := by
  obtain ⟨header, needed, rest', hCopy, hLeft, hLength⟩ := copyBasicHeaderBytes_spec hNeeded hBuf
  rw [turn_headerBasic hState, hCopy, endBasicHeader] at hTurn
  dsimp only at hTurn
  split at hTurn
  · cases hTurn
    refine ⟨.inl ⟨h.header, h.data, .headerBasic hState (.inl ?_)⟩, ?_, rfl, rfl⟩
    · show needed = 1
      omega
    · simp only [weight, hState, rank]
      omega
  · split at hTurn
    · cases hTurn
    · cases hTurn
      refine ⟨.inl ⟨h.header, h.data, .headerExtended rfl ?_⟩, ?_, rfl, rfl⟩
      · have hHeader : basicHeaderLength ≤ getHeaderLen header := by
          unfold getHeaderLen
          omega
        show basicHeaderLength + 0 + (getHeaderLen header - basicHeaderLength) = getHeaderLen header
        omega
      · simp only [weight, hState, rank]
        omega

theorem startPayload_spec {op : Opcode} {key : UInt32} {p : Hybi13}
    (h : processor.startPayload op key = .ok p)
    (hData : ∀ msg ∈ processor.dataMsg, msg.Valid ∧ msg.opcode.isControl = false) :
    ∃ msg dataMsg controlMsg currentMsg,
      p = { processor with
        dataMsg := dataMsg, controlMsg := controlMsg, currentMsg := currentMsg } ∧
      p.current = some msg ∧ msg.Valid ∧ msg.opcode.isControl = (p.currentMsg == .control) ∧
      ∀ msg ∈ p.dataMsg, msg.Valid ∧ msg.opcode.isControl = false := by
  have hNew : MsgMetadata.Valid { opcode := op, preparedKey := prepareMaskingKey key } :=
    ⟨⟨key, 0, prepared_prepareMaskingKey key⟩, fun _ => rfl⟩
  unfold startPayload at h
  by_cases hControl : op.isControl = true
  · rw [if_pos hControl] at h
    cases h
    exact ⟨_, _, _, _, rfl, rfl, hNew, hControl, hData⟩
  · have hKind := Bool.eq_false_iff.mpr hControl
    rw [if_neg hControl] at h
    split at h
    · split_ifs at h
      cases h
      refine ⟨_, _, _, _, rfl, rfl, hNew, hKind, fun msg hMsg => ?_⟩
      cases hMsg
      exact ⟨hNew, hKind⟩
    · rename_i msg hSome
      split_ifs at h
      cases h
      obtain ⟨hValid, hNot⟩ := hData msg hSome
      have hNext : MsgMetadata.Valid { msg with preparedKey := prepareMaskingKey key } :=
        ⟨⟨key, 0, prepared_prepareMaskingKey key⟩, hValid.text⟩
      refine ⟨_, _, _, _, rfl, rfl, hNext, hNot, fun msg' hMsg' => ?_⟩
      cases hMsg'
      exact ⟨hNext, hNot⟩

theorem turned_headerExtended (h : processor.Valid) (hState : processor.state = .headerExtended)
    (hNeeded : basicHeaderLength + processor.cursor + processor.bytesNeeded =
      getHeaderLen processor.basicHeader) (hGoes : buf ≠ [] ∨ processor.bytesNeeded = 0)
    {p : Hybi13} {rest : Bytes} (hTurn : processor.turn buf = .ok (p, rest)) :
    Turned processor buf p rest := by
  have hFits := getHeaderLen_le processor.basicHeader
  have hHeader := h.header
  rw [turn_headerExtended hState] at hTurn
  rcases Nat.lt_or_ge buf.length processor.bytesNeeded with hShort | hEnough
  · obtain ⟨hCopy, -⟩ := copyExtendedHeaderBytes_short [] hShort (by omega)
    rw [hCopy, endExtendedHeader, if_pos (Nat.sub_pos_of_lt hShort)] at hTurn
    cases hTurn
    have hBuf : 0 < buf.length := List.length_pos_of_ne_nil (hGoes.resolve_right (by omega))
    refine ⟨.inl ⟨?_, h.data, .headerExtended hState ?_⟩, ?_, rfl, rfl⟩
    · show (splice _ _ _).length = _
      rw [splice_length (by omega), hHeader]
    · show basicHeaderLength + (processor.cursor + buf.length) +
        (processor.bytesNeeded - buf.length) = getHeaderLen processor.basicHeader
      omega
    · simp only [weight, List.length_nil]
      omega
  · obtain ⟨hCopy, -⟩ := copyExtendedHeaderBytes_enough [] hEnough
    rw [hCopy, endExtendedHeader, if_neg (Nat.lt_irrefl 0)] at hTurn
    dsimp only at hTurn
    split at hTurn
    · cases hTurn
    · cases hStart : startPayload _ _ _ with
      | error error =>
        rw [hStart] at hTurn
        cases hTurn
      | ok p' =>
        rw [hStart] at hTurn
        cases hTurn
        obtain ⟨msg, dataMsg, controlMsg, currentMsg, rfl, hCurrent, hMsg, hControl, hData⟩ :=
          startPayload_spec hStart h.data
        refine ⟨.inl ⟨?_, hData, .application rfl hCurrent hMsg hControl⟩, ?_, rfl, rfl⟩
        · show (splice _ _ _).length = _
          rw [splice_length, hHeader]
          rw [List.length_take]
          omega
        · simp only [weight, hState, rank, List.length_drop]
          omega

theorem takePayload_spec {msg : MsgMetadata}
    (hControl : msg.opcode.isControl = (processor.currentMsg == .control))
    (hData : ∀ msg ∈ processor.dataMsg, msg.Valid ∧ msg.opcode.isControl = false)
    {msg' : MsgMetadata} (hMsg' : msg'.Valid) (hOpcode : msg'.opcode = msg.opcode)
    (length : Nat) :
    ∃ dataMsg controlMsg, processor.takePayload msg' length =
        { processor with
          dataMsg := dataMsg, controlMsg := controlMsg,
          bytesNeeded := processor.bytesNeeded - length } ∧
      ∀ msg ∈ dataMsg, msg.Valid ∧ msg.opcode.isControl = false := by
  unfold takePayload setCurrent
  cases hKind : processor.currentMsg with
  | data =>
    refine ⟨_, _, rfl, fun msg'' hMsg'' => ?_⟩
    cases hMsg''
    exact ⟨hMsg', by rw [hOpcode, hControl, hKind]; rfl⟩
  | control => exact ⟨_, _, rfl, hData⟩

theorem turned_application (h : processor.Valid) (hState : processor.state = .application)
    {msg : MsgMetadata} (hCurrent : processor.current = some msg) (hMsg : msg.Valid)
    (hControl : msg.opcode.isControl = (processor.currentMsg == .control))
    (hGoes : buf ≠ [] ∨ processor.bytesNeeded = 0)
    {p : Hybi13} {rest : Bytes} (hTurn : processor.turn buf = .ok (p, rest)) :
    Turned processor buf p rest := by
  rw [turn_application hState hCurrent hMsg] at hTurn
  rcases processPayloadBytes_cases hCurrent hMsg
    (buf.take (min processor.bytesNeeded buf.length)) with hError | ⟨msg', -, hMsg', hOpcode, hDone⟩
  · rw [hError] at hTurn
    cases hTurn
  have hNow : (processor.takePayload msg'
      (buf.take (min processor.bytesNeeded buf.length)).length).current = some msg' :=
    current_setCurrent msg'
  obtain ⟨dataMsg, controlMsg, hTake, hData⟩ := takePayload_spec hControl h.data hMsg' hOpcode
    (buf.take (min processor.bytesNeeded buf.length)).length
  have hKind : msg'.opcode.isControl = (processor.currentMsg == .control) := hOpcode ▸ hControl
  rw [hDone, hTake] at hTurn
  rw [hTake] at hNow
  dsimp only [Except.bind, afterPayload] at hTurn
  rw [List.length_take] at hTurn hNow
  split at hTurn
  · rename_i hLeft
    have hNeeds : processor.bytesNeeded - min processor.bytesNeeded buf.length > 0 := by
      simpa using hLeft
    have hBuf : 0 < buf.length := List.length_pos_of_ne_nil (hGoes.resolve_right (by omega))
    cases hTurn
    refine ⟨.inl ⟨h.header, hData, .application hState hNow hMsg' hKind⟩, ?_, rfl, rfl⟩
    simp only [weight, List.length_drop]
    omega
  · simp only [endFrame] at hTurn
    split at hTurn
    · simp only [finalizeMessage, hNow] at hTurn
      split at hTurn
      · cases hTurn
      · rename_i hComplete
        cases hTurn
        refine ⟨.inr ⟨msg', rfl, hNow, h.header, hData, hMsg', hKind, fun hText => ?_⟩, ?_,
          rfl, rfl⟩
        · by_contra hNot
          exact hComplete ⟨hText, hNot⟩
        · simp only [weight, hState, rank, List.length_drop]
          omega
    · cases hTurn
      refine ⟨.inl ⟨rfl, hData, .headerBasic rfl (.inr rfl)⟩, ?_, rfl, rfl⟩
      simp only [weight, hState, rank, resetHeaders, List.length_drop]
      omega

theorem Valid.turned (h : processor.Valid) (hGoes : buf ≠ [] ∨ processor.bytesNeeded = 0)
    {p : Hybi13} {rest : Bytes} (hTurn : processor.turn buf = .ok (p, rest)) :
    Turned processor buf p rest := by
  cases h.stage with
  | headerBasic hState hNeeded =>
    exact turned_headerBasic h hState hNeeded (hGoes.resolve_right (by omega)) hTurn
  | headerExtended hState hNeeded => exact turned_headerExtended h hState hNeeded hGoes hTurn
  | application hState hCurrent hMsg hControl =>
    exact turned_application h hState hCurrent hMsg hControl hGoes hTurn

theorem endExtendedHeader_ok {p : Hybi13} {rest : Bytes}
    (h : processor.endExtendedHeader buf = .ok (p, rest)) : rest = buf := by
  unfold endExtendedHeader at h
  split_ifs at h
  · cases h
    rfl
  · split at h
    · cases h
    · cases hStart : startPayload _ _ _ with
      | error error =>
        rw [hStart] at h
        cases h
      | ok p' =>
        rw [hStart] at h
        cases h
        rfl

theorem afterPayload_ok {p : Hybi13} {rest : Bytes}
    (h : afterPayload buf processor = .ok (p, rest)) : rest = buf := by
  unfold afterPayload at h
  split_ifs at h
  · cases h
    rfl
  · cases hEnd : processor.endFrame with
    | error error =>
      rw [hEnd] at h
      cases h
    | ok p' =>
      rw [hEnd] at h
      cases h
      rfl

/-- A turn that needs bytes takes one of those that are there. -/
theorem Valid.turn_takes (h : processor.Valid) {p : Hybi13} {rest : Bytes}
    (hTurn : processor.turn buf = .ok (p, rest)) (hBuf : buf ≠ [])
    (hNeeded : 0 < processor.bytesNeeded) : rest.length < buf.length := by
  have hSome : 0 < min processor.bytesNeeded buf.length :=
    Nat.lt_min.mpr ⟨hNeeded, List.length_pos_of_ne_nil hBuf⟩
  cases h.stage with
  | headerBasic hState hNeeded =>
    have hNearer := (h.turned (.inl hBuf) hTurn).nearer
    simp only [weight, hState, rank] at hNearer
    omega
  | headerExtended hState =>
    rw [turn_headerExtended hState] at hTurn
    rw [endExtendedHeader_ok hTurn, copyExtendedHeaderBytes, List.length_drop]
    omega
  | application hState hCurrent hMsg =>
    rw [turn_application hState hCurrent hMsg] at hTurn
    rcases processPayloadBytes_cases hCurrent hMsg
      (buf.take (min processor.bytesNeeded buf.length)) with hError | ⟨msg', -, -, -, hDone⟩
    · rw [hError] at hTurn
      cases hTurn
    · rw [hDone] at hTurn
      rw [afterPayload_ok hTurn, List.length_drop]
      omega

theorem Valid.state_ne_ready (h : processor.Valid) : processor.state ≠ .ready := by
  intro hReady
  cases h.stage with
  | headerBasic hState | headerExtended hState | application hState =>
    rw [hReady] at hState
    cases hState

theorem Turned.valid {p : Hybi13} {rest : Bytes} (h : processor.Turned buf p rest)
    (hState : p.state ≠ .ready) : p.Valid :=
  h.keeps.resolve_right fun ⟨_, hReady⟩ => hState hReady.state

theorem Turned.ready {p : Hybi13} {rest : Bytes} (h : processor.Turned buf p rest)
    (hState : p.state = .ready) {msg : MsgMetadata} (hCurrent : p.current = some msg) :
    p.Ready msg := by
  obtain ⟨msg', hReady⟩ := h.keeps.resolve_left fun hValid => hValid.state_ne_ready hState
  cases hCurrent.symm.trans hReady.current
  exact hReady

/-- A message is handed out once, and the processor waits for a header again. -/
theorem Ready.getMessage {msg : MsgMetadata} (h : processor.Ready msg) :
    ∃ p, processor.getMessage = (p, some msg) ∧ p.Valid ∧ p.state = .headerBasic ∧
      p.bytesNeeded = basicHeaderLength ∧ p.server = processor.server ∧
      p.maxMessageSize = processor.maxMessageSize ∧
      p.dataMsg = if msg.opcode.isControl then processor.dataMsg else none := by
  have hReady : processor.ready = true := by
    rw [ready, h.state]
    rfl
  have hControl := h.control
  rw [Hybi13.getMessage, if_pos hReady, h.current]
  cases hKind : processor.currentMsg with
  | data =>
    rw [hKind] at hControl
    have hData : msg.opcode.isControl = false := hControl
    refine ⟨_, rfl, ⟨rfl, ?_, .headerBasic rfl (.inr rfl)⟩, rfl, rfl, ?_, ?_, ?_⟩
    all_goals simp [hData, resetData, resetHeaders]
  | control =>
    rw [hKind] at hControl
    have hIs : msg.opcode.isControl = true := hControl
    refine ⟨_, rfl, ⟨rfl, ?_, .headerBasic rfl (.inr rfl)⟩, rfl, rfl, ?_, ?_, ?_⟩
    · simp only [hIs, if_true]
      exact h.data
    all_goals simp [hIs, resetControl, resetHeaders]

end Hybi13

end ScRedirection.Websocketpp
