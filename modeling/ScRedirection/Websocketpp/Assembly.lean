import ScRedirection.Websocketpp.WireReading

/-! # Frames and the messages they make

What the bytes of a connection are for: frames, and the messages that are put together from them. A
processor that reads the bytes of frames, however they are cut, does what the assembly says.
-/

namespace ScRedirection.Websocketpp

open Websocketpp.Frame

/-- A frame as it is meant; without a key it is not masked. -/
structure WireFrame where
  opcode : Opcode
  fin : Bool
  key : Option UInt32
  payload : Bytes
  deriving DecidableEq, Repr

def WireFrame.wire (frame : WireFrame) : Bytes :=
  (prepareFrame frame.opcode frame.fin frame.key frame.payload).wire

/-- The data message that is under way. -/
abbrev Assembly := Option WireMessage

namespace Assembly

/-- What the end `server` reads no further than the header of. -/
def refuse (server : Bool) (assembly : Assembly) (frame : WireFrame) : Option ProcessorError :=
  if frame.opcode.isControl ∧ payloadSizeBasic < frame.payload.length then some .controlTooBig
  else if frame.opcode.reserved then some .invalidOpcode
  else if frame.opcode.isControl ∧ frame.fin = false then some .fragmentedControl
  else if assembly.isNone ∧ frame.opcode = .continuation then some .invalidContinuation
  else if assembly.isSome ∧ frame.opcode.isControl = false ∧ frame.opcode ≠ .continuation then
    some .invalidContinuation
  else if server ∧ frame.key.isNone then some .maskingRequired
  else if server = false ∧ frame.key.isSome then some .maskingForbidden
  else none

/-- The message that a data frame goes on with, or starts. -/
def base (assembly : Assembly) (frame : WireFrame) : WireMessage :=
  assembly.getD ⟨frame.opcode, []⟩

/-- The message behind the payload of a data frame. -/
def extend (assembly : Assembly) (frame : WireFrame) : WireMessage :=
  { base assembly frame with payload := (base assembly frame).payload ++ frame.payload }

/-- What a data frame comes to: a text has to stay one that can be completed, and to be complete if
it ends with the frame it starts with. -/
def takeData (maxMessageSize : Nat) (assembly : Assembly) (frame : WireFrame) :
    Except ProcessorError (Assembly × List WireMessage) :=
  let msg := extend assembly frame
  if msg.payload.length % 2 ^ 64 > maxMessageSize then .error .messageTooBig
  else if msg.opcode = .text ∧
      Utf8Validator.advance Utf8Validator.utf8Accept msg.payload = none then
    .error .invalidUtf8
  else if frame.fin = false then .ok (some msg, [])
  else if frame.opcode = .text ∧ Utf8Validator.validate msg.payload = false then
    .error .invalidUtf8
  else .ok (none, [msg])

def take (server : Bool) (maxMessageSize : Nat) (assembly : Assembly) (frame : WireFrame) :
    Except ProcessorError (Assembly × List WireMessage) :=
  match refuse server assembly frame with
  | some error => .error error
  | none =>
    if frame.opcode.isControl then .ok (assembly, [⟨frame.opcode, frame.payload⟩])
    else takeData maxMessageSize assembly frame

end Assembly

namespace Assembly

theorem fin_of_refuse {server : Bool} {assembly : Assembly} {frame : WireFrame}
    (h : refuse server assembly frame = none) (hControl : frame.opcode.isControl = true) :
    frame.fin = true := by
  by_contra hPart
  have hFin := Bool.eq_false_iff.mpr hPart
  simp only [refuse, hControl, hFin, true_and, and_self, if_true] at h
  split_ifs at h

theorem first_of_refuse {server : Bool} {assembly : Assembly} {frame : WireFrame}
    (h : refuse server assembly frame = none) (hText : frame.opcode = .text) :
    assembly = none := by
  by_contra hSome
  have hIs : assembly.isSome = true := Option.isSome_iff_ne_none.mpr hSome
  have hText' : Opcode.isControl .text = false ∧ Opcode.reserved .text = false := by decide
  simp [refuse, hText, hIs, hText'] at h

end Assembly

/-! ## The header of a frame -/

namespace WireFrame

variable (frame : WireFrame)

def basicHeader : BasicHeader :=
  .make frame.opcode frame.payload.length frame.fin frame.key.isSome false

def wirePayload : Bytes :=
  match frame.key with
  | some key => byteMask key 0 frame.payload
  | none => frame.payload

theorem wire_eq : frame.wire = frame.basicHeader.b0 :: frame.basicHeader.b1 ::
    (fields frame.payload.length frame.key ++ frame.wirePayload) := by
  have hHeader := prepareHeader_make frame.opcode frame.payload.length frame.fin false frame.key
  rw [wire, OutMessage.wire]
  exact congrArg (· ++ frame.wirePayload) hHeader

theorem length_wirePayload : frame.wirePayload.length = frame.payload.length := by
  unfold wirePayload
  split
  · rw [byteMask_eq _ 0, Octets.length_mask]
  · rfl

theorem basicValue_toNat_le (size : Nat) :
    (basicValue size).toNat ≤ payloadSizeBasic ↔ size ≤ payloadSizeBasic := by
  unfold basicValue
  split_ifs with hBasic
  · rw [payloadSizeBasic] at hBasic ⊢
    rw [UInt8.toNat_ofNat']
    omega
  · exact iff_of_false (by decide) hBasic
  · exact iff_of_false (by decide) hBasic

theorem invalid_eq_false (op : Opcode) : op.invalid = false := by
  cases op <;> decide

/-- The check of the header is the refusal. -/
theorem validateIncomingBasicHeader_basicHeader (server : Bool) (assembly : Assembly) :
    Hybi13.validateIncomingBasicHeader frame.basicHeader server assembly.isNone =
      Assembly.refuse server assembly frame := by
  have hSize : (payloadSizeBasic < (basicValue frame.payload.length).toNat) ↔
      payloadSizeBasic < frame.payload.length := by
    rw [← Nat.not_le, ← Nat.not_le, basicValue_toNat_le]
  simp only [Hybi13.validateIncomingBasicHeader, basicHeader, getOpcode_make, getBasicSize_make,
    getRsv1_make, getRsv2_make, getRsv3_make, getFin_make, getMasked_make, invalid_eq_false,
    Assembly.refuse, hSize]
  cases assembly <;> cases frame.key <;> cases server <;> cases frame.fin <;> simp

theorem validateIncomingExtendedHeader_fields (hSize : frame.payload.length < 2 ^ 64)
    (rest : Bytes) :
    Hybi13.validateIncomingExtendedHeader frame.basicHeader
      (fields frame.payload.length frame.key ++ rest) = none := by
  have hCode : basicValue frame.payload.length = payloadSizeCode16bit →
      ¬ frame.payload.length ≤ payloadSizeBasic := by
    intro hCode hBasic
    have hLow := (basicValue_toNat_le frame.payload.length).mpr hBasic
    rw [hCode] at hLow
    revert hLow
    decide
  have hJumbo : basicValue frame.payload.length = payloadSizeCode64bit →
      ¬ frame.payload.length ≤ payloadSizeExtended := by
    intro hCode hExtended
    by_cases hBasic : frame.payload.length ≤ payloadSizeBasic
    · have hLow := (basicValue_toNat_le frame.payload.length).mpr hBasic
      rw [hCode] at hLow
      revert hLow
      decide
    · rw [basicValue, if_neg hBasic, if_pos hExtended] at hCode
      revert hCode
      decide
  rw [Hybi13.validateIncomingExtendedHeader, basicHeader, getBasicSize_make,
    getPayloadSize_make _ _ _ _ _ hSize, if_neg fun h => hCode h.1 h.2,
    if_neg fun h => hJumbo h.1 h.2]

theorem getMaskingKey_fields (rest : Bytes) :
    getMaskingKey frame.basicHeader (fields frame.payload.length frame.key ++ rest) =
      frame.key.getD 0 := by
  rw [getMaskingKey, basicHeader, getMasked_make, getMaskingKeyOffset_make, fields]
  cases frame.key with
  | none => rfl
  | some key =>
    have hTake : (keyBytes key ++ rest).take 4 = keyBytes key := List.take_left' rfl
    simp only [Option.isSome_some, if_true, Option.map_some, Option.getD_some, List.append_assoc,
      List.drop_left, hTake, keyOf_keyBytes]

end WireFrame

/-! ## The turns of a frame -/

namespace Hybi13

variable {processor : Hybi13} {frame : WireFrame}

/-- Between two frames. -/
structure Between (processor : Hybi13) : Prop where
  valid : processor.Valid
  state : processor.state = .headerBasic
  needed : processor.bytesNeeded = basicHeaderLength

def assembly (processor : Hybi13) : Assembly := processor.dataMsg.map MsgMetadata.message

theorem isNone_assembly : processor.assembly.isNone = processor.dataMsg.isNone :=
  Option.isNone_map

/-- The processor behind a basic header. -/
def headed (processor : Hybi13) (header : BasicHeader) : Hybi13 :=
  { processor with
    basicHeader := header
    state := .headerExtended
    cursor := 0
    bytesNeeded := getHeaderLen header - basicHeaderLength }

theorem turn_header (h : processor.Between) (header : BasicHeader) (rest : Bytes) :
    processor.turn (header.b0 :: header.b1 :: rest) =
      (validateIncomingBasicHeader header processor.server processor.dataMsg.isNone).elim
        (.ok (processor.headed header, rest)) .error := by
  have hNeeded : processor.bytesNeeded = 2 := h.needed
  have hSome : ¬processor.bytesNeeded = 0 := by omega
  have hDone : ¬processor.bytesNeeded - 2 > 0 := by omega
  have hCopy : processor.copyBasicHeaderBytes (header.b0 :: header.b1 :: rest) =
      ({ processor with basicHeader := header, bytesNeeded := processor.bytesNeeded - 2 }, rest) :=
    (if_neg hSome).trans (if_pos hNeeded)
  rw [turn_headerBasic h.state, hCopy, endBasicHeader, if_neg hDone]
  dsimp only
  cases validateIncomingBasicHeader header processor.server processor.dataMsg.isNone <;> rfl

/-- The processor behind the basic header of a frame. -/
def announced (processor : Hybi13) (frame : WireFrame) : Hybi13 :=
  { processor with
    basicHeader := frame.basicHeader
    state := .headerExtended
    cursor := 0
    bytesNeeded := (fields frame.payload.length frame.key).length }

theorem headed_basicHeader (frame : WireFrame) :
    processor.headed frame.basicHeader = processor.announced frame := by
  rw [headed, announced, WireFrame.basicHeader, getHeaderLen_make, Nat.add_sub_cancel_left]

theorem turn_basicHeader (h : processor.Between) (rest : Bytes) :
    processor.turn (frame.basicHeader.b0 :: frame.basicHeader.b1 :: rest) =
      (Assembly.refuse processor.server processor.assembly frame).elim
        (.ok (processor.announced frame, rest)) .error := by
  rw [turn_header h, ← isNone_assembly, WireFrame.validateIncomingBasicHeader_basicHeader,
    headed_basicHeader]

/-- The processor behind the extended header of a frame, up to the message. -/
def measured (processor : Hybi13) (frame : WireFrame) : Hybi13 :=
  { processor with
    basicHeader := frame.basicHeader
    state := .application
    extendedHeader := fields frame.payload.length frame.key ++
      processor.extendedHeader.drop (fields frame.payload.length frame.key).length
    cursor := (fields frame.payload.length frame.key).length
    bytesNeeded := frame.payload.length }

theorem turn_extendedHeader (processor : Hybi13) (hSize : frame.payload.length < 2 ^ 64)
    (rest : Bytes) :
    (processor.announced frame).turn (fields frame.payload.length frame.key ++ rest) =
      ((processor.measured frame).startPayload frame.opcode (frame.key.getD 0)).map
        fun p => (p, rest) := by
  have hCopy : (processor.announced frame).copyExtendedHeaderBytes
      (fields frame.payload.length frame.key ++ rest) =
      ({ processor.measured frame with state := .headerExtended, bytesNeeded := 0 }, rest) := by
    have hMin : min (processor.announced frame).bytesNeeded
        (fields frame.payload.length frame.key ++ rest).length =
        (fields frame.payload.length frame.key).length := by
      rw [List.length_append]
      exact Nat.min_eq_left (Nat.le_add_right _ _)
    rw [copyExtendedHeaderBytes, hMin, List.take_left, List.drop_left]
    simp [announced, measured, splice]
  rw [turn_headerExtended rfl, hCopy, endExtendedHeader, if_neg (Nat.lt_irrefl 0)]
  dsimp only [measured]
  rw [frame.validateIncomingExtendedHeader_fields hSize, frame.getMaskingKey_fields]
  dsimp only
  rw [WireFrame.basicHeader, getPayloadSize_make _ _ _ _ _ hSize, getOpcode_make]

/-- The data message that a frame goes into. -/
def joined (processor : Hybi13) (frame : WireFrame) : MsgMetadata :=
  { processor.dataMsg.getD { opcode := frame.opcode, preparedKey := 0 } with
    preparedKey := prepareMaskingKey (frame.key.getD 0) }

theorem joined_message : (processor.joined frame).message = processor.assembly.base frame := by
  rw [joined, assembly, Assembly.base]
  cases processor.dataMsg <;> rfl

theorem joined_valid (h : processor.Valid) (hData : frame.opcode.isControl = false) :
    (processor.joined frame).Valid ∧ (processor.joined frame).opcode.isControl = false := by
  have hKey := prepared_prepareMaskingKey (frame.key.getD 0)
  rw [joined]
  cases hMsg : processor.dataMsg with
  | none => exact ⟨⟨⟨_, 0, hKey⟩, fun _ => rfl⟩, hData⟩
  | some msg => exact ⟨⟨⟨_, 0, hKey⟩, (h.data msg hMsg).1.text⟩, (h.data msg hMsg).2⟩

def collecting (processor : Hybi13) (frame : WireFrame) : Hybi13 :=
  { processor.measured frame with
    dataMsg := some (processor.joined frame)
    currentMsg := .data }

/-- The sum that is checked is one of `size_t`. -/
theorem startPayload_measured (hSize : frame.payload.length < 2 ^ 64)
    (hData : frame.opcode.isControl = false) :
    (processor.measured frame).startPayload frame.opcode (frame.key.getD 0) =
      if ((processor.assembly.base frame).payload.length + frame.payload.length) % 2 ^ 64 >
          processor.maxMessageSize then .error .messageTooBig
      else .ok (processor.collecting frame) := by
  rw [startPayload, if_neg (Bool.eq_false_iff.mp hData), assembly, Assembly.base]
  dsimp only [collecting, measured, joined]
  cases processor.dataMsg with
  | none =>
    simp only [Option.map_none, Option.getD_none, List.length_nil, Nat.zero_add,
      Nat.mod_eq_of_lt hSize]
    rfl
  | some msg => rfl

theorem unmask_wirePayload (hHeader : processor.basicHeader = frame.basicHeader) :
    (processor.unmask frame.wirePayload (prepareMaskingKey (frame.key.getD 0))).1 =
      frame.payload := by
  have hMasked : getMasked processor.basicHeader = frame.key.isSome := by
    rw [hHeader, WireFrame.basicHeader, getMasked_make]
  rw [unmask, hMasked, WireFrame.wirePayload]
  cases frame.key with
  | none => rfl
  | some key =>
    simp only [Option.isSome_some, if_true, Option.getD_some]
    rw [byteMaskCirc_fst (prepared_prepareMaskingKey key), byteMask_eq key 0, Octets.mask_mask]

/-- The whole payload of a frame, put behind what there was. -/
theorem appendPayload_wirePayload {msg : MsgMetadata} (hMsg : msg.Valid)
    (hHeader : processor.basicHeader = frame.basicHeader)
    (hKey : msg.preparedKey = prepareMaskingKey (frame.key.getD 0)) :
    if msg.opcode = .text ∧
        Utf8Validator.advance Utf8Validator.utf8Accept (msg.payload ++ frame.payload) = none then
      processor.appendPayload msg frame.wirePayload = none
    else ∃ msg', processor.appendPayload msg frame.wirePayload = some msg' ∧ msg'.Valid ∧
      msg'.message = ⟨msg.opcode, msg.payload ++ frame.payload⟩ := by
  have hUnmask := unmask_wirePayload hHeader
  rw [← hKey] at hUnmask
  have hText : msg.opcode = .text →
      Utf8Validator.advance Utf8Validator.utf8Accept (msg.payload ++ frame.payload) =
        Utf8Validator.advance msg.validator frame.payload := by
    intro hText
    rw [Utf8Validator.advance_append, hMsg.text hText, Option.bind_some]
  split_ifs with hRejected
  · rw [appendPayload]
    dsimp only
    rw [hUnmask, if_pos hRejected.1, ← hText hRejected.1, hRejected.2]
    rfl
  · have hSome : ∃ validator, (if msg.opcode = .text then
        Utf8Validator.advance msg.validator frame.payload else some msg.validator) =
        some validator := by
      by_cases hKind : msg.opcode = .text
      · rw [if_pos hKind, ← hText hKind]
        exact Option.ne_none_iff_exists'.mp fun hNone => hRejected ⟨hKind, hNone⟩
      · rw [if_neg hKind]
        exact ⟨_, rfl⟩
    obtain ⟨validator, hValidator⟩ := hSome
    have hAppend : processor.appendPayload msg frame.wirePayload = some { msg with
        payload := msg.payload ++ frame.payload
        preparedKey := (processor.unmask frame.wirePayload msg.preparedKey).2
        validator := validator } := by
      rw [appendPayload]
      dsimp only
      rw [hUnmask, hValidator]
      rfl
    exact ⟨_, hAppend, (appendPayload_valid hMsg hAppend).1, rfl⟩

/-- The turn that takes the payload of a frame. -/
theorem turn_wirePayload {msg : MsgMetadata} (hState : processor.state = .application)
    (hCurrent : processor.current = some msg) (hMsg : msg.Valid)
    (hNeeded : processor.bytesNeeded = frame.payload.length) (rest : Bytes) :
    processor.turn (frame.wirePayload ++ rest) =
      (processor.appendPayload msg frame.wirePayload).elim (.error .invalidUtf8) fun msg' =>
        (processor.takePayload msg' frame.payload.length).endFrame.map fun p => (p, rest) := by
  have hMin : min processor.bytesNeeded (frame.wirePayload ++ rest).length =
      frame.wirePayload.length := by
    rw [hNeeded, ← frame.length_wirePayload, List.length_append]
    exact Nat.min_eq_left (Nat.le_add_right _ _)
  rw [turn_application hState hCurrent hMsg, hMin, List.take_left, List.drop_left,
    processPayloadBytes_eq hCurrent]
  cases processor.appendPayload msg frame.wirePayload with
  | none => rfl
  | some msg' =>
    have hLeft : ¬(processor.takePayload msg' frame.payload.length).bytesNeeded > 0 := by
      show ¬processor.bytesNeeded - frame.payload.length > 0
      omega
    simp only [Except.bind, afterPayload, Option.elim_some, frame.length_wirePayload]
    rw [if_neg hLeft]

/-! ## A frame, from its first byte to its last -/

/-- The outcome of a frame, and what a processor makes of its bytes. -/
inductive Reads (processor : Hybi13) :
    Except ProcessorError (Assembly × List WireMessage) → Reader × List WireMessage → Prop
  | error (error : ProcessorError) : Reads processor (.error error) (.error error, [])
  | ok {p : Hybi13} (msgs : List WireMessage) (hBetween : p.Between)
      (hServer : p.server = processor.server)
      (hMax : p.maxMessageSize = processor.maxMessageSize) :
      Reads processor (.ok (p.assembly, msgs)) (.ok p, msgs)

theorem Between.read_nil (h : processor.Between) :
    Reader.read (.ok processor) [] = (.ok processor, []) := by
  have hWaits : Reader.waits (.ok processor) = true := by
    show (processor.bytesNeeded != 0) = true
    rw [h.needed]
    rfl
  exact Reader.lawful.read_nil (Reader.valid_ok h.valid) hWaits

/-- A processor that has the payload of a frame to take. -/
structure Measured (processor : Hybi13) (frame : WireFrame) (msg : MsgMetadata) : Prop where
  valid : processor.Valid
  state : processor.state = .application
  current : processor.current = some msg
  msg : msg.Valid
  needed : processor.bytesNeeded = frame.payload.length
  header : processor.basicHeader = frame.basicHeader

section Measured

variable {msg msg' : MsgMetadata} (h : processor.Measured frame msg)
include h

theorem Measured.goes : frame.wirePayload ≠ [] ∨ processor.bytesNeeded = 0 := by
  by_cases hPayload : frame.payload.length = 0
  · exact .inr (h.needed.trans hPayload)
  · left
    rw [← frame.length_wirePayload] at hPayload
    exact List.ne_nil_of_length_pos (Nat.pos_of_ne_zero hPayload)

theorem Measured.turn : processor.turn frame.wirePayload =
    (processor.appendPayload msg frame.wirePayload).elim (.error .invalidUtf8) fun msg' =>
      (processor.takePayload msg' frame.payload.length).endFrame.map fun p => (p, []) := by
  have hTurn := turn_wirePayload h.state h.current h.msg h.needed []
  rwa [List.append_nil] at hTurn

theorem Measured.read_rejected
    (hAppend : processor.appendPayload msg frame.wirePayload = none) :
    Reader.read (.ok processor) frame.wirePayload = (.error .invalidUtf8, []) :=
  Reader.read_of_error h.valid h.goes (by rw [h.turn, hAppend]; rfl)

theorem Measured.endFrame : (processor.takePayload msg' frame.payload.length).endFrame =
    if frame.fin then
      if frame.opcode = .text ∧ msg'.validator ≠ Utf8Validator.utf8Accept then
        .error .invalidUtf8
      else .ok { processor.takePayload msg' frame.payload.length with state := .ready }
    else .ok (processor.takePayload msg' frame.payload.length).resetHeaders := by
  have hHeader : (processor.takePayload msg' frame.payload.length).basicHeader =
      frame.basicHeader := (setCurrent_basicHeader msg').trans h.header
  have hFin : getFin (processor.takePayload msg' frame.payload.length).basicHeader = frame.fin := by
    rw [hHeader, WireFrame.basicHeader, getFin_make]
  have hOpcode : getOpcode (processor.takePayload msg' frame.payload.length).basicHeader =
      frame.opcode := by
    rw [hHeader, WireFrame.basicHeader, getOpcode_make]
  have hCurrent : (processor.takePayload msg' frame.payload.length).current = some msg' :=
    current_setCurrent msg'
  rw [Hybi13.endFrame, finalizeMessage, hFin, hOpcode, hCurrent]

theorem Measured.read_part (hAppend : processor.appendPayload msg frame.wirePayload = some msg')
    (hFin : frame.fin = false) :
    Reader.read (.ok processor) frame.wirePayload =
        (.ok (processor.takePayload msg' frame.payload.length).resetHeaders, []) ∧
      (processor.takePayload msg' frame.payload.length).resetHeaders.Between := by
  have hTurn := h.turn
  rw [hAppend, Option.elim_some, h.endFrame, if_neg (Bool.eq_false_iff.mp hFin)] at hTurn
  have hNext := (h.valid.turned h.goes hTurn).valid (by simp [resetHeaders])
  have hBetween : (processor.takePayload msg' frame.payload.length).resetHeaders.Between :=
    ⟨hNext, rfl, rfl⟩
  rw [Reader.read_of_valid h.valid h.goes hTurn hNext]
  exact ⟨hBetween.read_nil, hBetween⟩

theorem Measured.read_incomplete
    (hAppend : processor.appendPayload msg frame.wirePayload = some msg')
    (hFin : frame.fin = true)
    (hText : frame.opcode = .text ∧ msg'.validator ≠ Utf8Validator.utf8Accept) :
    Reader.read (.ok processor) frame.wirePayload = (.error .invalidUtf8, []) :=
  Reader.read_of_error h.valid h.goes (by
    rw [h.turn, hAppend, Option.elim_some, h.endFrame, if_pos hFin, if_pos hText]
    rfl)

theorem Measured.read_end (hAppend : processor.appendPayload msg frame.wirePayload = some msg')
    (hFin : frame.fin = true)
    (hText : ¬(frame.opcode = .text ∧ msg'.validator ≠ Utf8Validator.utf8Accept)) :
    ∃ p : Hybi13, p.Between ∧ p.server = processor.server ∧
      p.maxMessageSize = processor.maxMessageSize ∧
      p.dataMsg = (if msg'.opcode.isControl then
        (processor.takePayload msg' frame.payload.length).dataMsg else none) ∧
      Reader.read (.ok processor) frame.wirePayload = (.ok p, [msg'.message]) := by
  have hTurn := h.turn
  rw [hAppend, Option.elim_some, h.endFrame, if_pos hFin, if_neg hText] at hTurn
  have hTurned := h.valid.turned h.goes hTurn
  have hReady := hTurned.ready rfl
    (@current_setCurrent processor msg')
  obtain ⟨p, hMessage, hValid, hState, hNeeded, hServer, hMax, hData⟩ := hReady.getMessage
  have hBetween : p.Between := ⟨hValid, hState, hNeeded⟩
  refine ⟨p, hBetween, hServer.trans hTurned.server, hMax.trans hTurned.maxMessageSize, hData, ?_⟩
  rw [Reader.read_of_ok h.valid h.goes hTurn, hMessage]
  dsimp only
  rw [hBetween.read_nil]
  rfl

end Measured

theorem goes_announced {rest : Bytes} : fields frame.payload.length frame.key ++ rest ≠ [] ∨
    (processor.announced frame).bytesNeeded = 0 := by
  by_cases hFields : (fields frame.payload.length frame.key).length = 0
  · exact .inr hFields
  · left
    exact List.append_ne_nil_of_left_ne_nil
      (List.ne_nil_of_length_pos (Nat.pos_of_ne_zero hFields)) _

/-- The processor that has a message for the payload of a frame. -/
theorem measured_of_start {p : Hybi13} {msg : MsgMetadata} (h : (processor.announced frame).Valid)
    (hSize : frame.payload.length < 2 ^ 64)
    (hStart : (processor.measured frame).startPayload frame.opcode (frame.key.getD 0) = .ok p)
    (hState : p.state = .application) (hCurrent : p.current = some msg) (hMsg : msg.Valid)
    (hNeeded : p.bytesNeeded = frame.payload.length) (hHeader : p.basicHeader = frame.basicHeader)
    (rest : Bytes) :
    p.Measured frame msg ∧
      Reader.read (.ok (processor.announced frame))
          (fields frame.payload.length frame.key ++ rest) =
        Reader.read (.ok p) rest := by
  have hTurn := turn_extendedHeader processor hSize rest
  rw [hStart] at hTurn
  have hValid : p.Valid := (h.turned goes_announced hTurn).valid (by simp [hState])
  exact ⟨⟨hValid, hState, hCurrent, hMsg, hNeeded, hHeader⟩,
    Reader.read_of_valid h goes_announced hTurn hValid⟩

theorem read_control (h : (processor.announced frame).Valid)
    (hSize : frame.payload.length < 2 ^ 64) (hControl : frame.opcode.isControl = true)
    (hFin : frame.fin = true) :
    Reads processor (.ok (processor.assembly, [⟨frame.opcode, frame.payload⟩]))
      (Reader.read (.ok (processor.announced frame))
        (fields frame.payload.length frame.key ++ frame.wirePayload)) := by
  have hKey := prepared_prepareMaskingKey (frame.key.getD 0)
  have hText : frame.opcode ≠ .text := by
    intro hText
    rw [hText] at hControl
    cases hControl
  obtain ⟨hMeasured, hRead⟩ := measured_of_start h hSize (if_pos hControl) rfl rfl
    ⟨⟨_, 0, hKey⟩, fun _ => rfl⟩ rfl rfl frame.wirePayload
  have hAppend := appendPayload_wirePayload hMeasured.msg hMeasured.header rfl
  rw [if_neg fun hRejected => hText hRejected.1] at hAppend
  obtain ⟨msg', hAppend, -, hMessage⟩ := hAppend
  obtain ⟨p, hBetween, hServer, hMax, hData, hEnd⟩ :=
    hMeasured.read_end hAppend hFin fun hIncomplete => hText hIncomplete.1
  have hOpcode : msg'.opcode = frame.opcode := congrArg WireMessage.opcode hMessage
  have hAssembly : p.assembly = processor.assembly := by
    rw [assembly, hData, hOpcode, if_pos hControl]
    rfl
  rw [hRead, hEnd, hMessage, ← hAssembly]
  exact .ok _ hBetween hServer hMax

theorem read_data (h : (processor.announced frame).Valid)
    (hSize : frame.payload.length < 2 ^ 64) (hData : frame.opcode.isControl = false)
    (hFirst : frame.opcode = .text → processor.assembly = none) :
    Reads processor (processor.assembly.takeData processor.maxMessageSize frame)
      (Reader.read (.ok (processor.announced frame))
        (fields frame.payload.length frame.key ++ frame.wirePayload)) := by
  have hStart := @startPayload_measured processor frame hSize hData
  have hBase : (processor.joined frame).message = processor.assembly.base frame := joined_message
  have hOpcode : (processor.joined frame).opcode = (processor.assembly.extend frame).opcode :=
    congrArg WireMessage.opcode hBase
  have hPayload : (processor.joined frame).payload ++ frame.payload =
      (processor.assembly.extend frame).payload :=
    congrArg (fun msg => WireMessage.payload msg ++ frame.payload) hBase
  have hLength : (processor.assembly.base frame).payload.length + frame.payload.length =
      (processor.assembly.extend frame).payload.length := List.length_append.symm
  rw [hLength] at hStart
  rw [Assembly.takeData]
  by_cases hBig : (processor.assembly.extend frame).payload.length % 2 ^ 64 >
      processor.maxMessageSize
  · rw [if_pos hBig] at hStart ⊢
    have hTurn := turn_extendedHeader processor hSize frame.wirePayload
    rw [hStart] at hTurn
    rw [Reader.read_of_error h goes_announced hTurn]
    exact .error _
  rw [if_neg hBig] at hStart ⊢
  obtain ⟨hMsg, hKind⟩ := @joined_valid (processor.announced frame) frame h hData
  obtain ⟨hMeasured, hRead⟩ := measured_of_start h hSize hStart rfl rfl hMsg rfl rfl
    frame.wirePayload
  have hAppend := appendPayload_wirePayload hMeasured.msg hMeasured.header rfl
  rw [hOpcode, hPayload] at hAppend
  rw [hRead]
  split_ifs at hAppend with hRejected
  · rw [if_pos hRejected, hMeasured.read_rejected hAppend]
    exact .error _
  obtain ⟨msg', hAppend, hMsg', hMessage⟩ := hAppend
  have hExtend : msg'.message = processor.assembly.extend frame := hMessage
  have hNot : msg'.opcode.isControl = false :=
    (congrArg (fun msg => (WireMessage.opcode msg).isControl) hMessage).trans (hOpcode ▸ hKind)
  rw [if_neg hRejected]
  by_cases hPart : frame.fin = false
  · obtain ⟨hEnd, hBetween⟩ := hMeasured.read_part hAppend hPart
    rw [if_pos hPart, hEnd, ← hExtend]
    exact .ok [] hBetween rfl rfl
  rw [if_neg hPart]
  have hFin := Bool.not_eq_false _ ▸ hPart
  have hCheck : frame.opcode = .text ∧ msg'.validator ≠ Utf8Validator.utf8Accept ↔
      frame.opcode = .text ∧
        Utf8Validator.validate (processor.assembly.extend frame).payload = false := by
    refine and_congr_right fun hText => ?_
    have hNone := hFirst hText
    have hKind : msg'.opcode = .text := by
      refine (congrArg WireMessage.opcode hMessage).trans ?_
      rw [hNone]
      exact hText
    have hWhole : msg'.payload = (processor.assembly.extend frame).payload :=
      congrArg WireMessage.payload hMessage
    rw [← Bool.not_eq_true, ← hWhole, Utf8Validator.validate_eq_advance, hMsg'.text hKind,
      Option.some_inj]
  by_cases hIncomplete : frame.opcode = .text ∧ msg'.validator ≠ Utf8Validator.utf8Accept
  · rw [hMeasured.read_incomplete hAppend hFin hIncomplete, if_pos (hCheck.mp hIncomplete)]
    exact .error _
  · obtain ⟨p, hBetween, hServer, hMax, hNone, hEnd⟩ := hMeasured.read_end hAppend hFin hIncomplete
    have hAssembly : p.assembly = none := by
      rw [assembly, hNone, hNot]
      rfl
    rw [hEnd, if_neg (mt hCheck.mpr hIncomplete), hExtend, ← hAssembly]
    exact .ok _ hBetween hServer hMax

theorem read_wire (h : processor.Between) (hSize : frame.payload.length < 2 ^ 64) :
    Reads processor
      (processor.assembly.take processor.server processor.maxMessageSize frame)
      (Reader.read (.ok processor) frame.wire) := by
  have hFirst := @turn_basicHeader processor frame h
    (fields frame.payload.length frame.key ++ frame.wirePayload)
  have hGoes : frame.wire ≠ [] := by
    rw [frame.wire_eq]
    exact List.cons_ne_nil _ _
  rw [← frame.wire_eq] at hFirst
  rw [Assembly.take]
  cases hRefuse : processor.assembly.refuse processor.server frame with
  | some error =>
    rw [hRefuse] at hFirst
    rw [Reader.read_of_error h.valid (.inl hGoes) hFirst]
    exact .error error
  | none =>
    rw [hRefuse] at hFirst
    have hAnnounced : (processor.announced frame).Valid :=
      (h.valid.turned (.inl hGoes) hFirst).valid (by simp [announced])
    rw [Reader.read_of_valid h.valid (.inl hGoes) hFirst hAnnounced]
    dsimp only
    split_ifs with hControl
    · exact read_control hAnnounced hSize hControl (Assembly.fin_of_refuse hRefuse hControl)
    · have hData := Bool.eq_false_iff.mpr hControl
      exact read_data hAnnounced hSize hData (Assembly.first_of_refuse hRefuse)

end Hybi13

/-! ## Frames in a row -/

namespace Assembly

def takeAll (server : Bool) (maxMessageSize : Nat) :
    Assembly → List WireFrame → Except ProcessorError Assembly × List WireMessage
  | assembly, [] => (.ok assembly, [])
  | assembly, frame :: frames =>
    match assembly.take server maxMessageSize frame with
    | .error error => (.error error, [])
    | .ok (assembly, msgs) =>
      let (result, more) := takeAll server maxMessageSize assembly frames
      (result, msgs ++ more)

variable {server : Bool} {maxMessageSize : Nat} {assembly assembly' : Assembly}

theorem takeAll_append {frames : List WireFrame} {msgs : List WireMessage}
    (h : takeAll server maxMessageSize assembly frames = (.ok assembly', msgs))
    (more : List WireFrame) :
    takeAll server maxMessageSize assembly (frames ++ more) =
      ((takeAll server maxMessageSize assembly' more).1,
        msgs ++ (takeAll server maxMessageSize assembly' more).2) := by
  induction frames generalizing assembly msgs with
  | nil =>
    cases h
    rfl
  | cons frame frames ih =>
    rw [takeAll] at h
    rw [List.cons_append, takeAll]
    cases hTake : assembly.take server maxMessageSize frame with
    | error error =>
      rw [hTake] at h
      cases h
    | ok result =>
      rw [hTake] at h
      dsimp only at h ⊢
      obtain ⟨hResult, rfl⟩ := Prod.mk.inj h
      rw [ih (Prod.ext hResult rfl), List.append_assoc]

end Assembly

namespace Hybi13

/-- The bytes of frames are read as the assembly takes the frames. -/
theorem Between.read_wires {processor : Hybi13} (h : processor.Between) {frames : List WireFrame}
    (hSizes : ∀ frame ∈ frames, frame.payload.length < 2 ^ 64) :
    ∃ reader : Reader, reader.map assembly =
        (processor.assembly.takeAll processor.server processor.maxMessageSize frames).1 ∧
      (∀ p, reader = .ok p → p.Between ∧ p.server = processor.server ∧
        p.maxMessageSize = processor.maxMessageSize) ∧
      Reader.read (.ok processor) (frames.flatMap WireFrame.wire) = (reader,
        (processor.assembly.takeAll processor.server processor.maxMessageSize frames).2) := by
  induction frames generalizing processor with
  | nil =>
    refine ⟨.ok processor, rfl, fun p hp => ?_, h.read_nil⟩
    cases hp
    exact ⟨h, rfl, rfl⟩
  | cons frame frames ih =>
    have hReads := read_wire h (hSizes frame List.mem_cons_self)
    rw [List.flatMap_cons, Reader.read, Reader.lawful.read_append (Reader.valid_ok h.valid),
      ← Reader.read, ← Reader.read, Assembly.takeAll]
    generalize Reader.read (.ok processor) frame.wire = first at hReads ⊢
    generalize processor.assembly.take processor.server processor.maxMessageSize frame = outcome
      at hReads ⊢
    cases hReads with
    | error error =>
      refine ⟨.error error, rfl, fun _ hp => (by cases hp), ?_⟩
      rw [Reader.read_error]
      rfl
    | @ok p msgs hBetween hServer hMax =>
      obtain ⟨reader, hReader, hKeeps, hRead⟩ :=
        ih hBetween fun frame hMem => hSizes frame (List.mem_cons_of_mem _ hMem)
      rw [hServer, hMax] at hReader hKeeps hRead
      refine ⟨reader, hReader, hKeeps, ?_⟩
      rw [hRead]

end Hybi13

end ScRedirection.Websocketpp
