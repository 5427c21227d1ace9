import ScRedirection.Websocketpp.Frame
import ScRedirection.Websocketpp.Utf8

/-! # hybi13.hpp

The processor of a connection: it takes the bytes that were read, in whatever pieces they come, and
puts the frames of a message together. The build configures no permessage-deflate, so no message
is compressed and rsv1 is never allowed; `size_t` has eight bytes.
-/

namespace ScRedirection.Websocketpp

open Websocketpp.Frame

/-- The codes of `processor::error` that a frame can end in. `nullMessage` is no code: there the
processor would follow a null pointer. -/
inductive ProcessorError
  | general
  | messageTooBig
  | invalidPayload
  | invalidOpcode
  | controlTooBig
  | invalidRsvBit
  | fragmentedControl
  | invalidContinuation
  | maskingRequired
  | maskingForbidden
  | nonMinimalEncoding
  | invalidUtf8
  | reservedCloseCode
  | invalidCloseCode
  | reasonRequiresCode
  | nullMessage
  deriving DecidableEq, Repr

inductive ProcessorState
  | headerBasic
  | headerExtended
  | extension
  | application
  | ready
  | fatalError
  deriving DecidableEq, Repr

/-- A message that is read, and its `msg_metadata`. -/
structure MsgMetadata where
  opcode : Opcode
  payload : Bytes := []
  preparedKey : UInt64
  validator : Nat := Utf8Validator.utf8Accept
  deriving DecidableEq, Repr

inductive CurrentMsg
  | data
  | control
  deriving DecidableEq, Repr

/-- The processor; a message is `none` while its pointer is null. -/
structure Hybi13 where
  server : Bool
  maxMessageSize : Nat
  state : ProcessorState := .headerBasic
  bytesNeeded : Nat := basicHeaderLength
  basicHeader : BasicHeader := {}
  extendedHeader : ExtendedHeader := .empty
  cursor : Nat := 0
  dataMsg : Option MsgMetadata := none
  controlMsg : Option MsgMetadata := none
  currentMsg : CurrentMsg := .data
  deriving DecidableEq, Repr

namespace Hybi13

def resetHeaders (processor : Hybi13) : Hybi13 :=
  { processor with
    state := .headerBasic
    bytesNeeded := basicHeaderLength
    basicHeader := {}
    extendedHeader := .empty }

def current (processor : Hybi13) : Option MsgMetadata :=
  match processor.currentMsg with
  | .data => processor.dataMsg
  | .control => processor.controlMsg

def setCurrent (processor : Hybi13) (msg : MsgMetadata) : Hybi13 :=
  match processor.currentMsg with
  | .data => { processor with dataMsg := some msg }
  | .control => { processor with controlMsg := some msg }

def ready (processor : Hybi13) : Bool := processor.state == .ready

/-! ## Reading -/

def copyBasicHeaderBytes (processor : Hybi13) (buf : Bytes) : Hybi13 × Bytes :=
  if processor.bytesNeeded = 0 then (processor, buf)
  else match buf with
    | [] => (processor, [])
    | [b] =>
      if processor.bytesNeeded = 2 then
        ({ processor with
          basicHeader := { processor.basicHeader with b0 := b }
          bytesNeeded := processor.bytesNeeded - 1 }, [])
      else
        ({ processor with
          basicHeader := { processor.basicHeader with b1 := b }
          bytesNeeded := processor.bytesNeeded - 1 }, [])
    | b :: c :: rest =>
      if processor.bytesNeeded = 2 then
        ({ processor with
          basicHeader := ⟨b, c⟩
          bytesNeeded := processor.bytesNeeded - 2 }, rest)
      else
        ({ processor with
          basicHeader := { processor.basicHeader with b1 := b }
          bytesNeeded := processor.bytesNeeded - 1 }, c :: rest)

/-- `std::copy` into the header. -/
def splice (header : ExtendedHeader) (cursor : Nat) (bytes : Bytes) : ExtendedHeader :=
  header.take cursor ++ bytes ++ header.drop (cursor + bytes.length)

def copyExtendedHeaderBytes (processor : Hybi13) (buf : Bytes) : Hybi13 × Bytes :=
  let bytesToRead := min processor.bytesNeeded buf.length
  ({ processor with
    extendedHeader := splice processor.extendedHeader processor.cursor (buf.take bytesToRead)
    cursor := processor.cursor + bytesToRead
    bytesNeeded := processor.bytesNeeded - bytesToRead }, buf.drop bytesToRead)

def validateIncomingBasicHeader (h : BasicHeader) (isServer newMsg : Bool) :
    Option ProcessorError :=
  let op := getOpcode h
  if op.isControl && payloadSizeBasic < (getBasicSize h).toNat then some .controlTooBig
  else if getRsv1 h then some .invalidRsvBit
  else if getRsv2 h || getRsv3 h then some .invalidRsvBit
  else if op.reserved then some .invalidOpcode
  else if op.invalid then some .invalidOpcode
  else if op.isControl && !getFin h then some .fragmentedControl
  else if newMsg && op == .continuation then some .invalidContinuation
  else if !newMsg && !op.isControl && op != .continuation then some .invalidContinuation
  else if isServer && !getMasked h then some .maskingRequired
  else if !isServer && getMasked h then some .maskingForbidden
  else none

def validateIncomingExtendedHeader (h : BasicHeader) (e : ExtendedHeader) :
    Option ProcessorError :=
  let basicSize := getBasicSize h
  let payloadSize := getPayloadSize h e
  if basicSize = payloadSizeCode16bit ∧ payloadSize ≤ payloadSizeBasic then
    some .nonMinimalEncoding
  else if basicSize = payloadSizeCode64bit ∧ payloadSize ≤ payloadSizeExtended then
    some .nonMinimalEncoding
  else none

/-- The message that a frame of `op` goes into: a control message of its own, a new data message,
or the data message that it continues. The last sum is one of `size_t`. -/
def startPayload (processor : Hybi13) (op : Opcode) (key : UInt32) :
    Except ProcessorError Hybi13 :=
  if op.isControl then
    .ok { processor with
      controlMsg := some { opcode := op, preparedKey := prepareMaskingKey key }
      currentMsg := .control }
  else match processor.dataMsg with
    | none =>
      if processor.bytesNeeded > processor.maxMessageSize then .error .messageTooBig
      else .ok { processor with
        dataMsg := some { opcode := op, preparedKey := prepareMaskingKey key }
        currentMsg := .data }
    | some msg =>
      if (msg.payload.length + processor.bytesNeeded) % 2 ^ 64 > processor.maxMessageSize then
        .error .messageTooBig
      else .ok { processor with
        dataMsg := some { msg with preparedKey := prepareMaskingKey key }
        currentMsg := .data }

def unmask (processor : Hybi13) (buf : Bytes) (preparedKey : UInt64) : Bytes × UInt64 :=
  if getMasked processor.basicHeader then byteMaskCirc buf preparedKey else (buf, preparedKey)

def processPayloadBytes (processor : Hybi13) (buf : Bytes) : Except ProcessorError Hybi13 :=
  match processor.current with
  | none => .error .nullMessage
  | some msg =>
    let (bytes, preparedKey) := processor.unmask buf msg.preparedKey
    let validator :=
      if msg.opcode = .text then Utf8Validator.advance msg.validator bytes else some msg.validator
    match validator with
    | none => .error .invalidUtf8
    | some validator =>
      .ok { processor.setCurrent { msg with
          payload := msg.payload ++ bytes
          preparedKey := preparedKey
          validator := validator } with
        bytesNeeded := processor.bytesNeeded - buf.length }

/-- The check of the text looks at the opcode of the last frame. -/
def finalizeMessage (processor : Hybi13) : Except ProcessorError Hybi13 :=
  match processor.current with
  | none => .error .nullMessage
  | some msg =>
    if getOpcode processor.basicHeader = .text ∧ msg.validator ≠ Utf8Validator.utf8Accept then
      .error .invalidUtf8
    else .ok { processor with state := .ready }

/-- The end of a frame. -/
def endFrame (processor : Hybi13) : Except ProcessorError Hybi13 :=
  if getFin processor.basicHeader then processor.finalizeMessage else .ok processor.resetHeaders

/-- The body of the loop of `consume`, and what it leaves of the input. -/
def turn (processor : Hybi13) (buf : Bytes) : Except ProcessorError (Hybi13 × Bytes) :=
  match processor.state with
  | .headerBasic =>
    let (processor, buf) := processor.copyBasicHeaderBytes buf
    if processor.bytesNeeded > 0 then .ok (processor, buf)
    else match validateIncomingBasicHeader processor.basicHeader processor.server
        processor.dataMsg.isNone with
      | some error => .error error
      | none => .ok ({ processor with
          state := .headerExtended
          cursor := 0
          bytesNeeded := getHeaderLen processor.basicHeader - basicHeaderLength }, buf)
  | .headerExtended =>
    let (processor, buf) := processor.copyExtendedHeaderBytes buf
    if processor.bytesNeeded > 0 then .ok (processor, buf)
    else match validateIncomingExtendedHeader processor.basicHeader processor.extendedHeader with
      | some error => .error error
      | none =>
        let processor := { processor with
          state := .application
          bytesNeeded := getPayloadSize processor.basicHeader processor.extendedHeader }
        match processor.startPayload (getOpcode processor.basicHeader)
            (getMaskingKey processor.basicHeader processor.extendedHeader) with
        | .error error => .error error
        | .ok processor => .ok (processor, buf)
  | .extension => .ok ({ processor with state := .application }, buf)
  | .application =>
    let bytesToProcess := min processor.bytesNeeded buf.length
    let processed :=
      if bytesToProcess > 0 then processor.processPayloadBytes (buf.take bytesToProcess)
      else .ok processor
    match processed with
    | .error error => .error error
    | .ok processor =>
      let buf := buf.drop bytesToProcess
      if processor.bytesNeeded > 0 then .ok (processor, buf)
      else match processor.endFrame with
        | .error error => .error error
        | .ok processor => .ok (processor, buf)
  | .ready | .fatalError => .error .general

/-- `while (m_state != READY && m_state != FATAL_ERROR && (p < len || m_bytes_needed == 0))`, with
a bound on the number of turns. -/
def consumeLoop : Nat → Hybi13 → Bytes → Except ProcessorError (Hybi13 × Bytes)
  | 0, processor, buf => .ok (processor, buf)
  | fuel + 1, processor, buf =>
    if processor.state ≠ .ready ∧ processor.state ≠ .fatalError ∧
        (buf ≠ [] ∨ processor.bytesNeeded = 0) then
      match processor.turn buf with
      | .error error => .error error
      | .ok (processor, buf) => consumeLoop fuel processor buf
    else .ok (processor, buf)

def consume (processor : Hybi13) (buf : Bytes) : Except ProcessorError (Hybi13 × Bytes) :=
  consumeLoop (3 * buf.length + 3) processor buf

def resetControl (processor : Hybi13) : Hybi13 := { processor with controlMsg := none }

def resetData (processor : Hybi13) : Hybi13 := { processor with dataMsg := none }

/-- The message that is ready, and the processor without it. -/
def getMessage (processor : Hybi13) : Hybi13 × Option MsgMetadata :=
  if processor.ready then
    let ret := processor.current
    let processor :=
      match processor.currentMsg with
      | .data => processor.resetData
      | .control => processor.resetControl
    let processor :=
      match ret with
      | some msg => if msg.opcode.isControl then processor.resetControl else processor.resetData
      | none => processor
    (processor.resetHeaders, ret)
  else (processor, none)

end Hybi13

/-! ## Writing -/

/-- A message that was prepared for the wire. -/
structure OutMessage where
  header : Bytes
  payload : Bytes
  opcode : Opcode
  terminal : Bool := false
  deriving DecidableEq, Repr

def OutMessage.wire (msg : OutMessage) : Bytes := msg.header ++ msg.payload

/-- The header and the payload of a frame; the key is there if the frame is masked. -/
def prepareFrame (op : Opcode) (fin : Bool) (maskingKey : Option UInt32) (payload : Bytes) :
    OutMessage where
  header := prepareHeader (.make op payload.length fin maskingKey.isSome false)
    (.make payload.length maskingKey)
  payload := match maskingKey with
    | some key => byteMask key 0 payload
    | none => payload
  opcode := op

/-- `prepare_data_frame`. A server masks nothing; a client takes its key from the generator. -/
def prepareDataFrame (server : Bool) (rng : UInt32) (op : Opcode) (fin : Bool) (payload : Bytes) :
    Except ProcessorError OutMessage :=
  if op.isControl then .error .invalidOpcode
  else if op = .text ∧ Utf8Validator.validate payload = false then .error .invalidPayload
  else .ok (prepareFrame op fin (if server then none else some rng) payload)

def prepareControl (server : Bool) (rng : UInt32) (op : Opcode) (payload : Bytes) :
    Except ProcessorError OutMessage :=
  if op.isControl = false then .error .invalidOpcode
  else if payload.length > payloadSizeBasic then .error .controlTooBig
  else .ok (prepareFrame op true (if server then none else some rng) payload)

end ScRedirection.Websocketpp
