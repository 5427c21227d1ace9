import ScRedirection.Websocketpp.Endpoint
import ScRedirection.Websocketpp.Hybi13

/-! # connection_impl.hpp and close.hpp

A connection of the server behind its handshake: frames that are read, messages that are queued and
written, the close handshake. Writes are handed to the transport one batch at a time. Logging and
the local close code it reports, the timers themselves and reads that are paused are left out.
-/

namespace ScRedirection.Websocketpp

open Websocketpp.Frame

/-! ## Close codes -/

namespace Close

abbrev Status := Nat

def blank : Status := 0

def normal : Status := 1000

def protocolError : Status := 1002

def noStatus : Status := 1005

def abnormalClose : Status := 1006

def invalidPayload : Status := 1007

def policyViolation : Status := 1008

def messageTooBig : Status := 1009

def internalEndpointError : Status := 1011

def tlsHandshake : Status := 1015

def reserved (code : Status) : Bool :=
  1016 ≤ code && code ≤ 2999 || code == 1004 || code == 1014

def invalid (code : Status) : Bool :=
  code ≤ 999 || 5000 ≤ code || code == noStatus || code == abnormalClose || code == tlsHandshake

def terminal (code : Status) : Bool :=
  code == protocolError || code == invalidPayload || code == policyViolation ||
    code == messageTooBig || code == internalEndpointError

/-- The code and whether it is a good one. -/
def extractCode (payload : Bytes) : Status × Bool :=
  match payload with
  | [] => (noStatus, true)
  | [_] => (protocolError, false)
  | c₀ :: c₁ :: _ =>
    let code := Octets.ofBigEndian [c₀, c₁]
    (code, !invalid code && !reserved code)

/-- The reason and whether it is UTF-8. -/
def extractReason (payload : Bytes) : Bytes × Bool :=
  let reason := payload.drop 2
  (reason, Utf8Validator.validate reason)

end Close

namespace ProcessorError

/-- `to_ws`. -/
def toWs : ProcessorError → Close.Status
  | controlTooBig | invalidOpcode | invalidRsvBit | fragmentedControl | invalidContinuation
  | maskingRequired | maskingForbidden | reservedCloseCode | invalidCloseCode =>
    Close.protocolError
  | invalidPayload | invalidUtf8 => Close.invalidPayload
  | messageTooBig => Close.messageTooBig
  | general | nonMinimalEncoding | reasonRequiresCode | nullMessage => Close.internalEndpointError

def message : ProcessorError → Bytes
  | general => bytes "Generic processor error"
  | messageTooBig => bytes "A message was too large"
  | invalidPayload => bytes "A payload contained invalid data"
  | invalidOpcode => bytes "invalid opcode"
  | controlTooBig => bytes "Control messages are limited to fewer than 125 characters"
  | invalidRsvBit => bytes "Invalid use of reserved bits"
  | fragmentedControl => bytes "Control messages cannot be fragmented"
  | invalidContinuation => bytes "Invalid message continuation"
  | maskingRequired => bytes "Clients may not send unmasked frames"
  | maskingForbidden => bytes "Servers may not send masked frames"
  | nonMinimalEncoding => bytes "Payload length was not minimally encoded"
  | invalidUtf8 => bytes "Invalid UTF8 encoding"
  | reservedCloseCode => bytes "Reserved close code used"
  | invalidCloseCode => bytes "Invalid close code used"
  | reasonRequiresCode => bytes "Using a close reason requires a valid close code"
  | nullMessage => []

end ProcessorError

def prepareClose (server : Bool) (rng : UInt32) (code : Close.Status) (reason : Bytes) :
    Except ProcessorError OutMessage :=
  if Close.reserved code then .error .reservedCloseCode
  else if Close.invalid code ∧ code ≠ Close.noStatus then .error .invalidCloseCode
  else if code = Close.noStatus ∧ reason.length > 0 then .error .reasonRequiresCode
  else if reason.length > payloadSizeBasic - 2 then .error .controlTooBig
  else
    let payload := if code ≠ Close.noStatus then Octets.bigEndian 2 code ++ reason else []
    prepareControl server rng .close payload

/-! ## Sessions -/

/-- A connection without its processor, which no handler looks at. `dispatched` counts the calls of
`write_frame` that are to come, `current` is the batch of messages that the transport has not
reported on, and `written` all it was ever given. -/
structure WireSession where
  state : SessionState := .open
  sendQueue : List OutMessage := []
  writeFlag : Bool := false
  dispatched : Nat := 0
  current : List OutMessage := []
  written : List OutMessage := []
  wasClean : Bool := false
  remoteCloseCode : Close.Status := Close.abnormalClose
  remoteCloseReason : Bytes := []
  deriving DecidableEq, Repr

/-- What a handler sees of a message. -/
structure WireMessage where
  opcode : Opcode
  payload : Bytes
  deriving DecidableEq, Repr

def MsgMetadata.message (msg : MsgMetadata) : WireMessage := ⟨msg.opcode, msg.payload⟩

namespace WireSession

/-- `write_push` and what all its callers do behind it: unless a write is out, `write_frame` is
dispatched. -/
def writePush (con : WireSession) (msg : OutMessage) : WireSession :=
  { con with
    sendQueue := con.sendQueue ++ [msg]
    dispatched := if con.writeFlag then con.dispatched else con.dispatched + 1 }

/-- `send` of a text payload up to its `write_push`, which takes another lock. A server frame is not
masked, so no key is drawn. -/
def prepareSend (con : WireSession) (payload : Bytes) : Except SendError OutMessage :=
  if con.state ≠ .open then .error .invalidState
  else match prepareDataFrame true 0 .text true payload with
    | .error _ => .error .invalidPayload
    | .ok msg => .ok msg

/-- `pong`; an error changes nothing. -/
def pong (con : WireSession) (payload : Bytes) : WireSession :=
  if con.state ≠ .open then con
  else match prepareControl true 0 .pong payload with
    | .error _ => con
    | .ok msg => con.writePush msg

/-- The state that `handle_terminate` and `onClose` follow. -/
def terminate (con : WireSession) : WireSession := { con with state := .closed }

/-- The codes that `send_close_frame` settles on. -/
def closeInfo (con : WireSession) (code : Close.Status) (reason : Bytes) (ack : Bool) :
    Close.Status × Bytes :=
  if code ≠ Close.blank then (code, reason)
  else if ack = false then (Close.noStatus, [])
  else if con.remoteCloseCode = Close.noStatus then (Close.normal, [])
  else (con.remoteCloseCode, con.remoteCloseReason)

def sendCloseFrame (con : WireSession) (code : Close.Status) (reason : Bytes)
    (ack terminal : Bool) : Except ProcessorError WireSession :=
  let (localCode, localReason) := con.closeInfo code reason ack
  match prepareClose true 0 localCode localReason with
  | .error error => .error error
  | .ok msg =>
    .ok ({ con with
      state := .closing
      wasClean := con.wasClean || ack }.writePush { msg with terminal := terminal })

/-- The server is the end that drops the connection behind its acknowledgement. -/
def sendCloseAck (con : WireSession) (code : Close.Status) (reason : Bytes) : WireSession :=
  match con.sendCloseFrame code reason true true with
  | .error _ => con
  | .ok con => con

def closeReasonSize : Nat := 123

/-- `close` and what `handle_read_frame` does if it fails. -/
def closeOrTerminate (con : WireSession) (code : Close.Status) (reason : Bytes) : WireSession :=
  if con.state ≠ .open then con.terminate
  else match con.sendCloseFrame code (reason.take closeReasonSize) false (Close.terminal code) with
    | .error _ => con.terminate
    | .ok con => con

/-- There is no ping and no pong handler. -/
def processControlFrame (con : WireSession) (op : Opcode) (payload : Bytes) : WireSession :=
  if con.state = .closed then con
  else if op ≠ .close ∧ con.state ≠ .open then con
  else if op = .ping then con.pong payload
  else if op = .close then
    let (code, goodCode) := Close.extractCode payload
    let con := { con with remoteCloseCode := code }
    if goodCode = false then con.sendCloseAck Close.protocolError (bytes "Invalid close code")
    else
      let (reason, goodReason) := Close.extractReason payload
      let con := { con with remoteCloseReason := reason }
      if goodReason = false then
        con.sendCloseAck Close.protocolError (bytes "Invalid close reason")
      else if con.state = .open then con.sendCloseAck Close.blank []
      else if con.state = .closing ∧ con.wasClean = false then
        { con with wasClean := true }.terminate
      else con
  else con

/-- A message that is complete goes to its handler; what is delivered is given to the message
handler. -/
def handleMessage (con : WireSession) (msg : WireMessage) : WireSession × List WireMessage :=
  if msg.opcode.isControl then (con.processControlFrame msg.opcode msg.payload, [])
  else if con.state ≠ .open then (con, [])
  else (con, [msg])

/-- A protocol error closes the connection. -/
def failRead (con : WireSession) (error : ProcessorError) : WireSession :=
  con.closeOrTerminate error.toWs error.message

/-- The messages up to the first terminal one. -/
def takeBatch : List OutMessage → List OutMessage × List OutMessage
  | [] => ([], [])
  | msg :: queue =>
    if msg.terminal then ([msg], queue)
    else
      let (batch, rest) := takeBatch queue
      (msg :: batch, rest)

/-- A `write_frame` that was dispatched. -/
def writeFrame (con : WireSession) : WireSession :=
  let con := { con with dispatched := con.dispatched - 1 }
  if con.writeFlag then con
  else
    let (batch, rest) := takeBatch con.sendQueue
    if batch = [] then con
    else { con with
      sendQueue := rest
      writeFlag := true
      current := batch
      written := con.written ++ batch }

/-- The transport has written the batch, or failed to. Behind a terminal message and behind an error
the write flag stays set. -/
def handleWriteFrame (con : WireSession) (failed : Bool) : WireSession :=
  match con.current.getLast? with
  | none => con
  | some last =>
    let con := { con with current := [] }
    if failed then con.terminate
    else if last.terminal then con.terminate
    else { con with
      writeFlag := false
      dispatched := if con.sendQueue = [] then con.dispatched else con.dispatched + 1 }

/-- The close handshake took too long; the timer runs from the first close frame on. -/
def handleCloseHandshakeTimeout (con : WireSession) : WireSession :=
  if con.state = .closing then con.terminate else con

end WireSession

/-! ## Reading -/

/-- The processor is there while a read is outstanding. -/
structure WireConnection where
  session : WireSession := {}
  reading : Option Hybi13
  deriving DecidableEq, Repr

namespace WireConnection

/-- The processor that a handshake leaves. -/
def openedProcessor (maxMessageSize : Nat) : Hybi13 where
  server := true
  maxMessageSize := maxMessageSize

/-- A connection behind its handshake. -/
def opened (maxMessageSize : Nat) : WireConnection where
  reading := some (openedProcessor maxMessageSize)

/-- Behind a `consume`. -/
def dispatch (con : WireConnection) (processor : Hybi13) : WireConnection × List WireMessage :=
  if processor.ready then
    let (processor, msg) := processor.getMessage
    match msg with
    | none => ({ con with reading := some processor }, [])
    | some msg =>
      let (session, delivered) := con.session.handleMessage msg.message
      (⟨session, some processor⟩, delivered)
  else ({ con with reading := some processor }, [])

/-- `while (p < bytes_transferred)`; every turn takes a byte at least. Behind an error nothing is
read any more. -/
def handleReadLoop : Nat → WireConnection → Bytes → WireConnection × List WireMessage
  | 0, con, _ => (con, [])
  | fuel + 1, con, buf =>
    if buf = [] then (con, [])
    else match con.reading with
      | none => (con, [])
      | some processor =>
        match processor.consume buf with
        | .error error => (⟨con.session.failRead error, none⟩, [])
        | .ok (processor, buf) =>
          let (con, delivered) := con.dispatch processor
          let (con, more) := handleReadLoop fuel con buf
          (con, delivered ++ more)

/-- `handle_read_frame` of bytes that were read. -/
def handleReadFrame (con : WireConnection) (buf : Bytes) : WireConnection × List WireMessage :=
  handleReadLoop buf.length con buf

/-- `handle_read_frame` of an error, an end of file included. -/
def handleReadError (con : WireConnection) : WireConnection := ⟨con.session.terminate, none⟩

end WireConnection

end ScRedirection.Websocketpp
