import ScRedirection.Websocketpp.Assembly

/-! # Conversations

What a client means to say: messages, in fragments, with pings and pongs between them. The server
hands out every message once, in order and byte for byte, and answers every ping.
-/

namespace ScRedirection.Websocketpp

open Websocketpp.Frame

/-- A ping or a pong. -/
structure ControlFrame where
  ping : Bool
  key : UInt32
  payload : Bytes
  fits : payload.length ≤ payloadSizeBasic

/-- A part of a message, and the control frames that go before it. -/
structure Fragment where
  before : List ControlFrame := []
  key : UInt32
  payload : Bytes

/-- A text or a binary message, in one frame or in more. -/
structure ClientMessage where
  text : Bool
  first : Fragment
  rest : List Fragment := []

namespace ControlFrame

def opcode (control : ControlFrame) : Opcode := if control.ping then .ping else .pong

def frame (control : ControlFrame) : WireFrame where
  opcode := control.opcode
  fin := true
  key := some control.key
  payload := control.payload

def message (control : ControlFrame) : WireMessage := ⟨control.opcode, control.payload⟩

/-- The answer of the server. -/
def pong (control : ControlFrame) : Option OutMessage :=
  if control.ping then some (prepareFrame .pong true none control.payload) else none

end ControlFrame

namespace ClientMessage

def opcode (msg : ClientMessage) : Opcode := if msg.text then .text else .binary

def fragments (msg : ClientMessage) : List Fragment := msg.first :: msg.rest

def payload (msg : ClientMessage) : Bytes := msg.fragments.flatMap Fragment.payload

def controls (msg : ClientMessage) : List ControlFrame := msg.fragments.flatMap Fragment.before

def message (msg : ClientMessage) : WireMessage := ⟨msg.opcode, msg.payload⟩

/-- The frames of a message from a fragment on; those behind the first are continuations. -/
def framesFrom (opcode : Opcode) : Fragment → List Fragment → List WireFrame
  | fragment, [] =>
    fragment.before.map ControlFrame.frame ++ [⟨opcode, true, some fragment.key, fragment.payload⟩]
  | fragment, next :: rest =>
    fragment.before.map ControlFrame.frame ++
      ⟨opcode, false, some fragment.key, fragment.payload⟩ :: framesFrom .continuation next rest

def frames (msg : ClientMessage) : List WireFrame := framesFrom msg.opcode msg.first msg.rest

def wire (msg : ClientMessage) : Bytes := msg.frames.flatMap WireFrame.wire

/-- Of a text in one frame the end is checked too; one in more frames has to stay a beginning. -/
def Accepted (msg : ClientMessage) : Prop :=
  msg.text = true →
    if msg.rest = [] then Utf8Validator.validate msg.payload = true
    else Utf8Validator.advance Utf8Validator.utf8Accept msg.payload ≠ none

end ClientMessage

/-! ## What the assembly makes of a message -/

namespace Assembly

variable {maxMessageSize : Nat} {assembly : Assembly}

theorem take_control (control : ControlFrame) :
    assembly.take true maxMessageSize control.frame = .ok (assembly, [control.message]) := by
  have hFits : ¬payloadSizeBasic < control.payload.length := Nat.not_lt.mpr control.fits
  have hKind : control.opcode.isControl = true ∧ control.opcode.reserved = false ∧
      control.opcode ≠ .continuation := by
    rw [ControlFrame.opcode]
    cases control.ping <;> decide
  simp [take, refuse, ControlFrame.frame, hFits, hKind, ControlFrame.message]

theorem takeAll_controls (controls : List ControlFrame) :
    assembly.takeAll true maxMessageSize (controls.map ControlFrame.frame) =
      (.ok assembly, controls.map ControlFrame.message) := by
  induction controls with
  | nil => rfl
  | cons control controls ih =>
    rw [List.map_cons, takeAll, take_control]
    dsimp only
    rw [ih]
    rfl

/-- The opcode that a message goes on with, or starts with. -/
inductive Follows : Assembly → Opcode → WireMessage → Prop
  | start {opcode : Opcode} (h : opcode = .text ∨ opcode = .binary) :
      Follows none opcode ⟨opcode, []⟩
  | under (msg : WireMessage) : Follows (some msg) .continuation msg

variable {opcode : Opcode} {msg : WireMessage} {fin : Bool} {key : UInt32} {payload : Bytes}

theorem take_data (h : Follows assembly opcode msg) (hMax : maxMessageSize < 2 ^ 64)
    (hSize : (msg.payload ++ payload).length ≤ maxMessageSize) :
    assembly.take true maxMessageSize ⟨opcode, fin, some key, payload⟩ =
      if msg.opcode = .text ∧
          Utf8Validator.advance Utf8Validator.utf8Accept (msg.payload ++ payload) = none then
        .error .invalidUtf8
      else if fin = false then .ok (some ⟨msg.opcode, msg.payload ++ payload⟩, [])
      else if opcode = .text ∧ Utf8Validator.validate (msg.payload ++ payload) = false then
        .error .invalidUtf8
      else .ok (none, [⟨msg.opcode, msg.payload ++ payload⟩]) := by
  have hRefuse : refuse true assembly ⟨opcode, fin, some key, payload⟩ = none := by
    cases h with
    | start h =>
      have hKind : opcode.isControl = false ∧ opcode.reserved = false ∧
          opcode ≠ .continuation := by
        rcases h with rfl | rfl <;> decide
      simp [refuse, hKind]
    | under msg =>
      have hKind : Opcode.isControl .continuation = false ∧
          Opcode.reserved .continuation = false := by
        decide
      simp [refuse, hKind]
  have hControl : opcode.isControl = false := by
    cases h with
    | start h => rcases h with rfl | rfl <;> rfl
    | under msg => rfl
  have hExtend : extend assembly ⟨opcode, fin, some key, payload⟩ =
      ⟨msg.opcode, msg.payload ++ payload⟩ := by
    cases h <;> rfl
  have hFits : ¬(msg.payload ++ payload).length % 2 ^ 64 > maxMessageSize := by
    rw [Nat.mod_eq_of_lt (Nat.lt_of_le_of_lt hSize hMax)]
    exact Nat.not_lt.mpr hSize
  rw [take, hRefuse]
  dsimp only
  rw [if_neg (Bool.eq_false_iff.mp hControl), takeData, hExtend]
  dsimp only
  rw [if_neg hFits]

/-- The check that is left of a text when its last fragment is there. -/
def Passes (opcode : Opcode) (rest : List Fragment) (payload : Bytes) : Prop :=
  if opcode = .text ∧ rest = [] then Utf8Validator.validate payload = true
  else Utf8Validator.advance Utf8Validator.utf8Accept payload ≠ none

theorem advance_of_passes {rest : List Fragment} (h : Passes opcode rest payload) :
    Utf8Validator.advance Utf8Validator.utf8Accept payload ≠ none := by
  unfold Passes at h
  split_ifs at h with hWhole
  · rw [(Utf8Validator.validate_eq_advance payload).mp h]
    exact Option.some_ne_none _
  · exact h

theorem advance_prefix {s t : Bytes}
    (h : Utf8Validator.advance Utf8Validator.utf8Accept (s ++ t) ≠ none) :
    Utf8Validator.advance Utf8Validator.utf8Accept s ≠ none := by
  intro hNone
  rw [Utf8Validator.advance_append, hNone] at h
  exact h rfl

/-- The messages of the fragments, the control frames first. -/
def outcome (opcode : Opcode) (payload : Bytes) (fragments : List Fragment) : List WireMessage :=
  (fragments.flatMap Fragment.before).map ControlFrame.message ++
    [⟨opcode, payload ++ fragments.flatMap Fragment.payload⟩]

theorem takeAll_framesFrom {fragment : Fragment} {rest : List Fragment}
    (h : Follows assembly opcode msg) (hMax : maxMessageSize < 2 ^ 64)
    (hSize : (msg.payload ++ (fragment :: rest).flatMap Fragment.payload).length ≤ maxMessageSize)
    (hText : msg.opcode = .text →
      Passes opcode rest (msg.payload ++ (fragment :: rest).flatMap Fragment.payload)) :
    assembly.takeAll true maxMessageSize (ClientMessage.framesFrom opcode fragment rest) =
      (.ok none, outcome msg.opcode msg.payload (fragment :: rest)) := by
  induction rest generalizing assembly opcode msg fragment with
  | nil =>
    simp only [List.flatMap_cons, List.flatMap_nil, List.append_nil] at hSize hText
    have hGood : ¬(msg.opcode = .text ∧
        Utf8Validator.advance Utf8Validator.utf8Accept (msg.payload ++ fragment.payload) = none) :=
      fun hBad => advance_of_passes (hText hBad.1) hBad.2
    have hEnd : ¬(opcode = .text ∧
        Utf8Validator.validate (msg.payload ++ fragment.payload) = false) := by
      rintro ⟨rfl, hBad⟩
      cases h with
      | start h =>
        have hPass := hText rfl
        rw [Passes, if_pos ⟨rfl, rfl⟩, hBad] at hPass
        cases hPass
    rw [ClientMessage.framesFrom, takeAll_append (takeAll_controls fragment.before), takeAll,
      take_data h hMax hSize, if_neg hGood, if_neg Bool.noConfusion, if_neg hEnd]
    simp [takeAll, outcome]
  | cons next rest ih =>
    rw [List.flatMap_cons, ← List.append_assoc] at hSize hText
    have hLess : (msg.payload ++ fragment.payload).length ≤ maxMessageSize := by
      rw [List.length_append] at hSize
      omega
    have hGood : ¬(msg.opcode = .text ∧
        Utf8Validator.advance Utf8Validator.utf8Accept (msg.payload ++ fragment.payload) = none) :=
      fun hBad => advance_prefix (advance_of_passes (hText hBad.1)) hBad.2
    have hRest := ih (.under ⟨msg.opcode, msg.payload ++ fragment.payload⟩)
      hSize (by
        intro hOpcode
        rw [Passes, if_neg fun h => absurd h.1 (by decide)]
        exact advance_of_passes (hText hOpcode))
    rw [ClientMessage.framesFrom, takeAll_append (takeAll_controls fragment.before), takeAll,
      take_data h hMax hLess, if_neg hGood, if_pos rfl]
    dsimp only
    rw [hRest]
    simp [outcome]

/-- A text that does not pass ends in the error, and none of it is handed out. -/
theorem takeAll_rejected {fragment : Fragment} {rest : List Fragment}
    (h : Follows assembly opcode msg) (hMax : maxMessageSize < 2 ^ 64)
    (hSize : (msg.payload ++ (fragment :: rest).flatMap Fragment.payload).length ≤ maxMessageSize)
    (hText : msg.opcode = .text)
    (hBad : ¬Passes opcode rest (msg.payload ++ (fragment :: rest).flatMap Fragment.payload)) :
    ∃ controls : List ControlFrame,
      assembly.takeAll true maxMessageSize (ClientMessage.framesFrom opcode fragment rest) =
        (.error .invalidUtf8, controls.map ControlFrame.message) := by
  induction rest generalizing assembly opcode msg fragment with
  | nil =>
    simp only [List.flatMap_cons, List.flatMap_nil, List.append_nil] at hSize hBad
    refine ⟨fragment.before, ?_⟩
    rw [ClientMessage.framesFrom, takeAll_append (takeAll_controls fragment.before), takeAll,
      take_data h hMax hSize]
    by_cases hReject : Utf8Validator.advance Utf8Validator.utf8Accept
        (msg.payload ++ fragment.payload) = none
    · rw [if_pos ⟨hText, hReject⟩]
      simp
    · have hEnd : opcode = .text ∧
          Utf8Validator.validate (msg.payload ++ fragment.payload) = false := by
        unfold Passes at hBad
        split_ifs at hBad with hWhole
        · exact ⟨hWhole.1, Bool.eq_false_iff.mpr hBad⟩
        · exact absurd hReject hBad
      rw [if_neg fun hGone => hReject hGone.2, if_neg Bool.noConfusion, if_pos hEnd]
      simp
  | cons next rest ih =>
    rw [List.flatMap_cons, ← List.append_assoc] at hSize hBad
    have hLess : (msg.payload ++ fragment.payload).length ≤ maxMessageSize := by
      rw [List.length_append] at hSize
      omega
    rw [ClientMessage.framesFrom, takeAll_append (takeAll_controls fragment.before), takeAll,
      take_data h hMax hLess]
    by_cases hReject : Utf8Validator.advance Utf8Validator.utf8Accept
        (msg.payload ++ fragment.payload) = none
    · refine ⟨fragment.before, ?_⟩
      rw [if_pos ⟨hText, hReject⟩]
      simp
    · have hLater : ¬Passes .continuation rest
          ((⟨msg.opcode, msg.payload ++ fragment.payload⟩ : WireMessage).payload ++
            (next :: rest).flatMap Fragment.payload) := by
        rw [Passes, if_neg fun h => List.cons_ne_nil _ _ h.2] at hBad
        rwa [Passes, if_neg fun h => absurd h.1 (by decide)]
      obtain ⟨controls, hControls⟩ :=
        ih (.under ⟨msg.opcode, msg.payload ++ fragment.payload⟩) hSize hText hLater
      refine ⟨fragment.before ++ controls, ?_⟩
      rw [if_neg fun hGone => hReject hGone.2, if_pos rfl]
      dsimp only
      rw [hControls, List.map_append]
      rfl

end Assembly

/-! ## What the handlers make of it -/

namespace WireSession

variable {con : WireSession}

/-- The session with more messages to write. -/
def queue (con : WireSession) (msgs : List OutMessage) : WireSession := msgs.foldl writePush con

@[simp] theorem queue_nil (con : WireSession) : con.queue [] = con := rfl

@[simp] theorem queue_queue (con : WireSession) (msgs more : List OutMessage) :
    (con.queue msgs).queue more = con.queue (msgs ++ more) := List.foldl_append.symm

@[simp] theorem queue_state (con : WireSession) (msgs : List OutMessage) :
    (con.queue msgs).state = con.state := by
  induction msgs generalizing con with
  | nil => rfl
  | cons msg msgs ih => exact ih _

theorem handleMessage_control (hOpen : con.state = .open) (control : ControlFrame) :
    con.handleMessage control.message = (con.queue control.pong.toList, []) := by
  have hFits : ¬control.payload.length > payloadSizeBasic := Nat.not_lt.mpr control.fits
  have hKinds : Opcode.isControl .ping = true ∧ Opcode.isControl .pong = true := by decide
  rw [handleMessage, ControlFrame.message, ControlFrame.opcode, ControlFrame.pong]
  cases control.ping with
  | true =>
    simp only [hKinds, if_true, processControlFrame, hOpen, pong, prepareControl, hFits]
    rfl
  | false =>
    simp only [Bool.false_eq_true, hKinds, if_true, if_false, processControlFrame, hOpen]
    exact Prod.ext (queue_nil con).symm rfl

theorem handleMessages_controls (hOpen : con.state = .open) (controls : List ControlFrame) :
    con.handleMessages (controls.map ControlFrame.message) =
      (con.queue (controls.filterMap ControlFrame.pong), []) := by
  induction controls generalizing con with
  | nil =>
    rw [List.filterMap_nil, queue_nil]
    rfl
  | cons control controls ih =>
    have hPongs : (control :: controls).filterMap ControlFrame.pong =
        control.pong.toList ++ controls.filterMap ControlFrame.pong := by
      cases hPong : control.pong <;> simp [hPong]
    rw [List.map_cons, handleMessages, handleMessage_control hOpen]
    dsimp only
    have hNext : (con.queue control.pong.toList).state = .open := (queue_state _ _).trans hOpen
    rw [ih hNext, queue_queue, hPongs]
    rfl

theorem handleMessages_outcome (hOpen : con.state = .open) {opcode : Opcode}
    (hData : opcode.isControl = false) (payload : Bytes) (fragments : List Fragment) :
    con.handleMessages (Assembly.outcome opcode payload fragments) =
      (con.queue ((fragments.flatMap Fragment.before).filterMap ControlFrame.pong),
        [⟨opcode, payload ++ fragments.flatMap Fragment.payload⟩]) := by
  rw [Assembly.outcome, handleMessages_append, handleMessages_controls hOpen]
  simp [handleMessages, handleMessage, hData, hOpen]

/-- The close frame of the server; it ends what is written. -/
def closeMessage (code : Close.Status) (reason : Bytes) : OutMessage :=
  { prepareFrame .close true none (Octets.bigEndian 2 code ++ reason) with terminal := true }

theorem prepareClose_ok {code : Close.Status} {reason : Bytes}
    (hFits : reason.length ≤ closeReasonSize)
    (hReserved : Close.reserved code = false) (hInvalid : Close.invalid code = false) :
    prepareClose true 0 code reason =
      .ok (prepareFrame .close true none (Octets.bigEndian 2 code ++ reason)) := by
  have hSome : code ≠ Close.noStatus := by
    rintro rfl
    cases hInvalid
  have hShort : ¬reason.length > payloadSizeBasic - 2 := Nat.not_lt.mpr hFits
  have hWhole : ¬(Octets.bigEndian 2 code ++ reason).length > payloadSizeBasic := by
    rw [List.length_append, Octets.length_bigEndian]
    rw [closeReasonSize] at hFits
    rw [payloadSizeBasic]
    omega
  have hGood : ¬(Close.invalid code = true ∧ code ≠ Close.noStatus) :=
    fun h => Bool.eq_false_iff.mp hInvalid h.1
  have hReason : ¬(code = Close.noStatus ∧ reason.length > 0) := fun h => hSome h.1
  have hKind : ¬Opcode.isControl .close = false := by decide
  rw [prepareClose, if_neg (Bool.eq_false_iff.mp hReserved), if_neg hGood, if_neg hReason,
    if_neg hShort]
  dsimp only
  rw [if_pos hSome, prepareControl, if_neg hKind, if_neg hWhole]
  rfl

/-- Every error of an open connection is told to the other end, by a code of its own. -/
theorem failRead_open (hOpen : con.state = .open) (error : ProcessorError) :
    con.failRead error = { con with state := .closing }.queue
      [closeMessage error.toWs (error.message.take closeReasonSize)] := by
  have hCode : Close.reserved error.toWs = false ∧ Close.invalid error.toWs = false ∧
      error.toWs ≠ Close.blank ∧ Close.terminal error.toWs = true := by
    cases error <;> decide
  have hPrepared := prepareClose_ok (List.length_take_le closeReasonSize error.message)
    hCode.1 hCode.2.1
  have hInfo : con.closeInfo error.toWs (error.message.take closeReasonSize) false =
      (error.toWs, error.message.take closeReasonSize) := if_pos hCode.2.2.1
  rw [failRead, closeOrTerminate, if_neg fun h => h hOpen, sendCloseFrame, hInfo]
  dsimp only
  rw [hPrepared]
  dsimp only
  rw [hCode.2.2.2, Bool.or_false]
  rfl

end WireSession

/-! ## Conversations -/

theorem ControlFrame.length_payload_lt (control : ControlFrame) :
    control.frame.payload.length < 2 ^ 64 :=
  Nat.lt_of_le_of_lt control.fits (by decide)

namespace ClientMessage

variable {msg : ClientMessage}

theorem follows : Assembly.Follows none msg.opcode ⟨msg.opcode, []⟩ := by
  refine .start ?_
  rw [opcode]
  cases msg.text
  · exact .inr rfl
  · exact .inl rfl

theorem isControl_opcode : msg.opcode.isControl = false := by
  rw [opcode]
  cases msg.text <;> rfl

theorem accepted_iff : msg.Accepted ↔
    (msg.opcode = .text → Assembly.Passes msg.opcode msg.rest msg.payload) := by
  rw [Accepted, opcode]
  cases msg.text with
  | false => simp
  | true => simp [Assembly.Passes]

/-- A text is accepted if it is UTF-8, or in more frames than one if it can be completed to it. -/
theorem accepted_text_iff (hText : msg.text = true) : msg.Accepted ↔
    ∃ rest : Bytes, (msg.rest = [] → rest = []) ∧
      ∃ text : List Char, msg.payload ++ rest = text.flatMap String.utf8EncodeChar := by
  rw [Accepted, imp_iff_right hText]
  split_ifs with hWhole
  · rw [Utf8Validator.validate, Utf8Validator.validateFrom_eq, beq_iff_eq,
      Utf8Validator.foldl_accept_iff]
    constructor
    · rintro ⟨text, hPayload⟩
      exact ⟨[], fun _ => rfl, text, by rw [List.append_nil, hPayload]⟩
    · rintro ⟨rest, hRest, text, hPayload⟩
      rw [hRest hWhole, List.append_nil] at hPayload
      exact ⟨text, hPayload⟩
  · rw [Utf8Validator.advance_ne_none_iff]
    exact exists_congr fun rest => (and_iff_right fun h => absurd h hWhole).symm

theorem length_framesFrom {opcode : Opcode} {fragment : Fragment} {rest : List Fragment}
    {bound : Nat} (hBound : payloadSizeBasic < bound)
    (hSize : ((fragment :: rest).flatMap Fragment.payload).length < bound) :
    ∀ frame ∈ framesFrom opcode fragment rest, frame.payload.length < bound := by
  have hControls : ∀ frame ∈ fragment.before.map ControlFrame.frame,
      frame.payload.length < bound := by
    intro frame hFrame
    obtain ⟨control, -, rfl⟩ := List.mem_map.mp hFrame
    exact Nat.lt_of_le_of_lt control.fits hBound
  induction rest generalizing opcode fragment with
  | nil =>
    intro frame hFrame
    rw [framesFrom, List.mem_append, List.mem_singleton] at hFrame
    rcases hFrame with hControl | rfl
    · exact hControls frame hControl
    · simpa using hSize
  | cons next rest ih =>
    rw [List.flatMap_cons, List.length_append] at hSize
    intro frame hFrame
    rw [framesFrom, List.mem_append, List.mem_cons] at hFrame
    rcases hFrame with hControl | rfl | hLater
    · exact hControls frame hControl
    · exact Nat.lt_of_le_of_lt (Nat.le_add_right _ _) hSize
    · refine ih (Nat.lt_of_le_of_lt (Nat.le_add_left _ _) hSize) ?_ frame hLater
      intro frame hFrame
      obtain ⟨control, -, rfl⟩ := List.mem_map.mp hFrame
      exact Nat.lt_of_le_of_lt control.fits hBound

/-- What the assembly makes of messages. -/
def outcome (msg : ClientMessage) : List WireMessage :=
  Assembly.outcome msg.opcode [] msg.fragments

theorem takeAll_frames {maxMessageSize : Nat} (hMax : maxMessageSize < 2 ^ 64)
    (hSize : msg.payload.length ≤ maxMessageSize) (hText : msg.Accepted) :
    Assembly.takeAll true maxMessageSize none msg.frames = (.ok none, msg.outcome) :=
  Assembly.takeAll_framesFrom follows hMax hSize (accepted_iff.mp hText)

theorem takeAll_flatMap_frames {maxMessageSize : Nat} (hMax : maxMessageSize < 2 ^ 64)
    {messages : List ClientMessage}
    (hSizes : ∀ msg ∈ messages, msg.payload.length ≤ maxMessageSize)
    (hTexts : ∀ msg ∈ messages, msg.Accepted) :
    Assembly.takeAll true maxMessageSize none (messages.flatMap frames) =
      (.ok none, messages.flatMap outcome) := by
  induction messages with
  | nil => rfl
  | cons msg messages ih =>
    have hFirst := takeAll_frames hMax (hSizes msg List.mem_cons_self)
      (hTexts msg List.mem_cons_self)
    rw [List.flatMap_cons, List.flatMap_cons, Assembly.takeAll_append hFirst,
      ih (fun m hm => hSizes m (List.mem_cons_of_mem _ hm))
        fun m hm => hTexts m (List.mem_cons_of_mem _ hm)]

end ClientMessage

theorem WireSession.handleMessages_outcomes {con : WireSession} (hOpen : con.state = .open)
    (messages : List ClientMessage) :
    con.handleMessages (messages.flatMap ClientMessage.outcome) =
      (con.queue ((messages.flatMap ClientMessage.controls).filterMap ControlFrame.pong),
        messages.map ClientMessage.message) := by
  induction messages generalizing con with
  | nil => exact Prod.ext (queue_nil con).symm rfl
  | cons msg messages ih =>
    have hNext : ∀ msgs, (con.queue msgs).state = .open :=
      fun msgs => (queue_state _ msgs).trans hOpen
    rw [List.flatMap_cons, handleMessages_append, ClientMessage.outcome,
      handleMessages_outcome hOpen ClientMessage.isControl_opcode, ih (hNext _), queue_queue,
      ← List.filterMap_append]
    rfl

namespace WireConnection

variable {con : WireConnection} {maxMessageSize : Nat}

/-- Open, and between two messages. -/
structure Idle (maxMessageSize : Nat) (con : WireConnection) : Prop where
  isOpen : con.session.state = .open
  reading : ∃ p, con.reading = some p ∧ p.Between ∧ p.server = true ∧
    p.maxMessageSize = maxMessageSize ∧ p.assembly = none

theorem idle_opened (maxMessageSize : Nat) : (opened maxMessageSize).Idle maxMessageSize where
  isOpen := rfl
  reading := by
    have hWaiting := (waiting_opened maxMessageSize _ rfl).1
    exact ⟨_, rfl, ⟨hWaiting, rfl, rfl⟩, rfl, rfl, rfl⟩

theorem handleReadFrames_wires {processor : Hybi13} (hReading : con.reading = some processor)
    (hBetween : processor.Between) {frames : List WireFrame}
    (hSizes : ∀ frame ∈ frames, frame.payload.length < 2 ^ 64) {pieces : List Bytes}
    (hPieces : pieces.flatten = frames.flatMap WireFrame.wire) :
    ∃ reader : Reader, reader.map Hybi13.assembly =
        (processor.assembly.takeAll processor.server processor.maxMessageSize frames).1 ∧
      (∀ p, reader = .ok p → p.Between ∧ p.server = processor.server ∧
        p.maxMessageSize = processor.maxMessageSize) ∧
      con.handleReadFrames pieces = conclude con.session (reader,
        (processor.assembly.takeAll processor.server processor.maxMessageSize frames).2) := by
  have hNeeded : processor.bytesNeeded ≠ 0 := by
    rw [hBetween.needed]
    decide
  have hWaiting : con.Waiting := by
    intro p hp
    rw [hReading] at hp
    cases hp
    exact ⟨hBetween.valid, hNeeded⟩
  obtain ⟨reader, hReader, hKeeps, hRead⟩ := hBetween.read_wires hSizes
  refine ⟨reader, hReader, hKeeps, ?_⟩
  rw [handleReadFrames_eq hWaiting, hPieces, handleReadFrame_eq hReading hBetween.valid hNeeded,
    hRead]

/-- What a conversation leaves: a connection between two frames, with its pongs to write. -/
theorem handleReadFrames_messages (hIdle : con.Idle maxMessageSize)
    (hMax : maxMessageSize < 2 ^ 64) {messages : List ClientMessage}
    (hSizes : ∀ msg ∈ messages, msg.payload.length ≤ maxMessageSize)
    (hTexts : ∀ msg ∈ messages, msg.Accepted) (after : List ControlFrame) {pieces : List Bytes}
    (hPieces : pieces.flatten = messages.flatMap ClientMessage.wire ++
      after.flatMap fun control => control.frame.wire) :
    ∃ p : Hybi13, con.handleReadFrames pieces = (⟨con.session.queue
        ((messages.flatMap ClientMessage.controls ++ after).filterMap ControlFrame.pong), some p⟩,
        messages.map ClientMessage.message) ∧
      p.Between ∧ p.server = true ∧ p.maxMessageSize = maxMessageSize ∧ p.assembly = none := by
  obtain ⟨processor, hReading, hBetween, hServer, hLimit, hNone⟩ := hIdle.reading
  have hFrames : pieces.flatten = (messages.flatMap ClientMessage.frames ++
      after.map ControlFrame.frame).flatMap WireFrame.wire := by
    rw [hPieces, List.flatMap_append, List.flatMap_assoc, List.flatMap_map]
    rfl
  have hShort : ∀ frame ∈ messages.flatMap ClientMessage.frames ++ after.map ControlFrame.frame,
      frame.payload.length < 2 ^ 64 := by
    intro frame hFrame
    rcases List.mem_append.mp hFrame with hFrame | hFrame
    · obtain ⟨msg, hMsg, hFrame⟩ := List.mem_flatMap.mp hFrame
      exact ClientMessage.length_framesFrom (by decide)
        (Nat.lt_of_le_of_lt (hSizes msg hMsg) hMax) frame hFrame
    · obtain ⟨control, -, rfl⟩ := List.mem_map.mp hFrame
      exact control.length_payload_lt
  obtain ⟨reader, hReader, hKeeps, hRead⟩ :=
    handleReadFrames_wires hReading hBetween hShort hFrames
  rw [hServer, hLimit, hNone, Assembly.takeAll_append
    (ClientMessage.takeAll_flatMap_frames hMax hSizes hTexts), Assembly.takeAll_controls]
    at hReader hRead
  cases reader with
  | error error => cases hReader
  | ok p =>
    obtain ⟨hNext, hServer', hLimit'⟩ := hKeeps p rfl
    have hEmpty : p.assembly = none := Except.ok.inj hReader
    have hNow : ∀ msgs, (con.session.queue msgs).state = .open :=
      fun msgs => (WireSession.queue_state _ msgs).trans hIdle.isOpen
    refine ⟨p, ?_, hNext, hServer'.trans hServer, hLimit'.trans hLimit, hEmpty⟩
    rw [hRead, conclude]
    dsimp only
    rw [WireSession.handleMessages_append, WireSession.handleMessages_outcomes hIdle.isOpen,
      WireSession.handleMessages_controls (hNow _),
      WireSession.queue_queue, ← List.filterMap_append, List.append_nil]

/-- Messages in whatever fragments, with pings and pongs anywhere between them, masked by whatever
keys, in whatever pieces their bytes arrive: the handler gets each of them once, in order and byte
for byte, every ping is answered once and in order, and the connection goes on. -/
theorem conversation_delivered (hIdle : con.Idle maxMessageSize)
    (hMax : maxMessageSize < 2 ^ 64) {messages : List ClientMessage}
    (hSizes : ∀ msg ∈ messages, msg.payload.length ≤ maxMessageSize)
    (hTexts : ∀ msg ∈ messages, msg.Accepted) (after : List ControlFrame) {pieces : List Bytes}
    (hPieces : pieces.flatten = messages.flatMap ClientMessage.wire ++
      after.flatMap fun control => control.frame.wire) :
    (con.handleReadFrames pieces).2 = messages.map ClientMessage.message ∧
      (con.handleReadFrames pieces).1.session = con.session.queue
        ((messages.flatMap ClientMessage.controls ++ after).filterMap ControlFrame.pong) ∧
      (con.handleReadFrames pieces).1.Idle maxMessageSize := by
  obtain ⟨p, hRead, hBetween, hServer, hLimit, hNone⟩ :=
    handleReadFrames_messages hIdle hMax hSizes hTexts after hPieces
  have hOpen := (WireSession.queue_state con.session
    ((messages.flatMap ClientMessage.controls ++ after).filterMap ControlFrame.pong)).trans
    hIdle.isOpen
  rw [hRead]
  exact ⟨rfl, rfl, hOpen, p, rfl, hBetween, hServer, hLimit, hNone⟩

/-! A text whose one character is cut, with a ping in the cut -/

def exampleMessage : ClientMessage where
  text := true
  first := ⟨[], 0x01020304, [0xC3]⟩
  rest := [⟨[⟨true, 0x0A0B0C0D, bytes "?", by decide⟩], 0x05060708, [0xA9]⟩]

/-- The same without its end. -/
def exampleStart : ClientMessage := { exampleMessage with rest := [⟨[], 0x05060708, []⟩] }

theorem conversation_delivered_example :
    ((opened 16).handleReadFrames (exampleMessage.wire.map fun byte => [byte])).2 =
        [⟨.text, [0xC3, 0xA9]⟩] ∧
      ((opened 16).handleReadFrames (exampleMessage.wire.map fun byte => [byte])).1.session =
        (opened 16).session.queue [prepareFrame .pong true none (bytes "?")] ∧
      ((opened 16).handleReadFrames (exampleMessage.wire.map fun byte => [byte])).1.Idle 16 := by
  have hAccepted : exampleMessage.Accepted := fun _ => by decide
  have hPieces : (exampleMessage.wire.map fun byte => [byte]).flatten =
      [exampleMessage].flatMap ClientMessage.wire ++
        ([] : List ControlFrame).flatMap fun control => control.frame.wire := by
    decide
  exact conversation_delivered (idle_opened 16) (by decide) (by decide)
    (List.forall_mem_singleton.mpr hAccepted) [] hPieces

/-- A text in one frame is handed out if and only if it is UTF-8. A text in more frames is handed
out if and only if it can be completed to UTF-8: whether it ends inside a character is not checked.
Any other text closes the connection. -/
theorem text_delivered_iff (hIdle : con.Idle maxMessageSize) (hMax : maxMessageSize < 2 ^ 64)
    {msg : ClientMessage} (hText : msg.text = true) (hSize : msg.payload.length ≤ maxMessageSize)
    {pieces : List Bytes} (hPieces : pieces.flatten = msg.wire) :
    ((con.handleReadFrames pieces).2 = [msg.message] ↔
        ∃ rest : Bytes, (msg.rest = [] → rest = []) ∧
          ∃ text : List Char, msg.payload ++ rest = text.flatMap String.utf8EncodeChar) ∧
      ((con.handleReadFrames pieces).2 ≠ [msg.message] →
        (con.handleReadFrames pieces).2 = [] ∧ (con.handleReadFrames pieces).1.reading = none ∧
          (con.handleReadFrames pieces).1.session.state = .closing) := by
  obtain ⟨processor, hReading, hBetween, hServer, hLimit, hNone⟩ := hIdle.reading
  have hShort : ∀ frame ∈ msg.frames, frame.payload.length < 2 ^ 64 :=
    ClientMessage.length_framesFrom (by decide) (Nat.lt_of_le_of_lt hSize hMax)
  obtain ⟨reader, hReader, -, hRead⟩ := handleReadFrames_wires hReading hBetween hShort hPieces
  rw [hServer, hLimit, hNone] at hReader hRead
  rw [← ClientMessage.accepted_text_iff hText]
  by_cases hAccepted : msg.Accepted
  · have hTake := ClientMessage.takeAll_frames hMax hSize hAccepted
    rw [hTake] at hReader hRead
    cases reader with
    | error error => cases hReader
    | ok p =>
      have hDelivered : (con.handleReadFrames pieces).2 = [msg.message] := by
        rw [hRead, conclude, ClientMessage.outcome]
        dsimp only
        rw [WireSession.handleMessages_outcome hIdle.isOpen ClientMessage.isControl_opcode]
        rfl
      exact ⟨iff_of_true hDelivered hAccepted, fun h => absurd hDelivered h⟩
  · have hKind : msg.opcode = .text := by rw [ClientMessage.opcode, hText]; rfl
    have hBad : ¬Assembly.Passes msg.opcode msg.rest msg.payload :=
      fun h => hAccepted (ClientMessage.accepted_iff.mpr fun _ => h)
    obtain ⟨controls, hTake⟩ :=
      Assembly.takeAll_rejected ClientMessage.follows hMax hSize hKind hBad
    rw [ClientMessage.frames, hTake] at hReader hRead
    cases reader with
    | ok p => cases hReader
    | error error =>
      have hNow : ∀ msgs, (con.session.queue msgs).state = .open :=
      fun msgs => (WireSession.queue_state _ msgs).trans hIdle.isOpen
      rw [hRead, conclude]
      dsimp only
      rw [WireSession.handleMessages_controls hIdle.isOpen, WireSession.failRead_open (hNow _)]
      exact ⟨iff_of_false (by simp) hAccepted, fun _ => ⟨rfl, rfl, rfl⟩⟩

/-- What is handed out here is no text. -/
theorem text_delivered_example :
    ((opened 16).handleReadFrames [exampleStart.wire]).2 = [⟨.text, [0xC3]⟩] := by
  have hPieces : [exampleStart.wire].flatten = exampleStart.wire := List.append_nil _
  have hDelivered := text_delivered_iff (idle_opened 16) (by decide) rfl (by decide) hPieces
  exact hDelivered.1.mpr ⟨[0xA9], fun h => (nomatch h), ['é'], by decide⟩

end WireConnection

end ScRedirection.Websocketpp
