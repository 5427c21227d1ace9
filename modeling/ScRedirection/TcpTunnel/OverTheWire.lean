import Mathlib.Data.List.Forall2
import ScRedirection.Json.Returned
import ScRedirection.TcpTunnel.EndToEnd
import ScRedirection.Websocketpp.WireRun

/-! # A direction of the tunnel, byte for byte

One side pushes the texts of its chunks on a connection; a relay reads what comes of the bytes and
sends the chunks on in frames of its own, and the other side hands every message it reads to its
server. However the bytes are cut and the frames fragmented, that side queues the chunks.
-/

namespace ScRedirection.TcpTunnel

open Json Websocketpp WebsocketServer Base64 EndToEnd

namespace Queues

def pushAll (queues : Queues) (sock : Socket) (items : List Bytes) : Queues :=
  queues.setData sock (queues.data sock ++ items)

theorem push_pushAll (queues : Queues) (sock : Socket) (item : Bytes) (items : List Bytes) :
    (queues.push sock item).pushAll sock items = queues.pushAll sock (item :: items) := by
  cases sock <;> simp [push, pushAll, setData, data]

end Queues

section Receive

variable {D : Type} (doubles : Doubles D)

/-- The payloads of a connection go to `onMessage` one after the other. -/
def onMessages (conn : ConnectionHdl) : Server → Queues → List StdString →
    Except Exn (Server × Queues × List (HandlerCall D))
  | server, queues, [] => .ok (server, queues, [])
  | server, queues, payload :: payloads =>
    match onMessage doubles server queues conn payload with
    | .error exn => .error exn
    | .ok (server, queues, calls) =>
      match onMessages conn server queues payloads with
      | .error exn => .error exn
      | .ok (server, queues, more) => .ok (server, queues, calls ++ more)

/-- A message is a frame of a chunk. -/
def FrameOf (chunk payload : Bytes) : Prop :=
  ∃ form, payload = frame form (base64Encode false chunk)

theorem onMessages_frames {server : Server} {callback : Callback}
    (hType : server.type.callback = some callback) (conn : ConnectionHdl) (queues : Queues)
    {payloads : List StdString} {chunks : List Bytes} (hChunks : ∀ chunk ∈ chunks, chunk ≠ [])
    (hFrames : List.Forall₂ (fun payload chunk => FrameOf chunk (StdString.text payload)) payloads
      chunks) :
    onMessages doubles conn server.setCallbacks queues payloads =
      .ok (server.setCallbacks, queues.pushAll callback.queue chunks, []) := by
  induction hFrames generalizing queues with
  | nil =>
    rw [onMessages, Queues.pushAll, List.append_nil]
    cases callback <;> rfl
  | @cons payload chunk payloads chunks hFrame hRest ih =>
    obtain ⟨text, spare⟩ := payload
    obtain ⟨form, rfl⟩ := hFrame
    obtain ⟨hChunk, hLater⟩ := List.forall_mem_cons.mp hChunks
    rw [onMessages, onMessage_frame doubles hType queues conn hChunk form spare]
    dsimp only
    rw [ih _ hLater, Queues.push_pushAll]
    rfl

end Receive

theorem ascii_frame (chunk : Bytes) (form : FrameForm) :
    ∀ c ∈ frame form (base64Encode false chunk), c < 128 := by
  have hHead : ∀ c ∈ commands .bin ++ [ch ':'], c < 128 := by decide +kernel
  have hTail : ∀ form : FrameForm, ∀ c ∈ form.tail, c < 128 := by
    intro form
    cases form <;> decide +kernel
  intro c hc
  have hSplit : frame form (base64Encode false chunk) =
      (commands .bin ++ [ch ':']) ++ (base64Encode false chunk ++ form.tail) := by
    rw [frame, List.append_assoc]
    rfl
  rw [hSplit] at hc
  rcases List.mem_append.mp hc with hc | hc
  · exact hHead c hc
  · rcases List.mem_append.mp hc with hc | hc
    · exact (inert_of_mem_base64Encode hc).2.1
    · exact hTail form c hc

theorem accepted_frame {msg : ClientMessage} {chunk : Bytes} (h : FrameOf chunk msg.payload) :
    msg.Accepted := by
  obtain ⟨form, hPayload⟩ := h
  have hValid : Utf8Validator.validate msg.payload = true :=
    hPayload ▸ Utf8Validator.validate_ascii (ascii_frame chunk form)
  intro _
  split_ifs
  · exact hValid
  · rw [(Utf8Validator.validate_eq_advance _).mp hValid]
    exact Option.some_ne_none _

theorem accepted_frames {messages : List ClientMessage} {chunks : List Bytes}
    (h : List.Forall₂ (fun msg chunk => FrameOf chunk (ClientMessage.payload msg)) messages
      chunks) :
    ∀ msg ∈ messages, msg.Accepted := by
  induction h with
  | nil => exact List.forall_mem_nil _
  | cons hFrame _ ih => exact List.forall_mem_cons.mpr ⟨accepted_frame hFrame, ih⟩

theorem relayed_broadcastTexts {texts chunks : List Bytes}
    (hTexts : texts.filter (fun text => (relayPayload text).isSome) = chunks.map broadcastText) :
    texts.filterMap relayPayload = chunks.map (base64Encode false) := by
  have hFiltered : texts.filterMap relayPayload =
      (texts.filter fun text => (relayPayload text).isSome).filterMap relayPayload := by
    rw [List.filterMap_filter]
    congr 1
    funext text
    cases relayPayload text <;> rfl
  rw [hFiltered, hTexts, List.filterMap_map]
  have hEach : relayPayload ∘ broadcastText = some ∘ base64Encode false :=
    funext relayPayload_broadcastText
  rw [hEach, List.filterMap_eq_map]

/-- From the bytes that one side writes to the queue of the other. The relay may have read any part
of them, in whatever pieces; what it sends on may be fragmented, and cut in pieces, in any way, and
be read into strings of any capacity. The other side queues the chunks in order and byte for byte,
up to some chunk, and nothing else; and all of them where the first side has written all it had and
the relay has read it. -/
theorem chunks_cross {D : Type} (doubles : Doubles D) {maxMessageSize clientMax : Nat}
    {t : WireEndpoint} {events : List WireEvent}
    (hRun : WireEndpoint.machine.run (.opened maxMessageSize) events = some t) {chunks : List Bytes}
    (hChunks : ∀ chunk ∈ chunks, chunk ≠ [])
    (hPushed : (t.pushed.map OutMessage.payload).filter (fun text => (relayPayload text).isSome) =
      chunks.map broadcastText)
    (hClientMax : clientMax < 2 ^ 64) (hSizes : ∀ msg ∈ t.pushed, msg.payload.length ≤ clientMax)
    {pieces : List Bytes}
    (hPieces : pieces.flatten <+: t.con.session.written.flatMap OutMessage.wire)
    {messages : List ClientMessage}
    (hRelay : List.Forall₂
      (fun msg payload => ∃ form, ClientMessage.payload msg = frame form payload) messages
      (((Reader.scanner.readAll (.ok (WireEndpoint.client clientMax)) pieces).2.filter
        fun msg => msg.opcode == .text).filterMap fun msg => relayPayload msg.payload))
    {con : WireConnection} (hIdle : con.Idle maxMessageSize) (hMax : maxMessageSize < 2 ^ 64)
    (hFits : ∀ msg ∈ messages, msg.payload.length ≤ maxMessageSize) (after : List ControlFrame)
    {pieces' : List Bytes} (hPieces' : pieces'.flatten = messages.flatMap ClientMessage.wire ++
      after.flatMap fun control => control.frame.wire)
    {server : Server} {callback : Callback} (hType : server.type.callback = some callback)
    (queues : Queues) (conn : ConnectionHdl) {payloads : List StdString}
    (hPayloads : payloads.map StdString.text =
      (con.handleReadFrames pieces').2.map WireMessage.payload) :
    ∃ received, received <+: chunks ∧
      onMessages doubles conn server.setCallbacks queues payloads =
        .ok (server.setCallbacks, queues.pushAll callback.queue received, []) ∧
      (t.Quiet → t.con.session.state ≠ .closed →
        pieces.flatten = t.con.session.written.flatMap OutMessage.wire → received = chunks) := by
  have hInv := WireEndpoint.inv_of_run hRun
  have hBroadcast : (t.pushed.map OutMessage.message).filterMap
      (fun msg => relayPayload msg.payload) = chunks.map (base64Encode false) := by
    rw [← relayed_broadcastTexts hPushed, List.filterMap_map, List.filterMap_map]
    rfl
  obtain ⟨p, msgs, hRead, hPrefix⟩ :=
    WireEndpoint.client_reads_prefix hInv.ordered hClientMax hSizes hPieces
  obtain ⟨received, hReceived, hRelayed⟩ : ∃ received, received <+: chunks ∧
      (msgs.filter fun msg => msg.opcode == .text).filterMap (fun msg => relayPayload msg.payload) =
        received.map (base64Encode false) := by
    have hPart := hPrefix.filterMap fun msg => relayPayload msg.payload
    rw [hBroadcast] at hPart
    exact List.prefix_map_iff.mp hPart
  rw [hRead, hRelayed, List.forall₂_map_right_iff] at hRelay
  obtain ⟨p', hDelivered, -⟩ := WireConnection.handleReadFrames_messages hIdle hMax hFits
    (accepted_frames hRelay) after hPieces'
  refine ⟨received, hReceived, ?_, fun hQuiet hState hAll => ?_⟩
  · refine onMessages_frames doubles hType conn queues
      (fun chunk hChunk => hChunks chunk (hReceived.subset hChunk)) ?_
    rw [hDelivered] at hPayloads
    have hTexts : List.Forall₂ (fun text chunk => FrameOf chunk text)
        (payloads.map StdString.text) received := by
      rw [hPayloads, List.map_map, List.forall₂_map_left_iff]
      exact hRelay
    exact List.forall₂_map_left_iff.mp hTexts
  · have hWhole := hInv.client_reads_all hQuiet hState hClientMax hSizes hAll
    rw [hRead] at hWhole
    rw [hWhole, hBroadcast] at hRelayed
    have hLength := congrArg List.length hRelayed
    rw [List.length_map, List.length_map] at hLength
    exact hReceived.eq_of_length hLength.symm

/-! Two chunks, the second behind another text; the relay fragments the first frame -/

def exampleChunks : List Bytes := [[0, 255], bytes "ok"]

def exampleEvents : List WireEvent :=
  [.prepareSend (broadcastText [0, 255]), .writePush 0, .prepareSend (bytes "hello"), .writePush 0,
    .prepareSend (broadcastText (bytes "ok")), .writePush 0, .writeFrame, .handleWriteFrame false,
    .writeFrame, .writeFrame]

def exampleSide : WireEndpoint :=
  (WireEndpoint.machine.run (.opened 64) exampleEvents).get (by decide +kernel)

def exampleMessages : List ClientMessage :=
  [{ text := true, first := ⟨[], 0x01020304, bytes "BIN_DATA:"⟩
     rest := [⟨[], 0x05060708, base64Encode false [0, 255]⟩] },
    { text := true
      first := ⟨[], 0x090A0B0C, frame .quoted (base64Encode false (bytes "ok"))⟩ }]

def exampleServer : Server := { type := .linux }

theorem chunks_cross_example : ∃ received, received <+: exampleChunks ∧
    onMessages exampleDoubles 0 exampleServer.setCallbacks {}
        (((WireConnection.opened 64).handleReadFrames
          [exampleMessages.flatMap ClientMessage.wire]).2.map fun msg => ⟨msg.payload, .none⟩) =
      .ok (exampleServer.setCallbacks, Queues.pushAll {} .remote received, []) ∧
    (exampleSide.Quiet → exampleSide.con.session.state ≠ .closed →
      [exampleSide.con.session.written.flatMap OutMessage.wire].flatten =
        exampleSide.con.session.written.flatMap OutMessage.wire → received = exampleChunks) := by
  have hRun : WireEndpoint.machine.run (.opened 64) exampleEvents = some exampleSide :=
    (Option.some_get _).symm
  have hTexts : ((Reader.scanner.readAll (.ok (WireEndpoint.client 64))
      [exampleSide.con.session.written.flatMap OutMessage.wire]).2.filter
        fun msg => msg.opcode == .text).filterMap (fun msg => relayPayload msg.payload) =
      exampleChunks.map (base64Encode false) := by
    decide +kernel
  have hRelay : List.Forall₂
      (fun msg payload => ∃ form, ClientMessage.payload msg = frame form payload) exampleMessages
      (((Reader.scanner.readAll (.ok (WireEndpoint.client 64))
        [exampleSide.con.session.written.flatMap OutMessage.wire]).2.filter
          fun msg => msg.opcode == .text).filterMap fun msg => relayPayload msg.payload) := by
    rw [hTexts]
    exact .cons ⟨.bare, by decide +kernel⟩ (.cons ⟨.quoted, by decide +kernel⟩ .nil)
  have hPieces : [exampleMessages.flatMap ClientMessage.wire].flatten =
      exampleMessages.flatMap ClientMessage.wire ++
        ([] : List ControlFrame).flatMap fun control => control.frame.wire := rfl
  have hPushed : (exampleSide.pushed.map OutMessage.payload).filter
      (fun text => (relayPayload text).isSome) = exampleChunks.map broadcastText := by
    decide +kernel
  have hType : exampleServer.type.callback = some .sendCallback := rfl
  exact chunks_cross exampleDoubles hRun (by decide) hPushed (by decide) (by decide +kernel)
    ⟨[], by simp⟩ hRelay (WireConnection.idle_opened 64) (by decide) (by decide +kernel) [] hPieces
    hType {} 0 (by rw [List.map_map]; rfl)

end ScRedirection.TcpTunnel
