import ScRedirection.TcpTunnel.UseTunnel

/-! # The BIN_DATA text of a chunk

What a broadcast chunk looks like on the wire, and what the server on the other side makes of it.
-/

namespace ScRedirection.TcpTunnel

open Json Websocketpp WebsocketServer Base64

/-- Neither quoted by the JSON writer, nor beyond ASCII, nor a colon or a closing brace. -/
def Inert (c : UInt8) : Prop := Plain c ∧ c < 128 ∧ c ≠ 58 ∧ c ≠ 125

theorem inert_of_mem_base64Encode {chunk : Bytes} {c : UInt8}
    (h : c ∈ base64Encode false chunk) : Inert c := by
  have hChars : ∀ n < 64, Plain (charAtPos false n) ∧ charAtPos false n < 128 ∧
      charAtPos false n ≠ 58 ∧ charAtPos false n ≠ 125 := by
    unfold Plain
    decide +kernel
  rw [base64Encode_eq] at h
  rcases Radix64.mem_encode h with ⟨d, rfl⟩ | rfl
  · exact hChars d.val d.isLt
  · unfold Inert Plain
    decide +kernel

def broadcastText (chunk : Bytes) : Bytes :=
  bytes "\x7b\"__MESSAGE__\":\"BIN_DATA|" ++ base64Encode false chunk ++ bytes "\"\x7d"

theorem messageText_binData {D : Type} (doubles : Doubles D) (chunk : Bytes) :
    messageText doubles (Memory.binData chunk) .null = .ok (broadcastText chunk) := by
  have hField : ∀ c ∈ messageField, Plain c := by unfold Plain; decide +kernel
  have hCommand : ∀ c ∈ bytes "BIN_DATA|", Plain c := by unfold Plain; decide +kernel
  have hBody : ∀ c ∈ Memory.binData chunk, Plain c := by
    intro c hc
    rw [Memory.binData, List.mem_append] at hc
    rcases hc with hc | hc
    · exact hCommand c hc
    · exact (inert_of_mem_base64Encode hc).1
  have hText : stringifyJson doubles
      (.object [(messageField, .string (Memory.binData chunk))]) =
        bytes "\x7b\"" ++ messageField ++ bytes "\":\"" ++ Memory.binData chunk ++
          bytes "\"\x7d" := by
    simp only [stringifyJson, writeValue, writeMembers, writeMember,
      valueToQuotedStringN_plain hField, valueToQuotedStringN_plain hBody]
    have hOpen : bytes "\x7b\"" = [123, 34] := rfl
    have hColon : bytes "\":\"" = [34, 58, 34] := rfl
    have hClose : bytes "\"\x7d" = [34, 125] := rfl
    simp [hOpen, hColon, hClose]
  have hHead : bytes "\x7b\"" ++ messageField ++ bytes "\":\"" ++ bytes "BIN_DATA|" =
      bytes "\x7b\"__MESSAGE__\":\"BIN_DATA|" := rfl
  rw [messageText, Value.assign, Except.map, hText, Memory.binData, broadcastText, ← hHead]
  simp

theorem validate_broadcastText (chunk : Bytes) :
    Utf8Validator.validate (broadcastText chunk) = true := by
  apply Utf8Validator.validate_ascii
  intro c hc
  have hHead : ∀ c ∈ bytes "\x7b\"__MESSAGE__\":\"BIN_DATA|", c < 128 := by decide +kernel
  have hTail : ∀ c ∈ bytes "\"\x7d", c < 128 := by decide +kernel
  simp only [broadcastText, List.mem_append] at hc
  rcases hc with (hc | hc) | hc
  · exact hHead c hc
  · exact (inert_of_mem_base64Encode hc).2.1
  · exact hTail c hc

theorem Memory.broadcast_eq_ok {m : Memory} (hNodup : m.openConnections.Nodup) {chunk : Bytes}
    {endpoint' : Endpoint} :
    m.broadcast chunk = (.ok (), endpoint') ↔
      (∀ conn ∈ m.openConnections, m.endpoint.isOpen conn = true) ∧
        endpoint' = m.endpoint.enqueue m.openConnections (broadcastText chunk) := by
  rw [Memory.broadcast, broadcastMessage_eq_ok (messageText_binData _ chunk) hNodup]
  simp only [validate_broadcastText, and_true]

/-! ## The text on the other side -/

/-- A text sent on by a relay: with or without the tail of the JSON it was cut from. -/
inductive FrameForm
  | bare
  | quoted
  deriving DecidableEq, Repr

def FrameForm.tail : FrameForm → Bytes
  | .bare => []
  | .quoted => bytes "\"\x7d"

def frame (form : FrameForm) (payload : Bytes) : Bytes :=
  commands .bin ++ ch ':' :: (payload ++ form.tail)

theorem base64Encode_ne_nil {chunk : Bytes} (hChunk : chunk ≠ []) :
    base64Encode false chunk ≠ [] := by
  match chunk with
  | [] => exact absurd rfl hChunk
  | [_] => simp [base64Encode]
  | [_, _] => simp [base64Encode]
  | _ :: _ :: _ :: _ => simp [base64Encode]

theorem removeTail_frame {chunk : Bytes} (hChunk : chunk ≠ []) (form : FrameForm) :
    removeTail (base64Encode false chunk ++ form.tail) = base64Encode false chunk := by
  cases form with
  | bare =>
    rw [FrameForm.tail, List.append_nil, removeTail, if_neg]
    rintro ⟨-, hTail⟩
    have hBrace : (125 : UInt8) ∈ base64Encode false chunk :=
      List.mem_of_mem_drop (by rw [hTail]; simp)
    exact (inert_of_mem_base64Encode hBrace).2.2.2 rfl
  | quoted =>
    have hLength : 0 < (base64Encode false chunk).length :=
      List.length_pos_iff.mpr (base64Encode_ne_nil hChunk)
    have hTail : (FrameForm.quoted).tail = [34, 125] := rfl
    rw [hTail, removeTail]
    simp only [List.length_append, List.length_cons, List.length_nil, Nat.add_sub_cancel]
    rw [List.drop_left, List.take_left, if_pos ⟨by omega, rfl⟩]

/-- A frame of a chunk pushes that chunk on the queue of the side it arrives at. -/
theorem onMessage_frame {D : Type} (doubles : Doubles D) {server : Server} {callback : Callback}
    (hType : server.type.callback = some callback) (queues : Queues) (conn : ConnectionHdl)
    {chunk : Bytes} (hChunk : chunk ≠ []) (form : FrameForm) (spare : Spare) :
    onMessage doubles server.setCallbacks queues conn
        ⟨frame form (base64Encode false chunk), spare⟩ =
      .ok (server.setCallbacks, queues.push callback.queue chunk, []) := by
  have hColon : ch ':' ∉ base64Encode false chunk ++ form.tail := by
    intro hMem
    rcases List.mem_append.mp hMem with hMem | hMem
    · exact (inert_of_mem_base64Encode hMem).2.2.1 rfl
    · revert hMem
      cases form <;> decide
  rw [frame, onMessage_binData doubles hType hColon, removeTail_frame hChunk, decodeOrThrow,
    base64Decode_base64Encode]
  rfl

/-! ## The network thread of a process -/

section Deliver

variable {D : Type} (doubles : Doubles D)

/-- `onMessage` on the network thread, which there is when there is a server. -/
def Memory.deliver (m : Memory) (conn : ConnectionHdl) (payload : StdString) :
    Option (Except Exn Memory) :=
  m.server.map fun server =>
    match onMessage doubles server m.queues conn payload with
    | .ok (server, queues, _) => .ok { m with server := some server, queues := queues }
    | .error exn => .error exn

/-- What `onMessage` throws ends the process. -/
def Process.deliver (p : Process) (conn : ConnectionHdl) (payload : StdString) : Option Process :=
  (p.toMemory.deliver doubles conn payload).map fun
    | .ok memory => { memory with pc := p.pc }
    | .error _ => { p with pc := .terminated }

def Memory.RunsOn (m : Memory) (s : Side) : Prop :=
  ∃ server : Server, m.server = some server.setCallbacks ∧ server.type = s.type

theorem Memory.RunsOn.serverType {m : Memory} {s : Side} (h : m.RunsOn s) :
    m.serverType = some s.type := by
  obtain ⟨server, hServer, hType⟩ := h
  simp [Memory.serverType, hServer, Server.setCallbacks, hType]

def Memory.Registered (m : Memory) : Prop :=
  ∀ server, m.server = some server → server.setCallbacks = server

theorem Memory.RunsOn.registered {m : Memory} {s : Side} (h : m.RunsOn s) : m.Registered := by
  intro server hServer
  obtain ⟨old, hOld, -⟩ := h
  rw [hOld, Option.some.injEq] at hServer
  rw [← hServer]
  rfl

theorem Memory.Registered.runsOn {m : Memory} {s : Side} (h : m.Registered)
    (hType : m.serverType = some s.type) : m.RunsOn s := by
  obtain ⟨server, hServer, hType⟩ := Option.map_eq_some_iff.mp hType
  exact ⟨server, by rw [h server hServer, hServer], hType⟩

theorem callback_eq_some {type : ServerType} {callback : Callback}
    (h : type.callback = some callback) : ∃ s : Side, type = s.type ∧ callback = s.callback := by
  cases type with
  | unknown => cases h
  | windows => cases h; exact ⟨.windows, rfl, rfl⟩
  | linux => cases h; exact ⟨.linux, rfl, rfl⟩

variable {doubles}

/-- A delivered payload that does not throw at most pushes one item, on the queue the side
drains. -/
theorem Memory.deliver_eq_ok {m m' : Memory} {conn : ConnectionHdl} {payload : StdString}
    (hRegistered : m.Registered) (h : m.deliver doubles conn payload = some (.ok m')) :
    m'.Registered ∧ m'.endpoint = m.endpoint ∧ m'.openConnections = m.openConnections ∧
      m'.serverType = m.serverType ∧ (m'.queues = m.queues ∨ ∃ s : Side,
        m.serverType = some s.type ∧ ∃ item, m'.queues = m.queues.push s.socket.opposite item) := by
  obtain ⟨server, hServer, h⟩ := Option.map_eq_some_iff.mp h
  have hCallbacks := hRegistered server hServer
  cases hMessage : onMessage doubles server m.queues conn payload with
  | error exn => rw [hMessage] at h; cases h
  | ok result =>
    obtain ⟨server', queues', calls⟩ := result
    rw [hMessage] at h
    cases h
    rw [← hCallbacks] at hMessage
    obtain ⟨⟨handlers, rfl⟩, hQueues⟩ := onMessage_effect doubles hMessage
    refine ⟨?_, rfl, ?_, ?_, ?_⟩
    · rintro _ ⟨rfl⟩
      rfl
    · rw [Memory.openConnections, Memory.openConnections, hServer]
      rfl
    · rw [Memory.serverType, Memory.serverType, hServer]
      rfl
    · rcases hQueues with rfl | ⟨callback, item, hCallback, rfl⟩
      · exact .inl rfl
      · obtain ⟨s, hType, rfl⟩ := callback_eq_some hCallback
        refine .inr ⟨s, ?_, item, ?_⟩
        · rw [Memory.serverType, hServer, Option.map_some, hType]
        · rw [s.callback_queue]

theorem Memory.RunsOn.deliver {s : Side} {m m' : Memory} {conn : ConnectionHdl}
    {payload : StdString} (hSide : m.RunsOn s) (h : m.deliver doubles conn payload = some (.ok m')) :
    m'.RunsOn s ∧ ∃ items, m'.queues.data s.socket.opposite =
      m.queues.data s.socket.opposite ++ items := by
  obtain ⟨hRegistered, -, -, hType, hQueues⟩ := deliver_eq_ok hSide.registered h
  refine ⟨hRegistered.runsOn (hType.trans hSide.serverType), ?_⟩
  rcases hQueues with hQueues | ⟨r, hSame, item, hQueues⟩
  · exact ⟨[], by rw [hQueues, List.append_nil]⟩
  · obtain rfl : r = s := by
      have hEq := hSame.symm.trans hSide.serverType
      cases r <;> cases s <;> first | rfl | cases hEq
    exact ⟨[item], by simp [hQueues, Queues.push]⟩

variable (doubles) in
theorem Memory.RunsOn.deliver_binData {s : Side} {m : Memory} (hSide : m.RunsOn s)
    (conn : ConnectionHdl) {data : Bytes} (hData : ch ':' ∉ data) (spare : Spare) :
    m.deliver doubles conn ⟨commands .bin ++ ch ':' :: data, spare⟩ =
      some ((decodeOrThrow (removeTail data)).map fun item =>
        { m with queues := m.queues.push s.socket.opposite item }) := by
  obtain ⟨server, hServer, hType⟩ := hSide
  have hCallback : server.type.callback = some s.callback := by rw [hType, s.type_callback]
  rw [Memory.deliver, hServer, Option.map_some, onMessage_binData _ hCallback hData,
    s.callback_queue]
  cases decodeOrThrow (removeTail data) with
  | error exn => rfl
  | ok item => simp only [Except.map]

theorem Process.deliver_eq_some {s : Side} {p p' : Process} {conn : ConnectionHdl}
    {payload : StdString} (hSide : p.RunsOn s) (h : p.deliver doubles conn payload = some p') :
    p'.RunsOn s ∧ (∃ items, p'.queues.data s.socket.opposite =
      p.queues.data s.socket.opposite ++ items) ∧ (p'.pc = p.pc ∨ p'.pc = .terminated) := by
  obtain ⟨result, hDeliver, rfl⟩ := Option.map_eq_some_iff.mp h
  cases result with
  | error exn => exact ⟨hSide, ⟨[], (List.append_nil _).symm⟩, .inr rfl⟩
  | ok memory =>
    obtain ⟨hSide', hItems⟩ := hSide.deliver hDeliver
    exact ⟨hSide', hItems, .inl rfl⟩

end Deliver

end ScRedirection.TcpTunnel
