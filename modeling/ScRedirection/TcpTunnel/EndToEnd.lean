import ScRedirection.Library.Pipe
import ScRedirection.TcpTunnel.BinData

/-! # Two servers and a relay

A Linux side and a Windows side, each with one session running and one open connection to a
relay. Bytes read on one side pass through the thread, the send queue, the relay, the network
thread and the queue of the other side. Each direction is shown to be a pipe.
-/

namespace ScRedirection.TcpTunnel.EndToEnd

open Json Websocketpp WebsocketServer Base64

/-! ## One side -/

/-- The side has one listed connection, which is open. -/
structure LinkedTo (s : Side) (p : Process) (hdl : ConnectionHdl) (con : Connection) : Prop where
  serverType : p.serverType = some s.type
  listed : p.openConnections = [hdl]
  connected : p.endpoint.connections hdl = some con
  open_state : con.state = .open

theorem LinkedTo.nodup {s : Side} {p : Process} {hdl : ConnectionHdl} {con : Connection}
    (h : LinkedTo s p hdl con) : p.openConnections.Nodup := by
  rw [h.listed]
  simp

theorem LinkedTo.broadcast_eq {s : Side} {p : Process} {hdl : ConnectionHdl} {con : Connection}
    (h : LinkedTo s p hdl con) (chunk : Bytes) :
    p.broadcast chunk =
      (.ok (), p.endpoint.enqueue p.openConnections (broadcastText chunk)) := by
  refine (Memory.broadcast_eq_ok h.nodup).mpr ⟨?_, rfl⟩
  rw [h.listed]
  simpa using Endpoint.isOpen_iff.mpr ⟨con, h.connected, h.open_state⟩

theorem step_outflow {s : Side} {p p' : Process} {a : Action} {hdl : ConnectionHdl}
    {con : Connection} (hLink : LinkedTo s p hdl con) (hStep : p.Step a p') :
    ∃ chunks : List Bytes, (∀ chunk ∈ chunks, ∃ sock io, p.pc = .broadcast sock io chunk) ∧
      heldIn p.pc ++ receivedOn s.socket [a] = chunks.flatten ++ heldIn p'.pc ∧
      LinkedTo s p' hdl { con with sendQueue := con.sendQueue ++ chunks.map broadcastText } := by
  have hSame : ∀ q : Process, q.server = p.server → q.endpoint = p.endpoint →
      LinkedTo s q hdl { con with sendQueue := con.sendQueue ++ [].map broadcastText } := by
    intro q hServer hEndpoint
    refine ⟨?_, ?_, ?_, hLink.open_state⟩
    · rw [Memory.serverType, hServer]
      exact hLink.serverType
    · rw [Memory.openConnections, hServer]
      exact hLink.listed
    · rw [hEndpoint, hLink.connected]
      simp
  cases hStep with
  | forwarded hPc hChunk hForwards =>
    rename_i sock io chunk
    rw [hLink.serverType, Side.forwards_iff] at hForwards
    refine ⟨[], by simp, ?_, hSame _ rfl rfl⟩
    simp [hPc, heldIn, receivedOn, hForwards]
  | dropped hPc hChunk hForwards =>
    rename_i sock io chunk
    have hSock : sock ≠ s.socket := by
      intro hSock
      rw [hLink.serverType, (Side.forwards_iff s sock).mpr hSock] at hForwards
      cases hForwards
    refine ⟨[], by simp, ?_, hSame _ rfl rfl⟩
    rw [heldIn_begins (begins_next ..), hPc]
    simp [heldIn, receivedOn, hSock]
  | broadcastReturned hPc hReturn =>
    rename_i sock io chunk
    refine ⟨[chunk], ?_, ?_, hLink.serverType, hLink.listed, ?_, hLink.open_state⟩
    · simp [hPc]
    · rw [heldIn_begins (begins_next ..), hPc]
      simp [heldIn, receivedOn]
    · rw [hLink.broadcast_eq chunk, Endpoint.connections_enqueue, hLink.listed,
        if_pos (by simp), hLink.connected]
      rfl
  | broadcastThrew hPc hThrow =>
    rename_i sock io chunk exn
    rw [hLink.broadcast_eq chunk] at hThrow
    cases hThrow
  | _ =>
    refine ⟨[], by simp, ?_, hSame _ rfl rfl⟩
    simp_all only [heldIn_begins (begins_next ..), heldIn_begins (begins_enterClient ..)]
    simp [heldIn, receivedOn]

/-! ## Both sides -/

structure Net where
  process : Side → Process
  incoming : Side → List Bytes

namespace Net

def setProcess (net : Net) (s : Side) (p : Process) : Net :=
  { net with process := Function.update net.process s p }

def setIncoming (net : Net) (s : Side) (texts : List Bytes) : Net :=
  { net with incoming := Function.update net.incoming s texts }

end Net

/-- The `P` of a text `{"__MESSAGE__":"BIN_DATA|P"}`. -/
def relayPayload (text : Bytes) : Option Bytes :=
  let body := text.drop (bytes "\x7b\"__MESSAGE__\":\"BIN_DATA|").length
  if bytes "\x7b\"__MESSAGE__\":\"BIN_DATA|" <+: text ∧ bytes "\"\x7d" <:+ body then
    some (body.take (body.length - 2))
  else none

@[simp] theorem Net.process_setProcess (net : Net) (r s : Side) (p : Process) :
    (net.setProcess r p).process s = if s = r then p else net.process s := by
  simp [Net.setProcess, Function.update_apply]

@[simp] theorem Net.incoming_setProcess (net : Net) (r s : Side) (p : Process) :
    (net.setProcess r p).incoming s = net.incoming s := rfl

@[simp] theorem Net.process_setIncoming (net : Net) (r s : Side) (texts : List Bytes) :
    (net.setIncoming r texts).process s = net.process s := rfl

@[simp] theorem Net.incoming_setIncoming (net : Net) (r s : Side) (texts : List Bytes) :
    (net.setIncoming r texts).incoming s = if s = r then texts else net.incoming s := by
  simp [Net.setIncoming, Function.update_apply]

/-- `post` is any other text put on the connection: a greeting, an echo, a typed line. -/
inductive Event
  | tunnel (s : Side) (a : Action)
  | post (s : Side) (text : Bytes)
  | forward (s : Side) (form : FrameForm)
  | deliver (s : Side) (spare : Spare)
  deriving DecidableEq, Repr

section Machine

variable {D : Type} (doubles : Doubles D) (relay : Side → ConnectionHdl)

/-- The relay takes the next text of a side; a BIN_DATA broadcast goes to the other side. -/
def forwardStep (net : Net) (s : Side) (form : FrameForm) : Option Net :=
  let p := net.process s
  match p.endpoint.connections (relay s) with
  | none => none
  | some con =>
    match con.sendQueue with
    | [] => none
    | text :: rest =>
      let taken := net.setProcess s
        { p with endpoint := p.endpoint.set (relay s) (some { con with sendQueue := rest }) }
      match relayPayload text with
      | some payload =>
        some (taken.setIncoming s.other (net.incoming s.other ++ [frame form payload]))
      | none => some taken

def deliverStep (net : Net) (s : Side) (spare : Spare) : Option Net :=
  match net.incoming s with
  | [] => none
  | text :: rest =>
    ((net.process s).deliver doubles (relay s) ⟨text, spare⟩).map
      ((net.setIncoming s rest).setProcess s)

def postStep (net : Net) (s : Side) (text : Bytes) : Option Net :=
  let p := net.process s
  match p.endpoint.connections (relay s), relayPayload text with
  | some con, none =>
    some (net.setProcess s
      { p with endpoint := p.endpoint.set (relay s) (some (con.writePush text)) })
  | _, _ => none

def machine : EventMachine Net Event where
  step net
    | .tunnel s a => ((net.process s).useTunnel a).map (net.setProcess s)
    | .post s text => postStep relay net s text
    | .forward s form => forwardStep relay net s form
    | .deliver s spare => deliverStep doubles relay net s spare

def startProcess (handlers : List (Bytes × List HandlerId)) (s : Side) : Process where
  server := some (Server.setCallbacks
    { type := s.type, openConnections := [relay s], messageHandlers := handlers })
  queues := {}
  endpoint := Endpoint.empty.set (relay s) (some { state := .open })
  pc := .select

def start (handlers : Side → List (Bytes × List HandlerId)) : Net where
  process s := startProcess relay (handlers s) s
  incoming _ := []

end Machine

theorem relayPayload_broadcastText (chunk : Bytes) :
    relayPayload (broadcastText chunk) = some (base64Encode false chunk) := by
  have hText : broadcastText chunk = bytes "\x7b\"__MESSAGE__\":\"BIN_DATA|" ++
      (base64Encode false chunk ++ bytes "\"\x7d") := by
    rw [broadcastText, List.append_assoc]
  have hTail : (bytes "\"\x7d").length = 2 := rfl
  rw [relayPayload, hText, List.drop_left, if_pos ⟨List.prefix_append _ _, List.suffix_append _ _⟩,
    List.length_append, hTail, Nat.add_sub_cancel, List.take_left]

/-! ## Each direction is a pipe -/

/-- The bytes of a text on its way, before the relay and after it. -/
def textBytes (text : Bytes) : Bytes :=
  match relayPayload text with
  | some payload => (base64Decode payload).toOption.getD []
  | none => []

def frameBytes (text : Bytes) : Bytes :=
  (base64Decode (removeTail (text.drop ((commands .bin).length + 1)))).toOption.getD []

theorem textBytes_broadcastText (chunk : Bytes) : textBytes (broadcastText chunk) = chunk := by
  rw [textBytes, relayPayload_broadcastText]
  simp [base64Decode_base64Encode, Except.toOption]

theorem frameBytes_frame {chunk : Bytes} (hChunk : chunk ≠ []) (form : FrameForm) :
    frameBytes (frame form (base64Encode false chunk)) = chunk := by
  have hDrop : (frame form (base64Encode false chunk)).drop ((commands .bin).length + 1) =
      base64Encode false chunk ++ form.tail := by
    rw [frame, ← List.drop_drop, List.drop_left]
    rfl
  rw [frameBytes, hDrop, removeTail_frame hChunk, base64Decode_base64Encode]
  rfl

section Direction

variable {D : Type} (doubles : Doubles D) (relay : Side → ConnectionHdl)

def sendQueue (net : Net) (s : Side) : List Bytes :=
  match (net.process s).endpoint.connections (relay s) with
  | some con => con.sendQueue
  | none => []

/-- From the side that read last to the side that sends first. -/
def inTransit (net : Net) (s : Side) : Bytes :=
  heldOut s.other (net.process s.other).pc ++
    ((net.process s.other).queues.data s.other.socket.opposite).flatten ++
    (net.incoming s.other).flatMap frameBytes ++ (sendQueue relay net s).flatMap textBytes ++
    heldIn (net.process s).pc

def actionsOf (s : Side) (es : List Event) : List Action :=
  es.filterMap fun | .tunnel r a => if r = s then some a else none | _ => none

def pipeEvents (s : Side) : Event → List (Pipe.Event UInt8)
  | .tunnel r a =>
    if r = s then [.feed (receivedOn s.socket [a])] else [.drain (sentOn s.other.socket [a])]
  | _ => []

theorem fed_pipeEvents (s : Side) (es : List Event) :
    Pipe.fed (es.flatMap (pipeEvents s)) = receivedOn s.socket (actionsOf s es) := by
  induction es with
  | nil => rfl
  | cons e es ih =>
    simp only [Pipe.fed, receivedOn, List.flatMap_cons, List.flatMap_append] at ih ⊢
    rw [ih]
    cases e with
    | tunnel r a => by_cases h : r = s <;> simp [pipeEvents, actionsOf, receivedOn, h]
    | _ => simp [pipeEvents, actionsOf]

theorem drained_pipeEvents (s : Side) (es : List Event) :
    Pipe.drained (es.flatMap (pipeEvents s)) =
      sentOn s.other.socket (actionsOf s.other es) := by
  induction es with
  | nil => rfl
  | cons e es ih =>
    simp only [Pipe.drained, sentOn, List.flatMap_cons, List.flatMap_append] at ih ⊢
    rw [ih]
    cases e with
    | tunnel r a =>
      rcases r.eq_or_eq_other s with rfl | rfl
      · simp [pipeEvents, actionsOf, (Side.other_ne r).symm]
      · simp [pipeEvents, actionsOf, sentOn, Side.other_ne]
    | _ => simp [pipeEvents, actionsOf]

structure Linked (net : Net) (s : Side) : Prop where
  server : (net.process s).RunsOn s
  link : ∃ con, LinkedTo s (net.process s) (relay s) con
  texts : ∀ text ∈ sendQueue relay net s, ∀ payload, relayPayload text = some payload →
    ∃ chunk, chunk ≠ [] ∧ payload = base64Encode false chunk
  frames : ∀ text ∈ net.incoming s, ∃ form chunk, chunk ≠ [] ∧
    text = frame form (base64Encode false chunk)
  held : ∀ sock io chunk, (net.process s).pc = .broadcast sock io chunk → chunk ≠ []
  alive : (net.process s).pc ≠ .terminated

variable {doubles} {relay} {net net' : Net} {r s : Side}

theorem Linked.congr (h : Linked relay net s) (hProcess : net'.process s = net.process s)
    (hIncoming : ∀ text ∈ net'.incoming s, text ∈ net.incoming s ∨ ∃ form chunk, chunk ≠ [] ∧
      text = frame form (base64Encode false chunk)) : Linked relay net' s where
  server := hProcess ▸ h.server
  link := hProcess ▸ h.link
  texts := by
    intro text hText
    rw [sendQueue, hProcess] at hText
    exact h.texts text hText
  frames := by
    intro text hText
    exact (hIncoming text hText).elim (h.frames text) id
  held := hProcess ▸ h.held
  alive := hProcess ▸ h.alive

theorem sendQueue_of_linkedTo {con : Connection} (h : LinkedTo s (net.process s) (relay s) con) :
    sendQueue relay net s = con.sendQueue := by
  rw [sendQueue, h.connected]

/-- A change to the process of one side leaves the other side as it was. -/
theorem linked_setProcess {p : Process} (hNet : ∀ s, Linked relay net s)
    (h : Linked relay (net.setProcess r p) r) (s : Side) : Linked relay (net.setProcess r p) s := by
  by_cases hSide : s = r
  · exact hSide ▸ h
  · exact (hNet s).congr (by simp [hSide]) fun text hText => .inl hText

/-! A move of the tunnel. -/

theorem linked_tunnel {a : Action} {p : Process} (hNet : ∀ s, Linked relay net s)
    (h : (net.process r).useTunnel a = some p) (s : Side) :
    Linked relay (net.setProcess r p) s := by
  refine linked_setProcess hNet ?_ s
  have hStep := Process.useTunnel_step h
  obtain ⟨con, hLink⟩ := (hNet r).link
  obtain ⟨chunks, hChunks, hBytes, hLink'⟩ := step_outflow hLink hStep
  have hProcess : (net.setProcess r p).process r = p := by simp
  constructor
  · rw [hProcess, Memory.RunsOn, hStep.server_eq]
    exact (hNet r).server
  · rw [hProcess]
    exact ⟨_, hLink'⟩
  · intro text hText payload hPayload
    rw [← hProcess] at hLink'
    rw [sendQueue_of_linkedTo hLink', List.mem_append, List.mem_map] at hText
    rcases hText with hText | ⟨chunk, hChunk, rfl⟩
    · rw [← sendQueue_of_linkedTo hLink] at hText
      exact (hNet r).texts text hText payload hPayload
    · obtain ⟨sock, io, hPc⟩ := hChunks chunk hChunk
      rw [relayPayload_broadcastText, Option.some.injEq] at hPayload
      exact ⟨chunk, (hNet r).held sock io chunk hPc, hPayload.symm⟩
  · exact (hNet r).frames
  · rw [hProcess]
    intro sock io chunk hPc
    exact (hStep.read_of_broadcast hPc).2.1
  · rw [hProcess]
    intro hPc
    obtain ⟨chunk, exn, -, hThrow⟩ := hStep.threw_of_terminated hPc
    rw [hLink.broadcast_eq chunk] at hThrow
    cases hThrow

theorem pipe_tunnel {a : Action} {p : Process} (hNet : ∀ s, Linked relay net s)
    (h : (net.process r).useTunnel a = some p) (s : Side) :
    Pipe.machine.run (inTransit relay net s) (pipeEvents s (.tunnel r a)) =
      some (inTransit relay (net.setProcess r p) s) := by
  have hStep := Process.useTunnel_step h
  rcases r.eq_or_eq_other s with rfl | rfl
  · obtain ⟨con, hLink⟩ := (hNet r).link
    obtain ⟨chunks, hChunks, hBytes, hLink'⟩ := step_outflow hLink hStep
    have hTexts : (chunks.map broadcastText).flatMap textBytes = chunks.flatten := by
      simp [List.flatMap_map, textBytes_broadcastText, List.flatMap_id']
    have hProcess : (net.setProcess r p).process r = p := by simp
    have hQueue := sendQueue_of_linkedTo (hProcess.symm ▸ hLink')
    rw [pipeEvents, if_pos rfl, Pipe.run_feed, inTransit, inTransit, hQueue,
      sendQueue_of_linkedTo hLink]
    simp [Side.other_ne, hTexts, List.append_assoc, hBytes]
  · have hInflow := hStep.inflow s.other
    have hQueue : sendQueue relay (net.setProcess s.other p) s = sendQueue relay net s := by
      simp [sendQueue, (Side.other_ne s).symm]
    rw [pipeEvents, if_neg (Side.other_ne s), inTransit, inTransit, hQueue]
    simp only [Net.process_setProcess, Net.incoming_setProcess, if_true,
      if_neg (Side.other_ne s).symm]
    rw [hInflow]
    simp only [List.append_assoc]
    exact Pipe.run_drain _ _

/-! The network thread and the relay. -/

theorem Linked.setSendQueue (h : Linked relay net s) {con : Connection} {queue : List Bytes}
    (hCon : (net.process s).endpoint.connections (relay s) = some con)
    (hTexts : ∀ text ∈ queue, text ∈ con.sendQueue ∨ relayPayload text = none) :
    Linked relay (net.setProcess s { net.process s with
      endpoint := (net.process s).endpoint.set (relay s) (some { con with sendQueue := queue }) })
      s := by
  obtain ⟨old, hLink⟩ := h.link
  obtain rfl : con = old := Option.some.inj (hCon.symm.trans hLink.connected)
  constructor
  · simpa [Memory.RunsOn] using h.server
  · refine ⟨{ con with sendQueue := queue }, ?_⟩
    rw [Net.process_setProcess, if_pos rfl]
    exact ⟨hLink.serverType, hLink.listed, by simp, hLink.open_state⟩
  · intro text hText payload hPayload
    simp only [sendQueue, Net.process_setProcess, if_true, Endpoint.connections_set] at hText
    rcases hTexts text hText with hOld | hNone
    · rw [← sendQueue_of_linkedTo hLink] at hOld
      exact h.texts text hOld payload hPayload
    · cases hNone.symm.trans hPayload
  · exact h.frames
  · simpa using h.held
  · simpa using h.alive

theorem step_post {text : Bytes} (hNet : ∀ s, Linked relay net s)
    (h : postStep relay net r text = some net') :
    (∀ s, Linked relay net' s) ∧ ∀ s, inTransit relay net' s = inTransit relay net s := by
  obtain ⟨con, hLink⟩ := (hNet r).link
  cases hPayload : relayPayload text with
  | some payload => simp [postStep, hLink.connected, hPayload] at h
  | none =>
    simp only [postStep, hLink.connected, hPayload, Option.some.injEq] at h
    subst h
    have hBytes : textBytes text = [] := by simp [textBytes, hPayload]
    constructor
    · apply linked_setProcess hNet
      apply (hNet r).setSendQueue hLink.connected
      intro t ht
      rcases List.mem_append.mp ht with ht | ht
      · exact .inl ht
      · rw [List.mem_singleton.mp ht]
        exact .inr hPayload
    · intro s
      rcases r.eq_or_eq_other s with rfl | rfl
      · simp [inTransit, sendQueue, Side.other_ne, hLink.connected, Connection.writePush, hBytes]
      · simp [inTransit, sendQueue, (Side.other_ne s).symm]

theorem step_forward {form : FrameForm} (hNet : ∀ s, Linked relay net s)
    (h : forwardStep relay net r form = some net') :
    (∀ s, Linked relay net' s) ∧ ∀ s, inTransit relay net' s = inTransit relay net s := by
  obtain ⟨con, hLink⟩ := (hNet r).link
  cases hQueue : con.sendQueue with
  | nil => simp [forwardStep, hLink.connected, hQueue] at h
  | cons text rest =>
    have hRest : ∀ t ∈ rest, t ∈ con.sendQueue ∨ relayPayload t = none := by
      intro t ht
      rw [hQueue]
      exact .inl (List.mem_cons_of_mem _ ht)
    have hTaken := (hNet r).setSendQueue hLink.connected hRest
    cases hPayload : relayPayload text with
    | none =>
      simp only [forwardStep, hLink.connected, hQueue, hPayload, Option.some.injEq] at h
      subst h
      have hBytes : textBytes text = [] := by simp [textBytes, hPayload]
      constructor
      · exact linked_setProcess hNet hTaken
      · intro s
        rcases r.eq_or_eq_other s with rfl | rfl
        · simp [inTransit, sendQueue, Side.other_ne, hLink.connected, hQueue, hBytes]
        · simp [inTransit, sendQueue, (Side.other_ne s).symm]
    | some payload =>
      simp only [forwardStep, hLink.connected, hQueue, hPayload, Option.some.injEq] at h
      subst h
      have hMem : text ∈ sendQueue relay net r := by
        rw [sendQueue_of_linkedTo hLink, hQueue]
        exact List.mem_cons_self
      obtain ⟨chunk, hChunk, rfl⟩ := (hNet r).texts text hMem payload hPayload
      have hBytes : textBytes text = chunk := by
        simp [textBytes, hPayload, base64Decode_base64Encode, Except.toOption]
      constructor
      · intro s
        refine (linked_setProcess hNet hTaken s).congr (by simp) fun t ht => ?_
        rw [Net.incoming_setIncoming] at ht
        split_ifs at ht with hOther
        · rw [List.mem_append, List.mem_singleton, ← hOther] at ht
          exact ht.imp id fun hNew => ⟨form, chunk, hChunk, hNew⟩
        · exact .inl ht
      · intro s
        rcases r.eq_or_eq_other s with rfl | rfl
        · simp [inTransit, sendQueue, Side.other_ne, hLink.connected, hQueue, hBytes,
            frameBytes_frame hChunk]
        · simp [inTransit, sendQueue, Side.other_ne, (Side.other_ne s).symm]

theorem step_deliver {spare : Spare} (hNet : ∀ s, Linked relay net s)
    (h : deliverStep doubles relay net r spare = some net') :
    (∀ s, Linked relay net' s) ∧ ∀ s, inTransit relay net' s = inTransit relay net s := by
  obtain ⟨con, hLink⟩ := (hNet r).link
  obtain ⟨server, hServer, hType⟩ := (hNet r).server
  cases hIncoming : net.incoming r with
  | nil => simp [deliverStep, hIncoming] at h
  | cons text rest =>
    obtain ⟨form, chunk, hChunk, rfl⟩ := (hNet r).frames text (by simp [hIncoming])
    have hMessage := onMessage_frame doubles (hType ▸ r.type_callback)
      (net.process r).queues (relay r) hChunk form spare
    have hDeliver : (net.process r).deliver doubles (relay r)
        ⟨frame form (base64Encode false chunk), spare⟩ = some { net.process r with
          queues := (net.process r).queues.push r.socket.opposite chunk } := by
      simp [Process.deliver, Memory.deliver, hServer, hMessage, r.callback_queue]
    simp only [deliverStep, hIncoming, hDeliver, Option.map_some, Option.some.injEq] at h
    subst h
    constructor
    · intro s
      by_cases hSide : s = r
      · subst hSide
        have hOld := hNet s
        constructor
        · simpa using ⟨server, hServer, hType⟩
        · refine ⟨con, ?_⟩
          rw [Net.process_setProcess, if_pos rfl]
          exact ⟨hLink.serverType, hLink.listed, hLink.connected, hLink.open_state⟩
        · simpa [sendQueue] using hOld.texts
        · intro t ht
          apply hOld.frames t
          rw [Net.incoming_setProcess, Net.incoming_setIncoming, if_pos rfl] at ht
          rw [hIncoming]
          exact List.mem_cons_of_mem _ ht
        · simpa using hOld.held
        · simpa using hOld.alive
      · refine (hNet s).congr (by simp [hSide]) fun t ht => .inl ?_
        simpa [hSide] using ht
    · intro s
      rcases r.eq_or_eq_other s with rfl | rfl
      · simp [inTransit, sendQueue, Side.other_ne]
      · simp [inTransit, sendQueue, (Side.other_ne s).symm, hIncoming, Queues.push,
          frameBytes_frame hChunk]

/-- Nothing is between the socket of one side and the socket of the other. -/
structure Quiet (relay : Side → ConnectionHdl) (net : Net) (s : Side) : Prop where
  read : ∀ sock io chunk, (net.process s).pc ≠ .broadcast sock io chunk
  queued : ∀ text ∈ sendQueue relay net s, relayPayload text = none
  relayed : net.incoming s.other = []
  popped : (net.process s.other).queues.data s.other.socket.opposite = []
  sent : ∀ sock io decoded, (net.process s.other).pc ≠ .send sock io decoded

theorem Quiet.inTransit_eq (h : Quiet relay net s) : inTransit relay net s = [] := by
  have hRead : heldIn (net.process s).pc = [] := by
    cases hPc : (net.process s).pc with
    | broadcast sock io chunk => exact absurd hPc (h.read sock io chunk)
    | _ => rfl
  have hSent : heldOut s.other (net.process s.other).pc = [] := by
    cases hPc : (net.process s.other).pc with
    | send sock io decoded => exact absurd hPc (h.sent sock io decoded)
    | _ => rfl
  have hQueued : (sendQueue relay net s).flatMap textBytes = [] := by
    rw [List.flatMap_eq_nil_iff]
    intro text hText
    simp [textBytes, h.queued text hText]
  rw [inTransit, hRead, hSent, hQueued, h.relayed, h.popped]
  rfl

theorem linked_start (handlers : Side → List (Bytes × List HandlerId)) (s : Side) :
    Linked relay (start relay handlers) s where
  server := ⟨_, rfl, rfl⟩
  link := ⟨{ state := .open }, rfl, rfl, by simp [start, startProcess], rfl⟩
  texts := by simp [sendQueue, start, startProcess]
  frames := by simp [start]
  held := by simp [start, startProcess]
  alive := by simp [start, startProcess]

theorem quiet_start (handlers : Side → List (Bytes × List HandlerId)) (s : Side) :
    Quiet relay (start relay handlers) s where
  read := by simp [start, startProcess]
  queued := by simp [sendQueue, start, startProcess]
  relayed := rfl
  popped := by cases s <;> rfl
  sent := by simp [start, startProcess]

theorem run_pipe {handlers : Side → List (Bytes × List HandlerId)} {es : List Event}
    (h : (machine doubles relay).run (start relay handlers) es = some net) (s : Side) :
    Linked relay net s ∧
      Pipe.machine.run [] (es.flatMap (pipeEvents s)) = some (inTransit relay net s) := by
  rw [← (quiet_start handlers s : Quiet relay _ s).inTransit_eq]
  have hRun := (machine doubles relay).run_refines Pipe.machine
    (I := fun net => ∀ s, Linked relay net s) (inTransit relay · s) (pipeEvents s) ?_
    (linked_start handlers) h
  · exact ⟨hRun.1 s, hRun.2⟩
  intro net e net' hNet hStep
  cases e with
  | tunnel r a =>
    obtain ⟨p, hp, rfl⟩ := Option.map_eq_some_iff.mp hStep
    exact ⟨linked_tunnel hNet hp, pipe_tunnel hNet hp s⟩
  | post r text =>
    obtain ⟨hLinked, hSame⟩ := step_post hNet hStep
    exact ⟨hLinked, congrArg some (hSame s).symm⟩
  | forward r form =>
    obtain ⟨hLinked, hSame⟩ := step_forward hNet hStep
    exact ⟨hLinked, congrArg some (hSame s).symm⟩
  | deliver r spare =>
    obtain ⟨hLinked, hSame⟩ := step_deliver hNet hStep
    exact ⟨hLinked, congrArg some (hSame s).symm⟩

/-- In either direction and at every moment of every run, what one side has sent is a prefix of
what the other has received, and all of it when nothing is on its way; and no exception escapes. -/
theorem sent_prefix_received (doubles : Doubles D) (relay : Side → ConnectionHdl)
    (handlers : Side → List (Bytes × List HandlerId)) {es : List Event} {net : Net}
    (h : (machine doubles relay).run (start relay handlers) es = some net) (s : Side) :
    sentOn s.other.socket (actionsOf s.other es) <+: receivedOn s.socket (actionsOf s es) ∧
      (Quiet relay net s → sentOn s.other.socket (actionsOf s.other es) =
        receivedOn s.socket (actionsOf s es)) ∧
      (net.process s).pc ≠ .terminated := by
  obtain ⟨hLinked, hPipe⟩ := run_pipe h s
  rw [← fed_pipeEvents, ← drained_pipeEvents]
  refine ⟨(Pipe.ofRun hPipe).output_isPrefix, fun hQuiet => ?_, hLinked.alive⟩
  exact (Pipe.ofRun hPipe).output_eq_of_empty hQuiet.inTransit_eq

def exampleRun : List Event :=
  [.tunnel .linux (.select (some ⟨true, false⟩)),
    .tunnel .linux (.recv .client (some (bytes "hi"))),
    .tunnel .linux (.broadcast (bytes "hi") true), .forward .linux .quoted, .deliver .windows .none,
    .tunnel .windows (.select (some ⟨true, false⟩)), .tunnel .windows (.getSize .client 1),
    .tunnel .windows (.pop .client (bytes "hi")), .tunnel .windows (.send .remote (bytes "hi"))]

theorem sent_prefix_received_exampleRun :
    ∃ net, (machine Doubles.absent fun _ => 0).run (start (fun _ => 0) fun _ => []) exampleRun =
        some net ∧
      sentOn .remote (actionsOf .windows exampleRun) <+:
        receivedOn .client (actionsOf .linux exampleRun) ∧
      (Quiet (fun _ => 0) net .linux → sentOn .remote (actionsOf .windows exampleRun) =
        receivedOn .client (actionsOf .linux exampleRun)) ∧
      (net.process .linux).pc ≠ .terminated := by
  have hSome : ((machine Doubles.absent fun _ => 0).run (start (fun _ => 0) fun _ => [])
      exampleRun).isSome := by
    decide +kernel
  obtain ⟨net, hRun⟩ := Option.isSome_iff_exists.mp hSome
  exact ⟨net, hRun, sent_prefix_received _ _ _ hRun .linux⟩

end Direction

end ScRedirection.TcpTunnel.EndToEnd
