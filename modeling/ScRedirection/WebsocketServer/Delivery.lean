import ScRedirection.Json.Returned
import ScRedirection.WebsocketServer
import ScRedirection.Websocketpp.Wires

/-! # A broadcast over the wire

The messages of the server go out on connections that are read, written and closed by other threads.
What a broadcast pushes is what it pushes on an endpoint that knows no wires, and it arrives.
-/

namespace ScRedirection.WebsocketServer

open Json Websocketpp TcpTunnel

section Wires

variable {D : Type} (doubles : Doubles D)

def sendMessageOver (wires : Wires) (conn : ConnectionHdl) (messageType : Bytes)
    (arguments : Value D) : Except Exn Wires :=
  match arguments.assign messageField (.string messageType) with
  | .error error => .error (.json error)
  | .ok messageData =>
    match wires.send conn (stringifyJson doubles messageData) with
    | .error error => .error (.websocketpp error)
    | .ok wires => .ok wires

/-- `broadcastMessage`, on the connections themselves. -/
def broadcastMessageOver (messageType : Bytes) (arguments : Value D) :
    Wires → List ConnectionHdl → Except Exn Unit × Wires
  | wires, [] => (.ok (), wires)
  | wires, conn :: conns =>
    match sendMessageOver doubles wires conn messageType arguments with
    | .error exn => (.error exn, wires)
    | .ok wires => broadcastMessageOver messageType arguments wires conns

variable {doubles} {wires wires' : Wires} {conn : ConnectionHdl} {messageType : Bytes}
  {arguments : Value D}

theorem endpoint_sendMessageOver :
    (sendMessageOver doubles wires conn messageType arguments).map Wires.endpoint =
      sendMessage doubles wires.endpoint conn messageType arguments := by
  rw [sendMessageOver, sendMessage]
  cases arguments.assign messageField (.string messageType) with
  | error error => rfl
  | ok messageData =>
    dsimp only
    rw [← Wires.endpoint_send]
    cases wires.send conn (stringifyJson doubles messageData) <;> rfl

/-- The connections refine the endpoint: a broadcast returns the same and leaves the same. -/
theorem endpoint_broadcastMessageOver (conns : List ConnectionHdl) :
    (broadcastMessageOver doubles messageType arguments wires conns).map id Wires.endpoint =
      broadcastMessage doubles messageType arguments wires.endpoint conns := by
  induction conns generalizing wires with
  | nil => rfl
  | cons conn conns ih =>
    have hSend := @endpoint_sendMessageOver _ doubles wires conn messageType arguments
    rw [broadcastMessageOver, broadcastMessage, ← hSend]
    cases sendMessageOver doubles wires conn messageType arguments with
    | error exn => rfl
    | ok wires' => exact ih

theorem sendMessageOver_ok
    (h : sendMessageOver doubles wires conn messageType arguments = .ok wires') :
    ∃ text con con', messageText doubles messageType arguments = .ok text ∧
      wires.connections conn = some con ∧ con.send text = .ok con' ∧
      wires' = wires.set conn (some con') := by
  unfold sendMessageOver Wires.send at h
  rw [messageText]
  cases hText : arguments.assign messageField (.string messageType) with
  | error error =>
    rw [hText] at h
    cases h
  | ok messageData =>
    rw [hText] at h
    dsimp only at h
    cases hCon : wires.connections conn with
    | none =>
      rw [hCon] at h
      cases h
    | some con =>
      rw [hCon] at h
      dsimp only at h
      cases hSend : con.send (stringifyJson doubles messageData) with
      | error error =>
        rw [hSend] at h
        cases h
      | ok con' =>
        rw [hSend] at h
        cases h
        exact ⟨_, con, con', rfl, rfl, hSend, rfl⟩

/-- A broadcast that returns has pushed its text once on every connection it was for. -/
theorem broadcastMessageOver_ok {conns : List ConnectionHdl} (hNodup : conns.Nodup)
    (h : broadcastMessageOver doubles messageType arguments wires conns = (.ok (), wires')) :
    wires'.handles = wires.handles ∧
      (∀ conn ∉ conns, wires'.connections conn = wires.connections conn) ∧
      ∀ conn ∈ conns, ∃ text con con', messageText doubles messageType arguments = .ok text ∧
        wires.connections conn = some con ∧ con.send text = .ok con' ∧
        wires'.connections conn = some con' := by
  induction conns generalizing wires with
  | nil =>
    cases h
    exact ⟨rfl, fun _ _ => rfl, List.forall_mem_nil _⟩
  | cons conn conns ih =>
    obtain ⟨hNew, hRest⟩ := List.nodup_cons.mp hNodup
    rw [broadcastMessageOver] at h
    cases hSend : sendMessageOver doubles wires conn messageType arguments with
    | error exn =>
      rw [hSend] at h
      cases h
    | ok middle =>
      rw [hSend] at h
      obtain ⟨text, con, con', hText, hCon, hPushed, rfl⟩ := sendMessageOver_ok hSend
      obtain ⟨hHandles, hOthers, hEach⟩ := ih hRest h
      refine ⟨hHandles, fun other hOther => ?_, fun target hTarget => ?_⟩
      · rw [List.mem_cons, not_or] at hOther
        obtain ⟨hNot, hNotLater⟩ := hOther
        rw [hOthers other hNotLater, Wires.connections_set, if_neg hNot]
      · rcases List.mem_cons.mp hTarget with rfl | hTarget
        · refine ⟨text, con, con', hText, hCon, hPushed, ?_⟩
          rw [hOthers target hNew, Wires.connections_set, if_pos rfl]
        · obtain ⟨text', con₁, con₂, hText', hCon₁, hPushed', hCon₂⟩ := hEach target hTarget
          have hOther : target ≠ conn := fun hSame => hNew (hSame ▸ hTarget)
          rw [Wires.connections_set, if_neg hOther] at hCon₁
          exact ⟨text', con₁, con₂, hText', hCon₁, hPushed', hCon₂⟩

/-- A client of the broadcast reads what had been pushed before it, its text once, and what was
pushed behind it. -/
structure ReadOnce (clientMax : Nat) (text : Bytes) (before after : WireEndpoint)
    (last : WireEndpoint) (pieces : List Bytes) : Prop where
  pushed : after.pushed = before.pushed ++ [prepareFrame .text true none text]
  later : ∃ later, last.pushed = after.pushed ++ later ∧
    (Reader.scanner.readAll (.ok (WireEndpoint.client clientMax)) pieces).2.filter
        (fun msg => msg.opcode == .text) =
      before.pushed.map OutMessage.message ++ ⟨.text, text⟩ :: later.map OutMessage.message

/-- A broadcast does on the connections what it does on the endpoint, error for error. Where it
returns, every client it was for reads its text: behind the texts that were pushed before and before
those that are pushed later, once. This is for a connection that stays, and has come to write all it
has; how it got there, how many connections come and go meanwhile and who else sends does not
matter. -/
theorem broadcast_read {maxMessageSize clientMax : Nat} {events : List NetEvent}
    (hRun : (Wires.machine maxMessageSize).run {} events = some wires)
    {conns : List ConnectionHdl} (hNodup : conns.Nodup) (hMax : clientMax < 2 ^ 64) :
    (broadcastMessageOver doubles messageType arguments wires conns).map id Wires.endpoint =
        broadcastMessage doubles messageType arguments wires.endpoint conns ∧
      ((broadcastMessage doubles messageType arguments wires.endpoint conns).1 = .ok () →
        ∀ conn ∈ conns, ∃ text before after,
          messageText doubles messageType arguments = .ok text ∧
          wires.connections conn = some before ∧
          (broadcastMessageOver doubles messageType arguments wires conns).2.connections conn =
            some after ∧
          ∀ more last con, (Wires.machine maxMessageSize).run
              (broadcastMessageOver doubles messageType arguments wires conns).2 more = some last →
            last.connections conn = some con → con.Quiet → con.con.session.state ≠ .closed →
            (∀ msg ∈ con.pushed, msg.payload.length ≤ clientMax) →
            ∀ pieces : List Bytes,
              pieces.flatten = con.con.session.written.flatMap OutMessage.wire →
              ReadOnce clientMax text before after con pieces) := by
  refine ⟨endpoint_broadcastMessageOver conns, fun hReturns conn hConn => ?_⟩
  have hOver : broadcastMessageOver doubles messageType arguments wires conns =
      (.ok (), (broadcastMessageOver doubles messageType arguments wires conns).2) := by
    rw [← endpoint_broadcastMessageOver] at hReturns
    exact Prod.ext hReturns rfl
  generalize (broadcastMessageOver doubles messageType arguments wires conns).2 = wires' at *
  obtain ⟨hHandles, -, hEach⟩ := broadcastMessageOver_ok hNodup hOver
  obtain ⟨text, con₀, con₁, hText, hCon₀, hSend, hCon₁⟩ := hEach conn hConn
  refine ⟨text, con₀, con₁, hText, hCon₀, hCon₁, ?_⟩
  intro more last con hMore hCon hQuiet hState hSizes pieces hPieces
  have hInv := Wires.inv_of_run hRun
  have hGiven : conn < wires'.handles := hHandles ▸ hInv.given conn con₀ hCon₀
  obtain ⟨later, con₂, hCon₂, hLater⟩ := (Wires.later_of_run hMore).runs conn hGiven con hCon
  obtain rfl : con₁ = con₂ := Option.some.inj (hCon₁.symm.trans hCon₂)
  obtain ⟨all, hAll⟩ :=
    ((hInv.reached conn con₀ hCon₀).run (WireEndpoint.run_send hSend)).run hLater
  obtain ⟨behind, hBehind⟩ := WireEndpoint.pushed_prefix_of_run hLater
  refine ⟨WireEndpoint.pushed_of_send hSend, behind, hBehind.symm, ?_⟩
  rw [(WireEndpoint.inv_of_run hAll).client_reads_all hQuiet hState hMax hSizes hPieces, ← hBehind,
    WireEndpoint.pushed_of_send hSend, List.append_assoc, List.map_append]
  rfl

end Wires

/-! A broadcast to two connections, one of which has a text before it and one behind it -/

def exampleWires : Wires :=
  ((Wires.machine 16).run {} [.opened, .opened, .wire 1 (.prepareSend (bytes "first")),
    .wire 1 (.writePush 0)]).get (by decide +kernel)

def countArguments : Value Bool := .object [(bytes "n", .int 1)]

def exampleBroadcast : Except Exn Unit × Wires :=
  broadcastMessageOver exampleDoubles (bytes "count") countArguments exampleWires [0, 1]

def exampleWrites : List NetEvent :=
  [.expired 0, .wire 1 (.prepareSend (bytes "last")), .wire 1 .writeFrame, .wire 1 .writeFrame,
    .wire 1 (.writePush 0), .wire 1 (.handleWriteFrame false), .wire 1 .writeFrame,
    .wire 1 (.handleWriteFrame false)]

def exampleLast : Wires :=
  ((Wires.machine 16).run exampleBroadcast.2 exampleWrites).get (by decide +kernel)

def exampleConnection : WireEndpoint := (exampleLast.connections 1).get (by decide +kernel)

theorem broadcast_read_example :
    exampleBroadcast.map id Wires.endpoint = broadcastMessage exampleDoubles (bytes "count")
        countArguments exampleWires.endpoint [0, 1] ∧
      ∃ text before after, messageText exampleDoubles (bytes "count") countArguments = .ok text ∧
        exampleWires.connections 1 = some before ∧
        exampleBroadcast.2.connections 1 = some after ∧ before.pushed.length = 1 ∧
        exampleConnection.pushed.length = 3 ∧
        ReadOnce 64 text before after exampleConnection
          [exampleConnection.con.session.written.flatMap OutMessage.wire] := by
  have hRun : (Wires.machine 16).run {} [.opened, .opened, .wire 1 (.prepareSend (bytes "first")),
      .wire 1 (.writePush 0)] = some exampleWires :=
    (Option.some_get _).symm
  have hReturns : (broadcastMessage exampleDoubles (bytes "count") countArguments
      exampleWires.endpoint [0, 1]).1 = .ok () := by
    rw [← endpoint_broadcastMessageOver]
    decide +kernel
  have hMore : (Wires.machine 16).run exampleBroadcast.2 exampleWrites = some exampleLast :=
    (Option.some_get _).symm
  have hCon : exampleLast.connections 1 = some exampleConnection := (Option.some_get _).symm
  have hQuiet : exampleConnection.Quiet := ⟨by decide +kernel, by decide +kernel⟩
  have hBefore : (exampleWires.connections 1).map (·.pushed.length) = some 1 := by decide +kernel
  obtain ⟨hRefines, hReads⟩ := @broadcast_read _ exampleDoubles exampleWires (bytes "count")
    countArguments 16 64 _ hRun [0, 1] (by decide) (by decide)
  obtain ⟨text, before, after, hText, hCon₀, hCon₁, hLater⟩ := hReads hReturns 1 (by decide)
  rw [hCon₀] at hBefore
  exact ⟨hRefines, text, before, after, hText, hCon₀, hCon₁, Option.some.inj hBefore,
    by decide +kernel, hLater _ _ _ hMore hCon hQuiet (by decide +kernel) (by decide +kernel) _
      (List.append_nil _)⟩

end ScRedirection.WebsocketServer
