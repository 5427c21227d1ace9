import ScRedirection.Websocketpp.WireRun

/-! # The endpoint over its connections

An endpoint that only knows the state and the payloads pushed on a connection is what the
connections of the server show of themselves. A handle is the number of its connection, and never
given again.
-/

namespace ScRedirection.Websocketpp

open Websocketpp.Frame

namespace WireEndpoint

variable {s t : WireEndpoint} {payload : Bytes}

/-- What an endpoint shows of a connection. -/
def connection (s : WireEndpoint) : Connection where
  state := s.con.session.state
  sendQueue := s.pushed.map OutMessage.payload

/-- `connection::send`, with nothing between its two locks. -/
def send (s : WireEndpoint) (payload : Bytes) : Except SendError WireEndpoint :=
  match s.con.session.prepareSend payload with
  | .error error => .error error
  | .ok msg =>
    .ok { s.withSession (s.con.session.writePush msg) with pushed := s.pushed ++ [msg] }

/-- A send is two steps of the connection. -/
theorem run_send (h : s.send payload = .ok t) :
    machine.run s [.prepareSend payload, .writePush s.sending.length] = some t := by
  unfold send at h
  cases hPrepare : s.con.session.prepareSend payload with
  | error error =>
    rw [hPrepare] at h
    cases h
  | ok msg =>
    rw [hPrepare] at h
    cases h
    have hFirst : machine.step s (.prepareSend payload) =
        some { s with sending := s.sending ++ [msg] } := by
      simp only [machine, step, hPrepare]
    have hSender : (s.sending ++ [msg])[s.sending.length]? = some msg := by simp
    have hErase : (s.sending ++ [msg]).eraseIdx s.sending.length = s.sending := by
      rw [List.eraseIdx_append_of_length_le (Nat.le_refl _), Nat.sub_self]
      exact List.append_nil _
    rw [EventMachine.run, hFirst, Option.bind_some, EventMachine.run]
    simp only [machine, step, hSender, hErase, withSession, Option.bind_some, EventMachine.run]

/-- On one connection, a send is the send of the endpoint. -/
theorem connection_send (s : WireEndpoint) (payload : Bytes) :
    (s.send payload).map connection =
      if s.connection.state ≠ .open then .error .invalidState
      else if Utf8Validator.validate payload = false then .error .invalidPayload
      else .ok (s.connection.writePush payload) := by
  rw [send, prepareSend_eq, connection]
  split_ifs
  · rfl
  · rfl
  · simp only [Except.map, connection, Connection.writePush, withSession, WireSession.writePush,
      List.map_append]
    rfl

theorem pushed_of_send (h : s.send payload = .ok t) :
    t.pushed = s.pushed ++ [prepareFrame .text true none payload] := by
  rw [send, prepareSend_eq] at h
  split_ifs at h
  cases h
  rfl

/-- What is pushed stays, and more comes behind it. -/
theorem pushed_prefix_of_step {event : WireEvent} (hStep : machine.step s event = some t) :
    s.pushed <+: t.pushed := by
  cases event with
  | handleReadFrame | handleReadError | writeFrame | handleWriteFrame =>
    simp only [machine, step] at hStep
    split_ifs at hStep
    cases hStep
    exact List.prefix_rfl
  | prepareSend payload =>
    simp only [machine, step] at hStep
    split at hStep <;> cases hStep <;> exact List.prefix_rfl
  | writePush sender =>
    simp only [machine, step] at hStep
    split at hStep <;> cases hStep
    exact List.prefix_append _ _
  | handleCloseHandshakeTimeout =>
    cases hStep
    exact List.prefix_rfl

theorem pushed_prefix_of_run {events : List WireEvent} (hRun : machine.run s events = some t) :
    s.pushed <+: t.pushed :=
  machine.run_invariant (P := fun t => s.pushed <+: t.pushed)
    (fun _ _ _ h hStep => h.trans (pushed_prefix_of_step hStep)) List.prefix_rfl hRun

/-- A connection as some run leaves it. -/
def Reached (maxMessageSize : Nat) (s : WireEndpoint) : Prop :=
  ∃ events, machine.run (opened maxMessageSize) events = some s

theorem Reached.run {maxMessageSize : Nat} (h : s.Reached maxMessageSize)
    {events : List WireEvent} (hRun : machine.run s events = some t) :
    t.Reached maxMessageSize := by
  obtain ⟨before, hBefore⟩ := h
  refine ⟨before ++ events, ?_⟩
  rw [EventMachine.run_append, hBefore]
  exact hRun

end WireEndpoint

/-! ## The connections of the server -/

/-- `handles` counts the connections there were. -/
structure Wires where
  connections : ConnectionHdl → Option WireEndpoint := fun _ => none
  handles : Nat := 0

inductive NetEvent
  | opened
  | wire (hdl : ConnectionHdl) (event : WireEvent)
  | expired (hdl : ConnectionHdl)

namespace Wires

def set (wires : Wires) (hdl : ConnectionHdl) (con : Option WireEndpoint) : Wires :=
  { wires with connections := fun h => if h = hdl then con else wires.connections h }

@[simp] theorem connections_set (wires : Wires) (hdl h : ConnectionHdl)
    (con : Option WireEndpoint) :
    (wires.set hdl con).connections h = if h = hdl then con else wires.connections h := rfl

/-- What the endpoint shows. -/
def endpoint (wires : Wires) : Endpoint :=
  ⟨fun hdl => (wires.connections hdl).map WireEndpoint.connection⟩

@[simp] theorem connections_endpoint (wires : Wires) (hdl : ConnectionHdl) :
    wires.endpoint.connections hdl = (wires.connections hdl).map WireEndpoint.connection := rfl

/-- `endpoint::send`. -/
def send (wires : Wires) (hdl : ConnectionHdl) (payload : Bytes) : Except SendError Wires :=
  match wires.connections hdl with
  | none => .error .badConnection
  | some con =>
    match con.send payload with
    | .error error => .error error
    | .ok con => .ok (wires.set hdl (some con))

def step (maxMessageSize : Nat) (wires : Wires) : NetEvent → Option Wires
  | .opened => some { wires.set wires.handles (some (.opened maxMessageSize)) with
      handles := wires.handles + 1 }
  | .wire hdl event =>
    (wires.connections hdl).bind fun con =>
      (WireEndpoint.machine.step con event).map fun con => wires.set hdl (some con)
  | .expired hdl => some (wires.set hdl none)

def machine (maxMessageSize : Nat) : EventMachine Wires NetEvent := ⟨step maxMessageSize⟩

variable {maxMessageSize : Nat} {wires wires' : Wires} {hdl : ConnectionHdl} {payload : Bytes}

theorem endpoint_set (wires : Wires) (hdl : ConnectionHdl) (con : Option WireEndpoint) :
    (wires.set hdl con).endpoint = wires.endpoint.set hdl (con.map WireEndpoint.connection) := by
  ext1
  funext h
  rw [Endpoint.connections_set, connections_endpoint, connections_set]
  split_ifs <;> rfl

/-- A send of the connections is one of the endpoint, error for error. -/
theorem endpoint_send (wires : Wires) (hdl : ConnectionHdl) (payload : Bytes) :
    (wires.send hdl payload).map endpoint = wires.endpoint.send hdl payload := by
  rw [send, Endpoint.send]
  cases hCon : wires.connections hdl with
  | none => simp [endpoint, hCon, Except.map]
  | some con =>
    have hShown : wires.endpoint.connections hdl = some con.connection := by
      rw [connections_endpoint, hCon, Option.map_some]
    have hSend := con.connection_send payload
    rw [hShown]
    dsimp only
    cases hResult : con.send payload with
    | error error =>
      rw [hResult] at hSend
      split_ifs at hSend ⊢
      · exact congrArg Except.error (Except.error.inj hSend)
      · exact congrArg Except.error (Except.error.inj hSend)
      · cases hSend
    | ok con' =>
      rw [hResult] at hSend
      split_ifs at hSend ⊢
      · cases hSend
      · cases hSend
      · rw [Except.map, endpoint_set, Option.map_some, Except.ok.inj hSend]

/-! Runs -/

/-- Every connection is one that a run of its own leaves, and has a handle that was given. -/
structure Inv (maxMessageSize : Nat) (wires : Wires) : Prop where
  reached : ∀ hdl con, wires.connections hdl = some con → con.Reached maxMessageSize
  given : ∀ hdl con, wires.connections hdl = some con → hdl < wires.handles

theorem inv_start (maxMessageSize : Nat) : ({} : Wires).Inv maxMessageSize :=
  ⟨fun _ _ h => (nomatch h), fun _ _ h => (nomatch h)⟩

theorem Inv.set (h : wires.Inv maxMessageSize) {con : WireEndpoint}
    (hReached : con.Reached maxMessageSize) (hGiven : hdl < wires.handles) :
    (wires.set hdl (some con)).Inv maxMessageSize := by
  constructor
  · intro hdl' con' hCon
    rw [connections_set] at hCon
    split_ifs at hCon
    · cases hCon
      exact hReached
    · exact h.reached hdl' con' hCon
  · intro hdl' con' hCon
    rw [connections_set] at hCon
    split_ifs at hCon with hSame
    · exact hSame ▸ hGiven
    · exact h.given hdl' con' hCon

theorem Inv.step (h : wires.Inv maxMessageSize) {event : NetEvent}
    (hStep : (machine maxMessageSize).step wires event = some wires') :
    wires'.Inv maxMessageSize := by
  cases event with
  | opened =>
    cases hStep
    have hMore : { wires with handles := wires.handles + 1 : Wires }.Inv maxMessageSize :=
      ⟨h.reached, fun hdl con hCon => Nat.lt_succ_of_lt (h.given hdl con hCon)⟩
    exact hMore.set ⟨[], rfl⟩ (Nat.lt_succ_self _)
  | wire hdl event =>
    obtain ⟨con, hCon, hStep⟩ := Option.bind_eq_some_iff.mp hStep
    obtain ⟨con', hNext, rfl⟩ := Option.map_eq_some_iff.mp hStep
    have hRun : WireEndpoint.machine.run con [event] = some con' :=
      WireEndpoint.machine.run_cons_eq_some.mpr ⟨con', hNext, rfl⟩
    exact h.set ((h.reached hdl con hCon).run hRun) (h.given hdl con hCon)
  | expired hdl =>
    cases hStep
    constructor
    all_goals
      intro hdl' con hCon
      rw [connections_set] at hCon
      split_ifs at hCon
    · exact h.reached hdl' con hCon
    · exact h.given hdl' con hCon

theorem inv_of_run {events : List NetEvent}
    (hRun : (machine maxMessageSize).run {} events = some wires) : wires.Inv maxMessageSize :=
  (machine maxMessageSize).run_invariant (fun _ _ _ h hStep => h.step hStep)
    (inv_start maxMessageSize) hRun

/-- A connection that is still there has run on from where it was. -/
structure Later (before after : Wires) : Prop where
  handles : before.handles ≤ after.handles
  runs : ∀ hdl < before.handles, ∀ con, after.connections hdl = some con →
    ∃ events con₀, before.connections hdl = some con₀ ∧
      WireEndpoint.machine.run con₀ events = some con

theorem Later.step {before : Wires} (h : before.Later wires) {event : NetEvent}
    (hStep : (machine maxMessageSize).step wires event = some wires') : before.Later wires' := by
  cases event with
  | opened =>
    cases hStep
    refine ⟨Nat.le_succ_of_le h.handles, fun hdl hGiven con hCon => ?_⟩
    have hOld : hdl ≠ wires.handles := Nat.ne_of_lt (Nat.lt_of_lt_of_le hGiven h.handles)
    exact h.runs hdl hGiven con ((if_neg hOld).symm.trans hCon)
  | wire hdl event =>
    obtain ⟨con, hCon, hStep⟩ := Option.bind_eq_some_iff.mp hStep
    obtain ⟨con', hNext, rfl⟩ := Option.map_eq_some_iff.mp hStep
    refine ⟨h.handles, fun hdl' hGiven last hLast => ?_⟩
    rw [connections_set] at hLast
    split_ifs at hLast with hSame
    · subst hSame
      cases hLast
      obtain ⟨events, con₀, hCon₀, hRun⟩ := h.runs hdl' hGiven con hCon
      exact ⟨events ++ [event], con₀, hCon₀,
        WireEndpoint.machine.run_concat_eq_some.mpr ⟨con, hRun, hNext⟩⟩
    · exact h.runs hdl' hGiven last hLast
  | expired hdl =>
    cases hStep
    refine ⟨h.handles, fun hdl' hGiven last hLast => ?_⟩
    rw [connections_set] at hLast
    split_ifs at hLast
    exact h.runs hdl' hGiven last hLast

theorem later_of_run {events : List NetEvent}
    (hRun : (machine maxMessageSize).run wires events = some wires') : wires.Later wires' :=
  (machine maxMessageSize).run_invariant (fun _ _ _ h hStep => h.step hStep)
    ⟨Nat.le_refl _, fun _ _ con hCon => ⟨[], con, hCon, rfl⟩⟩ hRun

end Wires

end ScRedirection.Websocketpp
