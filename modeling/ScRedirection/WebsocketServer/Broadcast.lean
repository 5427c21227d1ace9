import ScRedirection.WebsocketServer

/-! # A broadcast with failing connections in its list

A connection leaves the open state before its `onClose` takes it off the list, and until then
every broadcast comes to it. The send of the loop throws there, and nothing in the loop catches.
-/

namespace ScRedirection.WebsocketServer

open Json Websocketpp

variable {D : Type} {doubles : Doubles D} {messageType : Bytes} {arguments : Value D}
  {endpoint endpoint' : Endpoint} {conns : List ConnectionHdl}

/-- The broadcast returns to its caller, and every listed connection whose own send succeeds has
the text on its queue once more than before. The list is only read. -/
def ServesTheRest (doubles : Doubles D) (messageType : Bytes) (arguments : Value D)
    (endpoint : Endpoint) (server : Server) : Prop :=
  ∃ endpoint', broadcastMessage doubles messageType arguments endpoint server.openConnections =
      (.ok (), endpoint') ∧
    ∀ conn ∈ server.openConnections, ∀ text, messageText doubles messageType arguments = .ok text →
      (∃ sent, endpoint.send conn text = .ok sent) →
        endpoint'.connections conn = (endpoint.connections conn).map (·.writePush text)

/-! ## Broadcasts that return -/

theorem broadcastMessage_sent
    (h : broadcastMessage doubles messageType arguments endpoint conns = (.ok (), endpoint')) :
    ∀ conn ∈ conns, endpoint.isOpen conn = true ∧
      ∃ text, messageText doubles messageType arguments = .ok text ∧
        Utf8Validator.validate text = true := by
  induction conns generalizing endpoint with
  | nil => simp
  | cons conn conns ih =>
    rw [broadcastMessage] at h
    cases hSend : sendMessage doubles endpoint conn messageType arguments with
    | error exn => simp [hSend] at h
    | ok middle =>
      rw [hSend] at h
      obtain ⟨text, hText, hOpen, hValid, rfl⟩ := sendMessage_eq_ok.mp hSend
      rw [List.forall_mem_cons]
      refine ⟨⟨hOpen, text, hText, hValid⟩, ?_⟩
      simpa only [Endpoint.isOpen_enqueue] using ih h

/-- Every occurrence in the list adds one text to the queue. -/
theorem broadcastMessage_queueLength
    (h : broadcastMessage doubles messageType arguments endpoint conns = (.ok (), endpoint'))
    {conn : ConnectionHdl} {con : Connection} (hCon : endpoint.connections conn = some con) :
    ∃ con', endpoint'.connections conn = some con' ∧
      con'.sendQueue.length = con.sendQueue.length + conns.count conn := by
  induction conns generalizing endpoint con with
  | nil =>
    obtain ⟨-, rfl⟩ := Prod.mk.inj h
    exact ⟨con, hCon, rfl⟩
  | cons first conns ih =>
    rw [broadcastMessage] at h
    cases hSend : sendMessage doubles endpoint first messageType arguments with
    | error exn => simp [hSend] at h
    | ok middle =>
      rw [hSend] at h
      obtain ⟨text, -, -, -, rfl⟩ := sendMessage_eq_ok.mp hSend
      by_cases hFirst : conn = first
      · subst hFirst
        have hNow : (endpoint.enqueue [conn] text).connections conn =
            some (con.writePush text) := by
          simp [hCon]
        obtain ⟨con', hCon', hLength⟩ := ih h hNow
        refine ⟨con', hCon', ?_⟩
        rw [hLength, List.count_cons_self, Connection.writePush, List.length_append,
          List.length_singleton]
        omega
      · have hNow : (endpoint.enqueue [first] text).connections conn = some con := by
          simp [hCon, hFirst]
        obtain ⟨con', hCon', hLength⟩ := ih h hNow
        refine ⟨con', hCon', ?_⟩
        rw [hLength, List.count_cons_of_ne (Ne.symm hFirst)]

/-! ## When the others are served -/

/-- Only when no listed send fails: the first that does ends the loop and throws. -/
theorem servesTheRest_iff (doubles : Doubles D) (messageType : Bytes) (arguments : Value D)
    (endpoint : Endpoint) (server : Server) :
    ServesTheRest doubles messageType arguments endpoint server ↔
      server.openConnections.Nodup ∧
        ∀ conn ∈ server.openConnections, endpoint.isOpen conn = true ∧
          ∃ text, messageText doubles messageType arguments = .ok text ∧
            Utf8Validator.validate text = true := by
  constructor
  · rintro ⟨endpoint', hReturn, hOnce⟩
    have hSent := broadcastMessage_sent hReturn
    refine ⟨List.nodup_iff_count.mpr fun conn => ?_, hSent⟩
    by_cases hConn : conn ∈ server.openConnections
    · obtain ⟨hOpen, text, hText, hValid⟩ := hSent conn hConn
      obtain ⟨con, hCon, -⟩ := Endpoint.isOpen_iff.mp hOpen
      have hQueued := hOnce conn hConn text hText ⟨_, Endpoint.send_eq_ok.mpr ⟨hOpen, hValid, rfl⟩⟩
      obtain ⟨con', hCon', hLength⟩ := broadcastMessage_queueLength hReturn hCon
      rw [hCon', hCon, Option.map_some, Option.some.injEq] at hQueued
      rw [hQueued, Connection.writePush, List.length_append, List.length_singleton] at hLength
      omega
    · exact (List.count_eq_zero_of_not_mem hConn).trans_le (Nat.zero_le 1)
  · rintro ⟨hNodup, hOpen⟩
    cases hText : messageText doubles messageType arguments with
    | error error =>
      have hEmpty : server.openConnections = [] := by
        apply List.eq_nil_iff_forall_not_mem.mpr
        intro conn hConn
        obtain ⟨-, text, hOk, -⟩ := hOpen conn hConn
        cases hText.symm.trans hOk
      refine ⟨endpoint, (broadcastMessage_error hText).mpr ⟨hEmpty, rfl⟩, ?_⟩
      simp [hEmpty]
    | ok text =>
      have hAll : ∀ conn ∈ server.openConnections,
          endpoint.isOpen conn = true ∧ Utf8Validator.validate text = true := by
        intro conn hConn
        obtain ⟨hNow, text', hText', hValid⟩ := hOpen conn hConn
        obtain rfl := Except.ok.inj (hText.symm.trans hText')
        exact ⟨hNow, hValid⟩
      refine ⟨_, (broadcastMessage_eq_ok hText hNodup).mpr ⟨hAll, rfl⟩, ?_⟩
      intro conn hConn text' hText' _
      obtain rfl := Except.ok.inj (hText.symm.trans hText')
      rw [Endpoint.connections_enqueue, if_pos hConn]

/-- The first listed connection is closing, the second is open and gets nothing. -/
theorem closing_starves_open :
    ¬ ServesTheRest Doubles.absent (bytes "message") (.object [])
        ⟨fun conn => if conn = 1 then some { state := .closing } else some { state := .open }⟩
        { type := .unknown, openConnections := [1, 2] } := by
  rintro ⟨endpoint', hReturn, -⟩
  have hOpen := (broadcastMessage_sent hReturn 1 List.mem_cons_self).1
  exact absurd hOpen (by decide)

end ScRedirection.WebsocketServer
