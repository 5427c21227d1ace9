import ScRedirection.Library.EventMachine
import ScRedirection.TcpTunnel.UseTunnel

/-! # Sends that transmit less than they were given

A popped payload lives in a local string until its one `send`, whose result nobody looks at. Here
a `send` returns what POSIX allows and transmits that prefix; the loop goes on as before.
-/

namespace ScRedirection.TcpTunnel.ShortSend

open Json Websocketpp WebsocketServer

/-- `popped` has the payloads of the session, `sends` each payload that was given to `send` with
the number of its bytes that were transmitted. -/
structure Session where
  process : Process
  popped : List Bytes := []
  sends : List (Bytes × Nat) := []

/-- `send` has its result in the event, `none` for -1. -/
inductive Event
  | send (sock : Socket) (data : Bytes) (result : Option Nat)
  | other (a : Action)
  | push (sock : Socket) (item : Bytes)
  | connections (conns : List ConnectionHdl) (endpoint : Endpoint)

/-- Any count from 1 to the length, or -1; an empty text has nothing to transmit. -/
def mayReturn (length : Nat) : Option Nat → Bool
  | none => true
  | some count => count ≤ length && (length == 0 || 0 < count)

namespace Session

def send (session : Session) (sock : Socket) (data : Bytes) (result : Option Nat) :
    Option Session :=
  if mayReturn data.length result then
    (session.process.useTunnel (.send sock data)).map fun process => { session with
      process := process
      sends := session.sends ++ [(data, result.getD 0)] }
  else none

def other (session : Session) (a : Action) : Option Session :=
  match a with
  | .send _ _ => none
  | .pop sock item =>
    (session.process.useTunnel (.pop sock item)).map fun process => { session with
      process := process
      popped := session.popped ++ [item] }
  | a => (session.process.useTunnel a).map fun process => { session with process := process }

def step (session : Session) : Event → Option Session
  | .send sock data result => session.send sock data result
  | .other a => session.other a
  | .push sock item => some { session with process := { session.process with
      queues := session.process.queues.push sock item } }
  | .connections conns endpoint => some { session with process := { session.process with
      server := session.process.server.map ({ · with openConnections := conns })
      endpoint := endpoint } }

def transmitted (session : Session) : Bytes := session.sends.flatMap fun sent => sent.1.take sent.2

end Session

def machine : EventMachine Session Event := ⟨Session.step⟩

def start (memory : Memory) : Session where
  process := { memory with pc := .select }

/-- No byte of a payload is transmitted after a payload that was not transmitted whole. -/
def Gapless (sends : List (Bytes × Nat)) : Prop :=
  sends.Pairwise fun earlier later => 0 < later.2 → earlier.2 = earlier.1.length

/-- The bytes of the session are gapless and a prefix of what was popped. -/
def Contiguous (session : Session) : Prop :=
  Gapless session.sends ∧ session.transmitted <+: session.popped.flatten

/-- A `send` that transmits a byte comes after whole ones only. -/
def AfterWhole (session : Session) : Event → Prop
  | .send _ _ (some count) => 0 < count → ∀ sent ∈ session.sends, sent.2 = sent.1.length
  | _ => True

/-! ## Gapless sends transmit a prefix -/

theorem transmits_nothing {sends : List (Bytes × Nat)} (h : ∀ sent ∈ sends, sent.2 = 0) :
    (sends.flatMap fun sent => sent.1.take sent.2) = [] := by
  rw [List.flatMap_eq_nil_iff]
  intro sent hSent
  rw [h sent hSent, List.take_zero]

theorem Gapless.prefix {sends : List (Bytes × Nat)} (h : Gapless sends) :
    (sends.flatMap fun sent => sent.1.take sent.2) <+: (sends.map Prod.fst).flatten := by
  induction sends with
  | nil => exact List.prefix_rfl
  | cons first rest ih =>
    obtain ⟨hFirst, hRest⟩ := List.pairwise_cons.mp h
    rw [List.flatMap_cons, List.map_cons, List.flatten_cons]
    by_cases hWhole : first.2 = first.1.length
    · rw [hWhole, List.take_length]
      exact (List.prefix_append_right_inj first.1).mpr (ih hRest)
    · have hNothing : ∀ sent ∈ rest, sent.2 = 0 := by
        intro sent hSent
        by_contra hSome
        exact hWhole (hFirst sent hSent (Nat.pos_of_ne_zero hSome))
      rw [transmits_nothing hNothing, List.append_nil]
      exact (List.take_prefix _ _).trans (List.prefix_append _ _)

/-! ## One step -/

/-- The payload between its pop and its send. -/
def pending : Pc → List Bytes
  | .send _ _ decoded => [decoded]
  | _ => []

def Ledger (session : Session) : Prop :=
  session.popped = session.sends.map Prod.fst ++ pending session.process.pc

theorem Ledger.contiguous {session : Session} (h : Ledger session)
    (hGapless : Gapless session.sends) : Contiguous session := by
  refine ⟨hGapless, hGapless.prefix.trans ?_⟩
  rw [h, List.flatten_append]
  exact List.prefix_append _ _

theorem pending_of_begins {pc : Pc} (h : pc.Begins) : pending pc = [] := by cases h <;> rfl

theorem Ledger.send {session session' : Session} (h : Ledger session) {sock : Socket}
    {data : Bytes} {result : Option Nat} (hStep : session.send sock data result = some session') :
    Ledger session' ∧ session'.sends = session.sends ++ [(data, result.getD 0)] := by
  simp only [Session.send, Option.ite_none_right_eq_some, Option.map_eq_some_iff] at hStep
  obtain ⟨-, process, hTunnel, rfl⟩ := hStep
  refine ⟨?_, rfl⟩
  cases Process.useTunnel_step hTunnel with
  | sent hPc =>
    rw [Ledger, hPc] at h
    rw [Ledger, pending_of_begins (begins_next _ _ _), h]
    simp [pending]

/-- Only a pop puts a payload in hand, and only a send takes one. -/
theorem pending_step {p p' : Process} {a : Action} (h : p.Step a p')
    (hSend : ∀ sock data, a ≠ .send sock data) (hPop : ∀ sock item, a ≠ .pop sock item) :
    pending p.pc = [] ∧ pending p'.pc = [] := by
  cases h with
  | popped => exact absurd rfl (hPop _ _)
  | sent => exact absurd rfl (hSend _ _)
  | selectReady hPc => exact ⟨by rw [hPc]; rfl, pending_of_begins (begins_enterClient _ _)⟩
  | queueEmpty hPc => exact ⟨by rw [hPc]; rfl, pending_of_begins (begins_next _ _ _)⟩
  | dropped hPc => exact ⟨by rw [hPc]; rfl, pending_of_begins (begins_next _ _ _)⟩
  | broadcastReturned hPc => exact ⟨by rw [hPc]; rfl, pending_of_begins (begins_next _ _ _)⟩
  | _ hPc => exact ⟨by rw [hPc]; rfl, rfl⟩

theorem Ledger.other {session session' : Session} (h : Ledger session) {a : Action}
    (hStep : session.other a = some session') :
    Ledger session' ∧ session'.sends = session.sends := by
  unfold Session.other at hStep
  split at hStep
  case h_1 => cases hStep
  case h_2 sock item =>
    obtain ⟨process, hTunnel, rfl⟩ := Option.map_eq_some_iff.mp hStep
    refine ⟨?_, rfl⟩
    cases Process.useTunnel_step hTunnel with
    | popped hPc =>
      rw [Ledger, hPc] at h
      rw [Ledger, h]
      simp [pending]
  case h_3 hSend hPop =>
    obtain ⟨process, hTunnel, rfl⟩ := Option.map_eq_some_iff.mp hStep
    obtain ⟨hBefore, hAfter⟩ := pending_step (Process.useTunnel_step hTunnel) hSend hPop
    refine ⟨?_, rfl⟩
    rw [Ledger, hBefore] at h
    rw [Ledger, hAfter, h]

theorem Ledger.step {session session' : Session} (h : Ledger session) {e : Event}
    (hStep : machine.step session e = some session') : Ledger session' := by
  cases e with
  | send sock data result => exact (h.send hStep).1
  | other a => exact (h.other hStep).1
  | push sock item =>
    obtain rfl := Option.some.inj hStep
    exact h
  | connections conns endpoint =>
    obtain rfl := Option.some.inj hStep
    exact h

/-- A step keeps the session contiguous exactly when it meets the condition. -/
theorem contiguous_step {session session' : Session} (h : Ledger session)
    (hNow : Contiguous session) {e : Event} (hStep : machine.step session e = some session') :
    Contiguous session' ↔ AfterWhole session e := by
  have hLedger := h.step hStep
  have hGapless : Contiguous session' ↔ Gapless session'.sends :=
    ⟨fun hBoth => hBoth.1, hLedger.contiguous⟩
  rw [hGapless]
  cases e with
  | send sock data result =>
    rw [(h.send hStep).2, Gapless, List.pairwise_append]
    cases result with
    | none =>
      refine iff_of_true ⟨hNow.1, List.pairwise_singleton _ _, ?_⟩ trivial
      intro sent _ failed hFailed hPositive
      rw [List.mem_singleton.mp hFailed] at hPositive
      exact absurd hPositive (Nat.lt_irrefl 0)
    | some count =>
      constructor
      · rintro ⟨-, -, hAll⟩ hPositive sent hSent
        exact hAll sent hSent (data, count) List.mem_cons_self hPositive
      · intro hWhole
        refine ⟨hNow.1, List.pairwise_singleton _ _, ?_⟩
        intro sent hSent last hLast hPositive
        rw [List.mem_singleton.mp hLast] at hPositive
        exact hWhole hPositive sent hSent
  | other a =>
    rw [(h.other hStep).2]
    exact iff_of_true hNow.1 trivial
  | push sock item =>
    obtain rfl := Option.some.inj hStep
    exact iff_of_true hNow.1 trivial
  | connections conns endpoint =>
    obtain rfl := Option.some.inj hStep
    exact iff_of_true hNow.1 trivial

/-! ## Every session -/

theorem contiguous_throughout_iff (memory : Memory) (es : List Event) :
    machine.Throughout Contiguous (start memory) es ↔
      machine.StepsMeet AfterWhole (start memory) es := by
  apply machine.throughout_iff_stepsMeet (I := Ledger)
  · exact fun _ _ _ hLedger _ _ hStep => hLedger.step hStep
  · exact fun _ _ _ hLedger hNow hStep => contiguous_step hLedger hNow hStep
  · rfl
  · exact ⟨List.Pairwise.nil, List.prefix_rfl⟩

/-- The Linux side with two payloads queued sends one byte of the first and then the second. -/
def twoQueued : Memory where
  server := some { type := .linux }
  queues := { remoteSocketData := [bytes "ab", bytes "c"] }
  endpoint := .empty

def gapRun : List Event :=
  [.other (.select (some ⟨false, true⟩)), .other (.getSize .remote 2),
    .other (.pop .remote (bytes "ab")), .send .client (bytes "ab") (some 1),
    .other (.select (some ⟨false, true⟩)), .other (.getSize .remote 1),
    .other (.pop .remote (bytes "c")), .send .client (bytes "c") (some 1)]

theorem short_send_leaves_gap :
    ¬ ∀ memory es, machine.Throughout Contiguous (start memory) es := by
  intro hAll
  have hSent : ((machine.run (start twoQueued) gapRun).map (·.sends)) =
      some [(bytes "ab", 1), (bytes "c", 1)] := by
    decide +kernel
  obtain ⟨session, hRun, hSends⟩ := Option.map_eq_some_iff.mp hSent
  have hGapless := ((hAll twoQueued gapRun).last _ hRun).1
  rw [hSends] at hGapless
  have hWhole := (List.pairwise_cons.mp hGapless).1 _ List.mem_cons_self (by decide)
  exact absurd hWhole (by decide)

end ScRedirection.TcpTunnel.ShortSend
