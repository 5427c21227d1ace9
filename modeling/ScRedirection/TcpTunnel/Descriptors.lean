import ScRedirection.TcpTunnel.Loop

/-! # Descriptors over the accept loop

The open tunnel descriptors of the parent and of each child, through every outcome of every call.
A new descriptor is one that is not open in the process that gets it.
-/

namespace ScRedirection.TcpTunnel.Descriptors

open WebsocketServer

/-- `rc` and the descriptors open in the process. A close of one that is not open sets
`misclosed`; a negative descriptor is `none`. -/
structure FdTable where
  serverSocket : Nat
  clientSocket : Option Nat := none
  remoteSocket : Option Nat := none
  opened : List Nat
  misclosed : Bool := false
  deriving DecidableEq, Repr

namespace FdTable

def close (d : FdTable) (fd : Option Nat) : FdTable :=
  match fd with
  | none => { d with misclosed := true }
  | some fd =>
    if fd ∈ d.opened then { d with opened := d.opened.erase fd } else { d with misclosed := true }

def effect (d : FdTable) : LoopAction → Option FdTable
  | .accept none => some { d with clientSocket := none }
  | .accept (some fd) =>
    if fd ∈ d.opened then none
    else some { d with clientSocket := some fd, opened := fd :: d.opened }
  | .socket none => some { d with remoteSocket := none }
  | .socket (some fd) =>
    if fd ∈ d.opened then none
    else some { d with remoteSocket := some fd, opened := fd :: d.opened }
  | .closeClient => some (d.close d.clientSocket)
  | .closeServer => some (d.close (some d.serverSocket))
  | .tunnel (.close .client) => some (d.close d.clientSocket)
  | .tunnel (.close .remote) => some (d.close d.remoteSocket)
  | .exit => some { d with opened := [] }
  | _ => some d

end FdTable

def noNetwork (_ : Proc FdTable) (n : Empty) : Option (Proc FdTable) := n.elim

def machine (settings : Settings) (server : Option ServerType) :
    EventMachine (World FdTable) (WorldEvent Empty) :=
  loop settings server FdTable.effect noNetwork

def start (serverSocket : Nat) : World FdTable :=
  World.start { serverSocket := serverSocket, opened := [serverSocket] }

/-- At the end of a round `server_socket` is all the parent has open, and no process has closed
what it did not have open. -/
structure Balanced (w : World FdTable) : Prop where
  roundEnd : w.parent.pc = .accept ∨ w.parent.pc = .closeListener →
    w.parent.data.opened = [w.parent.data.serverSocket]
  closedOnce : w.parent.data.misclosed = false ∧ ∀ c ∈ w.children, c.data.misclosed = false

/-- The outcomes on which `build_tunnel` or `use_tunnel` returns without closing anything. -/
inductive Abandons : LoopAction → Prop
  | hostNotFound : Abandons (.gethostbyname false)
  | socketFailed : Abandons (.socket none)
  | connectFailed : Abandons (.connect false)
  | selectFailed : Abandons (.tunnel (.select none))

/-- None of these happens in the parent, which serves a client itself when it does not fork. -/
def Condition (_ : World FdTable) (e : WorldEvent Empty) : Prop :=
  ∀ a, e = .parent a → ¬ Abandons a

/-! ## What is open at each call -/

inductive Stage
  | idle
  | client
  | inherited
  | both
  | remote
  | over
  deriving DecidableEq, Repr

def stageOf : LoopPc → Stage
  | .accept | .closeListener => .idle
  | .checkAddress | .closeRefused | .fork | .closeClient | .gethostbyname | .socket => .client
  | .closeServer => .inherited
  | .useTunnel (.close .remote _) => .remote
  | .connect | .useTunnel _ => .both
  | .exit | .finished | .terminated => .over

/-- The calls a process of this role can come to. -/
def Reaches : Role → LoopPc → Prop
  | .parent, pc => pc ≠ .closeServer
  | .child, pc => stageOf pc ≠ .idle ∧ pc ≠ .checkAddress ∧ pc ≠ .closeRefused ∧ pc ≠ .fork ∧
      pc ≠ .closeClient

def kept (d : FdTable) : Role → List Nat
  | .parent => [d.serverSocket]
  | .child => []

def Holds (d : FdTable) (rest : List Nat) : Stage → Prop
  | .idle => d.opened = rest
  | .client => ∃ c, d.clientSocket = some c ∧ d.opened = c :: rest ∧ c ∉ rest
  | .inherited => ∃ c, d.clientSocket = some c ∧ d.opened = [c, d.serverSocket] ∧
      c ≠ d.serverSocket
  | .both => ∃ c r, d.clientSocket = some c ∧ d.remoteSocket = some r ∧
      d.opened = r :: c :: rest ∧ c ∉ rest ∧ r ≠ c ∧ r ∉ rest
  | .remote => ∃ r, d.remoteSocket = some r ∧ d.opened = r :: rest ∧ r ∉ rest
  | .over => True

structure Sound (p : Proc FdTable) : Prop where
  reaches : Reaches p.role p.pc
  holds : Holds p.data (kept p.data p.role) (stageOf p.pc)
  closedOnce : p.data.misclosed = false

theorem close_head {d : FdTable} {fd : Nat} {rest : List Nat} (h : d.opened = fd :: rest) :
    d.close (some fd) = { d with opened := rest } := by
  simp [FdTable.close, h]

theorem close_second {d : FdTable} {fd other : Nat} {rest : List Nat}
    (h : d.opened = other :: fd :: rest) (hNe : other ≠ fd) :
    d.close (some fd) = { d with opened := other :: rest } := by
  simp [FdTable.close, h, hNe]

theorem stageOf_endRound (settings : Settings) : stageOf (endRound settings) = .idle := by
  unfold endRound
  split_ifs <;> rfl

theorem stageOf_handleClient (settings : Settings) : stageOf (handleClient settings) = .client := by
  unfold handleClient
  split_ifs <;> rfl

theorem endRound_cases (settings : Settings) :
    endRound settings = .accept ∨ endRound settings = .closeListener := by
  unfold endRound
  split_ifs
  · exact .inl rfl
  · exact .inr rfl

/-! The stages, by the calls that lead from one to the next. -/

section Stages

variable {d d' : FdTable} {rest : List Nat} {fd : Nat}

theorem holds_accepted (h : Holds d rest .idle) (hEffect : d.effect (.accept (some fd)) = some d') :
    Holds d' rest .client ∧ d'.serverSocket = d.serverSocket ∧ d'.misclosed = d.misclosed := by
  simp only [FdTable.effect, Option.ite_none_left_eq_some, Option.some.injEq] at hEffect
  obtain ⟨hFresh, rfl⟩ := hEffect
  simp only [Holds] at h
  rw [h] at hFresh
  exact ⟨⟨fd, rfl, by rw [h], hFresh⟩, rfl, rfl⟩

theorem holds_socket (h : Holds d rest .client) (hEffect : d.effect (.socket (some fd)) = some d') :
    Holds d' rest .both ∧ d'.serverSocket = d.serverSocket ∧ d'.misclosed = d.misclosed := by
  simp only [FdTable.effect, Option.ite_none_left_eq_some, Option.some.injEq] at hEffect
  obtain ⟨hFresh, rfl⟩ := hEffect
  obtain ⟨c, hClient, hOpened, hc⟩ := h
  rw [hOpened, List.mem_cons, not_or] at hFresh
  exact ⟨⟨c, fd, hClient, rfl, by rw [hOpened], hc, hFresh.1, hFresh.2⟩, rfl, rfl⟩

theorem holds_closeClient (h : Holds d rest .client) :
    Holds (d.close d.clientSocket) rest .idle ∧
      (d.close d.clientSocket).serverSocket = d.serverSocket ∧
      (d.close d.clientSocket).misclosed = d.misclosed := by
  obtain ⟨c, hClient, hOpened, hc⟩ := h
  rw [hClient, close_head hOpened]
  exact ⟨rfl, rfl, rfl⟩

theorem holds_closeFirst (h : Holds d rest .both) :
    Holds (d.close d.clientSocket) rest .remote ∧
      (d.close d.clientSocket).serverSocket = d.serverSocket ∧
      (d.close d.clientSocket).misclosed = d.misclosed := by
  obtain ⟨c, r, hClient, hRemote, hOpened, hc, hrc, hr⟩ := h
  rw [hClient, close_second hOpened hrc]
  exact ⟨⟨r, hRemote, rfl, hr⟩, rfl, rfl⟩

theorem holds_closeSecond (h : Holds d rest .remote) :
    Holds (d.close d.remoteSocket) rest .idle ∧
      (d.close d.remoteSocket).serverSocket = d.serverSocket ∧
      (d.close d.remoteSocket).misclosed = d.misclosed := by
  obtain ⟨r, hRemote, hOpened, hr⟩ := h
  rw [hRemote, close_head hOpened]
  exact ⟨rfl, rfl, rfl⟩

theorem holds_closeServer (h : Holds d rest .inherited) :
    Holds (d.close (some d.serverSocket)) [] .client ∧
      (d.close (some d.serverSocket)).misclosed = d.misclosed := by
  obtain ⟨c, hClient, hOpened, hc⟩ := h
  rw [close_second hOpened hc]
  exact ⟨⟨c, hClient, rfl, List.not_mem_nil⟩, rfl⟩

end Stages

theorem kept_congr {d d' : FdTable} (h : d'.serverSocket = d.serverSocket) (role : Role) :
    kept d' role = kept d role := by
  cases role with
  | parent => rw [kept, kept, h]
  | child => rfl

theorem Sound.of_stage {role : Role} {pc : LoopPc} {d d' : FdTable} {stage : Stage}
    (hReaches : Reaches role pc) (hStage : stageOf pc = stage)
    (h : Holds d' (kept d role) stage ∧ d'.serverSocket = d.serverSocket ∧
      d'.misclosed = d.misclosed) (hClosed : d.misclosed = false) : Sound ⟨role, pc, d'⟩ := by
  obtain ⟨hHolds, hServer, hMisclosed⟩ := h
  refine ⟨hReaches, ?_, hMisclosed.trans hClosed⟩
  rw [kept_congr hServer, hStage]
  exact hHolds

theorem reaches_parent {pc : LoopPc} {stage : Stage} (hStage : stageOf pc = stage)
    (h : stage ≠ .inherited) : Reaches .parent pc := by
  rintro rfl
  exact h hStage.symm

theorem sound_leave {settings : Settings} {role : Role} {a : LoopAction} {d : FdTable}
    (hClosed : d.misclosed = false) (hAbandons : Abandons a)
    (hFine : role = .parent → ¬ Abandons a) : Sound ⟨role, leaveTunnel settings role, d⟩ := by
  cases role with
  | parent => exact absurd hAbandons (hFine rfl)
  | child => exact ⟨by simp [leaveTunnel, Reaches, stageOf], trivial, hClosed⟩

theorem reaches_useTunnel (role : Role) (pc : Pc) : Reaches role (.useTunnel pc) := by
  cases role with
  | parent => simp [Reaches]
  | child =>
    refine ⟨?_, by simp, by simp, by simp, by simp⟩
    unfold stageOf
    split <;> simp_all

theorem sound_tunnel {settings : Settings} {server : Option ServerType} {role : Role} {pc pc' : Pc}
    {a : Action} {d d' : FdTable} (hSound : Sound ⟨role, .useTunnel pc, d⟩)
    (hMove : Move server pc a pc') (hEffect : d.effect (.tunnel a) = some d')
    (hFine : role = .parent → ¬ Abandons (.tunnel a)) :
    Sound ⟨role, inTunnel settings role pc', d'⟩ := by
  obtain ⟨hReaches, hHolds, hClosed⟩ := hSound
  simp only at hReaches hHolds hClosed
  have hBegins : ∀ {pc' : Pc}, pc'.Begins → Holds d (kept d role) .both →
      Sound ⟨role, inTunnel settings role pc', d⟩ := by
    intro pc' hBegins hBoth
    cases hBegins with
    | select => exact .of_stage (reaches_useTunnel _ _) rfl ⟨hBoth, rfl, rfl⟩ hClosed
    | getSize => exact .of_stage (reaches_useTunnel _ _) rfl ⟨hBoth, rfl, rfl⟩ hClosed
    | recv => exact .of_stage (reaches_useTunnel _ _) rfl ⟨hBoth, rfl, rfl⟩ hClosed
  cases hMove with
  | selectFailed =>
    cases hEffect
    exact sound_leave hClosed .selectFailed hFine
  | closeClient =>
    cases hEffect
    exact .of_stage (reaches_useTunnel _ _) rfl (holds_closeFirst hHolds) hClosed
  | closeRemote =>
    cases hEffect
    have hIdle := holds_closeSecond hHolds
    cases role with
    | parent =>
      exact .of_stage (reaches_parent (stageOf_endRound settings) (by decide))
        (stageOf_endRound settings) hIdle hClosed
    | child => exact ⟨by simp [inTunnel, leaveTunnel, Reaches, stageOf], trivial,
        hIdle.2.2.trans hClosed⟩
  | broadcastThrew =>
    cases hEffect
    cases role with
    | parent => exact ⟨by simp [inTunnel, Reaches], trivial, hClosed⟩
    | child => exact ⟨by simp [inTunnel, Reaches, stageOf], trivial, hClosed⟩
  | selectReady => cases hEffect; exact hBegins (begins_enterClient ..) hHolds
  | queueEmpty => cases hEffect; exact hBegins (begins_next ..) hHolds
  | sent => cases hEffect; exact hBegins (begins_next ..) hHolds
  | dropped => cases hEffect; exact hBegins (begins_next ..) hHolds
  | broadcastReturned => cases hEffect; exact hBegins (begins_next ..) hHolds
  | _ =>
    cases hEffect
    exact .of_stage (reaches_useTunnel _ _) rfl ⟨hHolds, rfl, rfl⟩ hClosed

/-- The calls of the accept loop itself, which no child makes. -/
inductive OfParent : LoopPc → Prop
  | accept : OfParent .accept
  | checkAddress : OfParent .checkAddress
  | closeRefused : OfParent .closeRefused
  | fork : OfParent .fork
  | closeClient : OfParent .closeClient
  | closeListener : OfParent .closeListener

theorem OfParent.role_eq {role : Role} {pc : LoopPc} (h : OfParent pc) (hReaches : Reaches role pc) :
    role = .parent := by
  cases role with
  | parent => rfl
  | child =>
    obtain ⟨hIdle, hAddress, hRefused, hFork, hClient⟩ := hReaches
    cases h with
    | accept => exact absurd rfl hIdle
    | checkAddress => exact absurd rfl hAddress
    | closeRefused => exact absurd rfl hRefused
    | fork => exact absurd rfl hFork
    | closeClient => exact absurd rfl hClient
    | closeListener => exact absurd rfl hIdle

theorem sound_ofParent {settings : Settings} {server : Option ServerType} {role : Role}
    {pc pc' : LoopPc} {a : LoopAction} {d d' : FdTable} (hSound : Sound ⟨role, pc, d⟩)
    (hPc : OfParent pc) (hMove : LoopMove settings server role pc a pc')
    (hEffect : d.effect a = some d') : Sound ⟨role, pc', d'⟩ := by
  obtain rfl : role = .parent := hPc.role_eq hSound.reaches
  obtain ⟨-, hHolds, hClosed⟩ := hSound
  simp only at hHolds hClosed
  have hRoundEnd : ∀ {d' : FdTable}, Holds d' (kept d .parent) .idle ∧
      d'.serverSocket = d.serverSocket ∧ d'.misclosed = d.misclosed →
      Sound ⟨.parent, endRound settings, d'⟩ := by
    intro d' hIdle
    have hStage := stageOf_endRound settings
    exact .of_stage (reaches_parent hStage (by decide)) hStage hIdle hClosed
  have hClient : ∀ {pc : LoopPc} {d' : FdTable}, stageOf pc = .client →
      Holds d' (kept d .parent) .client ∧ d'.serverSocket = d.serverSocket ∧
        d'.misclosed = d.misclosed → Sound ⟨.parent, pc, d'⟩ := by
    intro pc d' hStage hOpen
    exact .of_stage (reaches_parent hStage (by decide)) hStage hOpen hClosed
  cases hMove with
  | acceptFailed => cases hEffect; exact hRoundEnd ⟨hHolds, rfl, rfl⟩
  | accepted =>
    apply hClient ?_ (holds_accepted hHolds hEffect)
    split_ifs
    · rfl
    · exact stageOf_handleClient settings
  | admitted => cases hEffect; exact hClient (stageOf_handleClient settings) ⟨hHolds, rfl, rfl⟩
  | refused => cases hEffect; exact hClient rfl ⟨hHolds, rfl, rfl⟩
  | fork => cases hEffect; exact hClient rfl ⟨hHolds, rfl, rfl⟩
  | closeRefused => cases hEffect; exact hRoundEnd (holds_closeClient hHolds)
  | closeClient => cases hEffect; exact hRoundEnd (holds_closeClient hHolds)
  | closeListener =>
    cases hEffect
    refine ⟨by simp [Reaches], trivial, ?_⟩
    rw [close_head hHolds]
    exact hClosed
  | _ => cases hPc

theorem sound_step {settings : Settings} {server : Option ServerType} {p p' : Proc FdTable}
    {a : LoopAction} (hSound : Sound p)
    (hStep : p.step settings server FdTable.effect a = some p')
    (hFine : p.role = .parent → ¬ Abandons a) : Sound p' := by
  obtain ⟨hMove, hEffect, hRole⟩ := Proc.step_eq_some hStep
  obtain ⟨role, pc, d⟩ := p
  obtain ⟨role', pc', d'⟩ := p'
  obtain rfl : role' = role := hRole
  simp only at hMove hEffect hFine
  have hOfParent : OfParent pc → Sound ⟨role', pc', d'⟩ :=
    fun hPc => sound_ofParent hSound hPc hMove hEffect
  obtain ⟨hReaches, hHolds, hClosed⟩ := hSound
  simp only at hReaches hHolds hClosed
  cases hMove with
  | tunnel hMove => exact sound_tunnel ⟨hReaches, hHolds, hClosed⟩ hMove hEffect hFine
  | hostNotFound => cases hEffect; exact sound_leave hClosed .hostNotFound hFine
  | socketFailed => cases hEffect; exact sound_leave hClosed .socketFailed hFine
  | connectFailed => cases hEffect; exact sound_leave hClosed .connectFailed hFine
  | exit =>
    cases hEffect
    refine ⟨?_, trivial, hClosed⟩
    cases role' <;> simp [Reaches, stageOf]
  | hostFound =>
    cases hEffect
    refine .of_stage ?_ rfl ⟨hHolds, rfl, rfl⟩ hClosed
    cases role' <;> simp [Reaches, stageOf]
  | socketCreated =>
    refine .of_stage ?_ rfl (holds_socket hHolds hEffect) hClosed
    cases role' <;> simp [Reaches, stageOf]
  | connected =>
    cases hEffect
    exact .of_stage (reaches_useTunnel _ _) rfl ⟨hHolds, rfl, rfl⟩ hClosed
  | closeServer =>
    cases role' with
    | parent => exact absurd rfl hReaches
    | child =>
      cases hEffect
      obtain ⟨hClient, hMisclosed⟩ := holds_closeServer hHolds
      exact ⟨by simp [Reaches, stageOf], hClient, hMisclosed.trans hClosed⟩
  | acceptFailed => exact hOfParent .accept
  | accepted => exact hOfParent .accept
  | admitted => exact hOfParent .checkAddress
  | refused => exact hOfParent .checkAddress
  | fork => exact hOfParent .fork
  | closeRefused => exact hOfParent .closeRefused
  | closeClient => exact hOfParent .closeClient
  | closeListener => exact hOfParent .closeListener

/-! ## Whole runs -/

structure WorldSound (w : World FdTable) : Prop where
  parent : Sound w.parent
  parentRole : w.parent.role = .parent
  children : ∀ c ∈ w.children, Sound c ∧ c.role = .child

variable {settings : Settings} {server : Option ServerType}

theorem sound_forked {p : Proc FdTable} (h : Sound p) (hRole : p.role = .parent)
    (hPc : p.pc = .closeClient) : Sound p.forked := by
  obtain ⟨-, hHolds, hClosed⟩ := h
  rw [hRole, hPc] at hHolds
  obtain ⟨c, hClient, hOpened, hc⟩ := hHolds
  refine ⟨by simp [Proc.forked, Reaches, stageOf], ⟨c, hClient, hOpened, ?_⟩, hClosed⟩
  simpa [kept, Proc.forked] using hc

theorem leaks_of_abandons {p p' : Proc FdTable} {a : LoopAction} (h : Sound p)
    (hRole : p.role = .parent) (hStep : p.step settings server FdTable.effect a = some p')
    (hAbandons : Abandons a) :
    (p'.pc = .accept ∨ p'.pc = .closeListener) ∧ p'.data.opened ≠ [p'.data.serverSocket] := by
  obtain ⟨hMove, hEffect, -⟩ := Proc.step_eq_some hStep
  obtain ⟨role, pc, d⟩ := p
  obtain ⟨role', pc', d'⟩ := p'
  obtain rfl : role = .parent := hRole
  obtain ⟨-, hHolds, -⟩ := h
  simp only at hMove hEffect hHolds ⊢
  cases hAbandons with
  | hostNotFound =>
    cases hEffect
    cases hMove
    obtain ⟨c, -, hOpened, -⟩ := hHolds
    exact ⟨endRound_cases settings, by simp [hOpened, kept]⟩
  | socketFailed =>
    cases hEffect
    cases hMove
    obtain ⟨c, -, hOpened, -⟩ := hHolds
    exact ⟨endRound_cases settings, by simp [hOpened, kept]⟩
  | connectFailed =>
    cases hEffect
    cases hMove
    obtain ⟨c, r, -, -, hOpened, -⟩ := hHolds
    exact ⟨endRound_cases settings, by simp [hOpened]⟩
  | selectFailed =>
    cases hEffect
    cases hMove with
    | tunnel hMove =>
      cases hMove
      obtain ⟨c, r, -, -, hOpened, -⟩ := hHolds
      exact ⟨endRound_cases settings, by simp [hOpened]⟩

theorem Sound.roundEnd {p : Proc FdTable} (h : Sound p) (hRole : p.role = .parent)
    (hPc : p.pc = .accept ∨ p.pc = .closeListener) :
    p.data.opened = [p.data.serverSocket] := by
  have hHolds := h.holds
  have hStage : stageOf p.pc = .idle := by rcases hPc with hPc | hPc <;> rw [hPc] <;> rfl
  rw [hStage, hRole] at hHolds
  exact hHolds

theorem WorldSound.balanced {w : World FdTable} (h : WorldSound w) : Balanced w where
  roundEnd := h.parent.roundEnd h.parentRole
  closedOnce := ⟨h.parent.closedOnce, fun c hc => (h.children c hc).1.closedOnce⟩

theorem worldSound_step {w w' : World FdTable} {e : WorldEvent Empty} (h : WorldSound w)
    (hCondition : Condition w e) (hStep : (machine settings server).step w e = some w') :
    WorldSound w' := by
  have hMoved := World.step_moved hStep
  cases hMoved with
  | parent hParent hFork =>
    rename_i a p
    have hRole := (Proc.step_eq_some hParent).2.2
    exact ⟨sound_step h.parent hParent fun _ => hCondition a rfl, hRole.trans h.parentRole,
      h.children⟩
  | fork hParent =>
    rename_i p
    have hRole := (Proc.step_eq_some hParent).2.2
    have hSound := sound_step h.parent hParent fun _ => hCondition _ rfl
    have hPc := Proc.closeClient_of_fork hParent
    refine ⟨hSound, hRole.trans h.parentRole, fun c hc => ?_⟩
    rcases List.mem_append.mp hc with hc | hc
    · exact h.children c hc
    · rw [List.mem_singleton.mp hc]
      exact ⟨sound_forked hSound (hRole.trans h.parentRole) hPc, rfl⟩
  | child hChild hOwn =>
    rename_i i a c c'
    obtain ⟨hSound, hRole⟩ := h.children c (List.mem_of_getElem? hChild)
    have hRole' := (Proc.step_eq_some hOwn).2.2.trans hRole
    refine ⟨h.parent, h.parentRole, fun k hk => ?_⟩
    rcases List.mem_or_eq_of_mem_set hk with hk | rfl
    · exact h.children k hk
    · refine ⟨sound_step hSound hOwn fun hParent => ?_, hRole'⟩
      cases hRole.symm.trans hParent
  | network hNetwork => exact Empty.elim ‹Empty›

theorem balanced_step_iff {w w' : World FdTable} {e : WorldEvent Empty} (h : WorldSound w)
    (hStep : (machine settings server).step w e = some w') :
    Balanced w' ↔ Condition w e := by
  constructor
  · intro hBalanced a hEvent hAbandons
    have hMoved := World.step_moved hStep
    rw [hEvent] at hMoved
    cases hMoved with
    | fork => cases hAbandons
    | parent hParent =>
      obtain ⟨hPc, hLeaks⟩ := leaks_of_abandons h.parent h.parentRole hParent hAbandons
      exact hLeaks (hBalanced.roundEnd hPc)
  · intro hCondition
    exact (worldSound_step h hCondition hStep).balanced

theorem worldSound_start (serverSocket : Nat) : WorldSound (start serverSocket) where
  parent := ⟨by simp [start, World.start, Reaches], rfl, rfl⟩
  parentRole := rfl
  children c hc := absurd hc List.not_mem_nil

/-- Whatever the settings, every round of a run ends balanced exactly when no round the parent
serves itself is given up. -/
theorem balanced_throughout_iff (settings : Settings) (server : Option ServerType)
    (serverSocket : Nat) (es : List (WorldEvent Empty)) :
    (machine settings server).Throughout Balanced (start serverSocket) es ↔
      (machine settings server).StepsMeet Condition (start serverSocket) es :=
  (machine settings server).throughout_iff_stepsMeet
    (fun _ _ _ hSound _ hCondition hStep => worldSound_step hSound hCondition hStep)
    (fun _ _ _ hSound _ hStep => balanced_step_iff hSound hStep)
    (worldSound_start serverSocket) (worldSound_start serverSocket).balanced

theorem leak_when_host_not_found :
    ¬ ∀ es, (machine ⟨true, false, false⟩ (some .linux)).Throughout Balanced (start 3) es := by
  intro hAll
  have hRun : ((machine ⟨true, false, false⟩ (some .linux)).run (start 3)
      [.parent (.accept (some 4)), .parent (.gethostbyname false)]).map
      (fun w => (w.parent.pc, w.parent.data.opened, w.parent.data.serverSocket)) =
      some (.accept, [4, 3], 3) := by
    decide +kernel
  obtain ⟨w, hw, hLeaked⟩ := Option.map_eq_some_iff.mp hRun
  simp only [Prod.mk.injEq] at hLeaked
  obtain ⟨hPc, hOpened, hServer⟩ := hLeaked
  have hBalanced := ((hAll _).last _ hw).roundEnd (.inl hPc)
  rw [hOpened, hServer] at hBalanced
  cases hBalanced

end ScRedirection.TcpTunnel.Descriptors
