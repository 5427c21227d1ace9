import Mathlib.Data.List.Dedup
import ScRedirection.Library.EventMachine
import ScRedirection.WebsocketServer.Dispatch

/-! # The handler registry under incoming messages

The tasks that `message` posts write `messageHandlers`, and so does the look-up of `onMessage`:
`operator[]` of the map makes the key that it does not find. Both run on the network thread, one
at a time.
-/

namespace ScRedirection.WebsocketServer.Registry

open Json Websocketpp TcpTunnel

variable {D : Type}

/-- `registrations` has the tasks of `message` that have run, in order. -/
structure State where
  server : Server
  queues : Queues
  registrations : List (Bytes × HandlerId) := []
  threw : Bool := false

/-- A registration task runs, a payload comes in, or something beside the registry changes. -/
inductive Event
  | register (messageType : Bytes) (handler : HandlerId)
  | receive (conn : ConnectionHdl) (payload : StdString)
  | elsewhere (rcvCallback sendCallback : Option Callback) (openConnections : List ConnectionHdl)
      (queues : Queues)

def State.registeredTypes (s : State) : List Bytes := s.registrations.map Prod.fst

def State.keys (s : State) : List Bytes := s.server.messageHandlers.map Prod.fst

/-- What `onMessage` throws ends the program. -/
def machine (doubles : Doubles D) : EventMachine State Event where
  step s e :=
    if s.threw then none
    else match e with
      | .register messageType handler => some { s with
          server := message s.server messageType handler
          registrations := s.registrations ++ [(messageType, handler)] }
      | .receive conn payload =>
        match onMessage doubles s.server s.queues conn payload with
        | .ok (server, queues, _) => some { s with server := server, queues := queues }
        | .error _ => some { s with threw := true }
      | .elsewhere rcvCallback sendCallback openConnections queues => some { s with
          server := { s.server with
            rcvCallback := rcvCallback
            sendCallback := sendCallback
            openConnections := openConnections }
          queues := queues }

def start (server : Server) (queues : Queues) : State where
  server := { server with messageHandlers := [] }
  queues := queues

/-- Each type has the handlers registered for it, in order. -/
def InOrder (s : State) : Prop :=
  ∀ messageType, handlersOf s.server messageType =
    (s.registrations.filter (·.1 = messageType)).map Prod.snd

/-- The keys are the types registered for, there are no more of them than that, and each has its
handlers. -/
structure Exact (s : State) : Prop where
  keys : ∀ messageType, messageType ∈ s.keys ↔ messageType ∈ s.registeredTypes
  size : s.server.messageHandlers.length = s.registeredTypes.dedup.length
  handlers : InOrder s

/-- `onMessage` looks up the handlers of the type. -/
def LooksUp (doubles : Doubles D) (server : Server) (payload : StdString) (messageType : Bytes) :
    Prop :=
  messageParse server payload.text = .unknown ∧ ∃ members field,
    parseJson doubles payload = .ok (.object members) ∧
      members.lookup messageField = some field ∧ field.asString doubles = .ok messageType

/-- A type that is looked up has been registered for. -/
def Registered (doubles : Doubles D) (s : State) : Event → Prop
  | .receive _ payload =>
    ∀ messageType, LooksUp doubles s.server payload messageType → messageType ∈ s.registeredTypes
  | _ => True

/-! ## The keys of the map -/

theorem keys_pushHandler (messageType : Bytes) (handler : HandlerId)
    (handlers : List (Bytes × List HandlerId)) :
    (pushHandler messageType handler handlers).map Prod.fst =
      if messageType ∈ handlers.map Prod.fst then handlers.map Prod.fst
      else handlers.map Prod.fst ++ [messageType] := by
  induction handlers with
  | nil => rfl
  | cons entry rest ih =>
    obtain ⟨key, hs⟩ := entry
    rw [pushHandler]
    split_ifs with hKey hMem hMem
    · rfl
    · exact absurd (hKey ▸ List.mem_cons_self) hMem
    · rw [List.map_cons, ih, if_pos ((List.mem_cons.mp hMem).resolve_left hKey)]
      rfl
    · rw [List.map_cons, ih, if_neg fun hRest => hMem (List.mem_cons_of_mem _ hRest)]
      rfl

theorem lookup_eq_none_iff {handlers : List (Bytes × List HandlerId)} {messageType : Bytes} :
    handlers.lookup messageType = none ↔ messageType ∉ handlers.map Prod.fst := by
  rw [List.lookup_eq_none_iff, List.mem_map]
  constructor
  · rintro hNone ⟨entry, hEntry, rfl⟩
    simpa using hNone entry hEntry
  · intro hNone entry hEntry
    exact bne_iff_ne.mpr fun hKey => hNone ⟨entry, hEntry, hKey.symm⟩

theorem lookupHandlers_of_mem {handlers : List (Bytes × List HandlerId)} {messageType : Bytes}
    (h : messageType ∈ handlers.map Prod.fst) :
    (lookupHandlers handlers messageType).1 = handlers := by
  rw [lookupHandlers]
  cases hFound : handlers.lookup messageType with
  | some hs => rfl
  | none => exact absurd h (lookup_eq_none_iff.mp hFound)

theorem lookupHandlers_of_not_mem {handlers : List (Bytes × List HandlerId)} {messageType : Bytes}
    (h : messageType ∉ handlers.map Prod.fst) :
    (lookupHandlers handlers messageType).1 = handlers ++ [(messageType, [])] := by
  rw [lookupHandlers, lookup_eq_none_iff.mpr h]

theorem keys_lookupHandlers (messageType : Bytes) (handlers : List (Bytes × List HandlerId)) :
    (lookupHandlers handlers messageType).1.map Prod.fst =
      if messageType ∈ handlers.map Prod.fst then handlers.map Prod.fst
      else handlers.map Prod.fst ++ [messageType] := by
  split_ifs with hMem
  · rw [lookupHandlers_of_mem hMem]
  · rw [lookupHandlers_of_not_mem hMem, List.map_append]
    rfl

theorem mem_keys_added {keys : List Bytes} {key messageType : Bytes} :
    (key ∈ if messageType ∈ keys then keys else keys ++ [messageType]) ↔
      key ∈ keys ∨ key = messageType := by
  split_ifs with hMem
  · constructor
    · exact .inl
    · rintro (hKey | rfl)
      · exact hKey
      · exact hMem
  · rw [List.mem_append, List.mem_singleton]

/-! ## The look-up of a payload -/

section LookUp

variable {doubles : Doubles D} {server server' : Server} {queues queues' : Queues}
  {conn : ConnectionHdl} {payload : StdString} {messageType messageType' : Bytes}

theorem LooksUp.unique (h : LooksUp doubles server payload messageType)
    (h' : LooksUp doubles server payload messageType') : messageType = messageType' := by
  obtain ⟨-, members, field, hRoot, hField, hType⟩ := h
  obtain ⟨-, members', field', hRoot', hField', hType'⟩ := h'
  cases hRoot.symm.trans hRoot'
  cases hField.symm.trans hField'
  exact Except.ok.inj (hType.symm.trans hType')

theorem LooksUp.onMessage_eq (h : LooksUp doubles server payload messageType) (queues : Queues)
    (conn : ConnectionHdl) : ∃ calls, onMessage doubles server queues conn payload =
      .ok ({ server with
        messageHandlers := (lookupHandlers server.messageHandlers messageType).1 },
        queues, calls) := by
  obtain ⟨hUnknown, members, field, hRoot, hField, hType⟩ := h
  rw [onMessage_unknown hUnknown, dispatchJson_object hRoot hField hType]
  exact ⟨_, rfl⟩

theorem onMessage_server {calls : List (HandlerCall D)}
    (h : onMessage doubles server queues conn payload = .ok (server', queues', calls))
    (hNone : ∀ messageType, ¬ LooksUp doubles server payload messageType) : server' = server := by
  cases hParse : messageParse server payload.text with
  | nullCall => simp [onMessage, hParse] at h
  | consumed =>
    simp only [onMessage, hParse, Except.ok.injEq, Prod.mk.injEq] at h
    exact h.1.symm
  | called callback data =>
    simp only [onMessage, hParse] at h
    cases hRun : callback.run data queues with
    | error exn => simp [hRun] at h
    | ok pushed =>
      simp only [hRun, Except.ok.injEq, Prod.mk.injEq] at h
      exact h.1.symm
  | unknown =>
    rw [onMessage_unknown hParse] at h
    cases hDispatch : dispatchJson doubles server conn payload with
    | error error => simp [hDispatch] at h
    | ok returned =>
      obtain ⟨server'', calls'⟩ := returned
      simp only [hDispatch, Except.ok.injEq, Prod.mk.injEq] at h
      obtain ⟨root, hRoot, -⟩ := bind_eq_ok hDispatch
      rcases dispatchJson_cases hRoot hDispatch with
        ⟨hSame, -⟩ | ⟨members, field, messageType, rfl, hField, hType⟩
      · exact h.1.symm.trans hSame
      · exact absurd ⟨hParse, members, field, hRoot, hField, hType⟩ (hNone messageType)

end LookUp

/-! ## One step -/

/-- What a step does to the registry. -/
inductive Effect (doubles : Doubles D) (s t : State) : Event → Prop
  | registered {messageType : Bytes} {handler : HandlerId}
      (hHandlers : t.server.messageHandlers =
        pushHandler messageType handler s.server.messageHandlers)
      (hRegistrations : t.registrations = s.registrations ++ [(messageType, handler)]) :
      Effect doubles s t (.register messageType handler)
  | lookedUp {conn : ConnectionHdl} {payload : StdString} {messageType : Bytes}
      (hLook : LooksUp doubles s.server payload messageType)
      (hHandlers : t.server.messageHandlers =
        (lookupHandlers s.server.messageHandlers messageType).1)
      (hRegistrations : t.registrations = s.registrations) :
      Effect doubles s t (.receive conn payload)
  | untouched {e : Event} (hRegistered : Registered doubles s e)
      (hHandlers : t.server.messageHandlers = s.server.messageHandlers)
      (hRegistrations : t.registrations = s.registrations) : Effect doubles s t e

variable {doubles : Doubles D} {s t : State} {e : Event}

theorem step_effect (hStep : (machine doubles).step s e = some t) : Effect doubles s t e := by
  simp only [machine, Option.ite_none_left_eq_some] at hStep
  obtain ⟨-, hStep⟩ := hStep
  cases e with
  | register messageType handler =>
    cases hStep
    exact .registered rfl rfl
  | elsewhere =>
    cases hStep
    exact .untouched trivial rfl rfl
  | receive conn payload =>
    dsimp only at hStep
    by_cases hLook : ∃ messageType, LooksUp doubles s.server payload messageType
    · obtain ⟨messageType, hLook⟩ := hLook
      obtain ⟨calls, hReturn⟩ := hLook.onMessage_eq s.queues conn
      rw [hReturn] at hStep
      cases hStep
      exact .lookedUp hLook rfl rfl
    · rw [not_exists] at hLook
      have hVacuous : Registered doubles s (.receive conn payload) :=
        fun messageType h => absurd h (hLook messageType)
      split at hStep
      case h_1 server queues calls hReturn =>
        obtain rfl := onMessage_server hReturn hLook
        cases hStep
        exact .untouched hVacuous rfl rfl
      case h_2 =>
        cases hStep
        exact .untouched hVacuous rfl rfl

namespace Effect

/-- Only a key that is not there is added, and then as the last one. -/
theorem keys (h : Effect doubles s t e) : t.keys = s.keys ∨
    ∃ messageType, messageType ∉ s.keys ∧ t.keys = s.keys ++ [messageType] := by
  rw [State.keys, State.keys]
  cases h with
  | registered hHandlers =>
    rw [hHandlers, keys_pushHandler]
    split_ifs with hMem
    · exact .inl rfl
    · exact .inr ⟨_, hMem, rfl⟩
  | lookedUp _ hHandlers =>
    rw [hHandlers, keys_lookupHandlers]
    split_ifs with hMem
    · exact .inl rfl
    · exact .inr ⟨_, hMem, rfl⟩
  | untouched _ hHandlers =>
    rw [hHandlers]
    exact .inl rfl

theorem nodup (h : Effect doubles s t e) (hNodup : s.keys.Nodup) : t.keys.Nodup := by
  rcases h.keys with hSame | ⟨messageType, hNew, hKeys⟩
  · rw [hSame]
    exact hNodup
  · rw [hKeys, ← List.concat_eq_append]
    exact hNodup.concat hNew

theorem keys_grow (h : Effect doubles s t e) : s.keys <+: t.keys := by
  rcases h.keys with hSame | ⟨messageType, -, hKeys⟩
  · exact hSame ▸ List.prefix_rfl
  · rw [hKeys]
    exact List.prefix_append _ _

theorem inOrder (h : Effect doubles s t e) (hOrder : InOrder s) : InOrder t := by
  intro key
  rw [handlersOf]
  cases h with
  | @registered messageType handler hHandlers hRegistrations =>
    have hKey := handlersOf_message s.server messageType key handler
    rw [handlersOf, message] at hKey
    rw [hHandlers, hKey, hRegistrations, List.filter_append, List.map_append, hOrder key]
    split_ifs with hSame
    · simp [hSame]
    · simp [Ne.symm hSame]
  | @lookedUp _ _ messageType _ hHandlers hRegistrations =>
    have hKey := handlersOf_lookupHandlers s.server messageType key
    rw [handlersOf] at hKey
    rw [hHandlers, hKey, hRegistrations]
    exact hOrder key
  | untouched _ hHandlers hRegistrations =>
    rw [hHandlers, hRegistrations]
    exact hOrder key

end Effect

theorem size_of_keys (hNodup : s.keys.Nodup)
    (hKeys : ∀ messageType, messageType ∈ s.keys ↔ messageType ∈ s.registeredTypes) :
    s.server.messageHandlers.length = s.registeredTypes.dedup.length := by
  have hSame : s.keys.Perm s.registeredTypes.dedup := by
    rw [List.perm_ext_iff_of_nodup hNodup (List.nodup_dedup _)]
    intro messageType
    rw [List.mem_dedup]
    exact hKeys messageType
  rw [← hSame.length_eq, State.keys, List.length_map]

namespace Exact

theorem start (server : Server) (queues : Queues) : Exact (start server queues) where
  keys _ := Iff.rfl
  size := rfl
  handlers _ := rfl

/-- Beside the keys a step keeps everything. -/
theorem iff_keys (h : Exact s) (hNodup : s.keys.Nodup) (hEffect : Effect doubles s t e) :
    Exact t ↔ ∀ messageType, messageType ∈ t.keys ↔ messageType ∈ t.registeredTypes := by
  constructor
  · intro hExact
    exact hExact.keys
  · intro hKeys
    exact ⟨hKeys, size_of_keys (hEffect.nodup hNodup) hKeys, hEffect.inOrder h.handlers⟩

/-- A step keeps the registry exact when and only when it looks up no type but a registered
one. -/
theorem step_iff (h : Exact s) (hNodup : s.keys.Nodup) (hEffect : Effect doubles s t e) :
    Exact t ↔ Registered doubles s e := by
  rw [h.iff_keys hNodup hEffect]
  cases hEffect with
  | @registered messageType handler hHandlers hRegistrations =>
    refine iff_of_true (fun key => ?_) trivial
    rw [State.keys, hHandlers, keys_pushHandler, mem_keys_added, State.registeredTypes,
      hRegistrations, List.map_append, List.mem_append, List.map_singleton, List.mem_singleton]
    exact or_congr_left (h.keys key)
  | @lookedUp conn payload messageType hLook hHandlers hRegistrations =>
    simp only [State.keys, hHandlers, keys_lookupHandlers, mem_keys_added, State.registeredTypes,
      hRegistrations]
    constructor
    · intro hKeys messageType' hLook'
      obtain rfl := hLook.unique hLook'
      exact (hKeys messageType).mp (.inr rfl)
    · intro hRegistered key
      constructor
      · rintro (hOld | rfl)
        · exact (h.keys key).mp hOld
        · exact hRegistered key hLook
      · intro hKey
        exact .inl ((h.keys key).mpr hKey)
  | untouched hRegistered hHandlers hRegistrations =>
    rw [State.keys, hHandlers, State.registeredTypes, hRegistrations]
    exact iff_of_true h.keys hRegistered

end Exact

/-! ## Whole runs -/

/-- The entries that messages leave take no handler from any type and give it none. -/
theorem inOrder_throughout (doubles : Doubles D) (server : Server) (queues : Queues)
    (es : List Event) : (machine doubles).Throughout InOrder (start server queues) es := by
  apply (machine doubles).throughout_of_invariant (I := InOrder)
  · intro s e t hOrder hStep
    exact (step_effect hStep).inOrder hOrder
  · exact fun s hOrder => hOrder
  · exact (Exact.start server queues).handlers

/-- No key ever goes again. -/
theorem keys_grow_of_run {es : List Event} (h : (machine doubles).run s es = some t) :
    s.keys <+: t.keys := by
  apply (machine doubles).run_invariant (P := fun m => s.keys <+: m.keys) ?_ List.prefix_rfl h
  intro m e m' hPrefix hStep
  exact hPrefix.trans (step_effect hStep).keys_grow

/-- The registry is what the registrations made it, all through a run, exactly when every type
that the run looks up has been registered for before. -/
theorem exact_throughout_iff (doubles : Doubles D) (server : Server) (queues : Queues)
    (es : List Event) :
    (machine doubles).Throughout Exact (start server queues) es ↔
      (machine doubles).StepsMeet (Registered doubles) (start server queues) es := by
  refine (machine doubles).throughout_iff_stepsMeet (I := fun s => s.keys.Nodup)
    ?inv ?step List.nodup_nil (.start server queues)
  case inv =>
    intro s e t hNodup _ _ hStep
    exact (step_effect hStep).nodup hNodup
  case step =>
    intro s e t hNodup hExact hStep
    exact hExact.step_iff hNodup (step_effect hStep)

theorem fresh_type_is_inserted : ¬ ∀ es,
    (machine Doubles.absent).Throughout Exact (start { type := .linux } {}) es := by
  intro hAll
  have hRun : ((machine Doubles.absent).run (start { type := .linux } {})
      [.receive 1 ⟨bytes "\x7b\"__MESSAGE__\":\"x\"\x7d", .none⟩]).map
      (fun s => (s.keys, s.registeredTypes)) = some ([bytes "x"], []) := by
    decide +kernel
  obtain ⟨s, hs, hKeys⟩ := Option.map_eq_some_iff.mp hRun
  obtain ⟨hKeys, hTypes⟩ := Prod.mk.inj hKeys
  have hExact := ((hAll _).last _ hs).keys (bytes "x")
  rw [hKeys, hTypes] at hExact
  exact absurd (hExact.mp (List.mem_singleton_self _)) List.not_mem_nil

end ScRedirection.WebsocketServer.Registry
