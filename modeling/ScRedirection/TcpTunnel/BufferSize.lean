import ScRedirection.Library.EventMachine
import ScRedirection.TcpTunnel.Options
import ScRedirection.TcpTunnel.UseTunnel

/-! # What `count` says for a configured buffer size

The size goes from `atoi` into an `unsigned int`, from there into the length of the array `buffer`
and so into the `size_t` of `recv`, whose result comes back in an `int`. An array of any size is
taken to fit on the stack.
-/

namespace ScRedirection.TcpTunnel.BufferSize

open WebsocketServer Options

def intMax : Nat := 2 ^ 31 - 1

/-- A result assigned to an `int`. -/
def toInt (result : Int) : Int := result.bmod uintValues

/-- What the kernel holds of the peer's bytes, and whether the peer has closed its end. -/
structure Stream where
  unread : Bytes := []
  closed : Bool := false

/-- A `recv`: its length, what it read if it did not fail, the `count` it was taken for, and
whether the stream was at its end. -/
structure Received where
  length : Nat
  read : Option Bytes
  count : Int
  atEnd : Bool

structure Session where
  process : Process
  bufferSize : Nat
  streams : Socket → Stream := fun _ => {}
  received : List Received := []

/-- `recv` has the number of bytes it reads in the event, `none` for an error. -/
inductive Event
  | recv (sock : Socket) (taken : Option Nat)
  | other (a : Action)
  | arrive (sock : Socket) (data : Bytes)
  | peerClose (sock : Socket)
  | push (sock : Socket) (item : Bytes)

namespace Stream

/-- What POSIX lets `recv` read: nothing when it is given no room, else some of what is there, and
nothing at the end of the stream. -/
def mayRead (stream : Stream) (length taken : Nat) : Bool :=
  if length = 0 then taken == 0
  else if stream.unread = [] then stream.closed && taken == 0
  else 0 < taken && taken ≤ length && taken ≤ stream.unread.length

def atEnd (stream : Stream) : Bool := stream.closed && stream.unread.isEmpty

end Stream

/-- The branch of `use_tunnel` on `count`, with the bytes that the loop then takes from `buffer`. -/
def branch (count : Int) (read : Bytes) : Option Bytes :=
  if count < 0 then none
  else if count = 0 then some []
  else some (read.take count.toNat)

namespace Session

def setStream (session : Session) (sock : Socket) (stream : Stream) : Session :=
  { session with streams := fun s => if s = sock then stream else session.streams s }

def recv (session : Session) (sock : Socket) (taken : Option Nat) : Option Session :=
  let stream := session.streams sock
  match taken with
  | none =>
    (session.process.useTunnel (.recv sock none)).map fun process => { session with
      process := process
      received := session.received ++ [⟨session.bufferSize, none, -1, stream.atEnd⟩] }
  | some n =>
    if stream.mayRead session.bufferSize n then
      let read := stream.unread.take n
      let count := toInt n
      (session.process.useTunnel (.recv sock (branch count read))).map fun process =>
        { session.setStream sock { stream with unread := stream.unread.drop n } with
          process := process
          received :=
            session.received ++ [⟨session.bufferSize, some read, count, stream.atEnd⟩] }
    else none

def step (session : Session) : Event → Option Session
  | .recv sock taken => session.recv sock taken
  | .other (.recv _ _) => none
  | .other a => (session.process.useTunnel a).map fun process => { session with process := process }
  | .arrive sock data =>
    let stream := session.streams sock
    if stream.closed then none
    else some (session.setStream sock { stream with unread := stream.unread ++ data })
  | .peerClose sock =>
    some (session.setStream sock { session.streams sock with closed := true })
  | .push sock item => some { session with process := { session.process with
      queues := session.process.queues.push sock item } }

end Session

def machine : EventMachine Session Event := ⟨Session.step⟩

/-- A session of `use_tunnel` under the options that the calls of `set_option` left. -/
def start (config : Config) (memory : Memory) : Session where
  process := { memory with pc := .select }
  bufferSize := config.options.bufferSize

/-- The length lies between 1 and the largest `int`, `count` is the number of bytes read, and it is
0 only at the end of the stream. -/
structure Received.True (r : Received) : Prop where
  length : 1 ≤ r.length ∧ r.length ≤ intMax
  count : ∀ read, r.read = some read → r.count = read.length
  atEnd : r.count = 0 → r.atEnd = true

def TrueCounts (session : Session) : Prop := ∀ r ∈ session.received, r.True

/-! ## One step -/

theorem toInt_eq {n : Nat} (h : n ≤ intMax) : toInt n = n := by
  rw [toInt, uintValues, Int.bmod_eq_of_le]
  · omega
  · rw [intMax] at h
    omega

/-- With a length in range, what POSIX allows is told truly. -/
theorem received_true {stream : Stream} {length n : Nat} (hLength : 1 ≤ length ∧ length ≤ intMax)
    (hRead : stream.mayRead length n = true) :
    Received.True ⟨length, some (stream.unread.take n), toInt n, stream.atEnd⟩ := by
  rw [Stream.mayRead, if_neg (by omega)] at hRead
  by_cases hEmpty : stream.unread = []
  · rw [if_pos hEmpty, Bool.and_eq_true, beq_iff_eq] at hRead
    obtain ⟨hClosed, rfl⟩ := hRead
    refine ⟨hLength, ?_, fun _ => by simp [Stream.atEnd, hClosed, hEmpty]⟩
    rintro read hRead
    obtain rfl := Option.some.inj hRead
    rfl
  · simp only [if_neg hEmpty, Bool.and_eq_true, decide_eq_true_eq] at hRead
    obtain ⟨⟨hPositive, hFits⟩, hThere⟩ := hRead
    have hCount : toInt n = n := toInt_eq (hFits.trans hLength.2)
    refine ⟨hLength, ?_, fun hZero => ?_⟩
    · rintro read hRead
      obtain rfl := Option.some.inj hRead
      rw [hCount, List.length_take, Nat.min_eq_left hThere]
    · dsimp only at hZero
      omega

theorem recv_received {session session' : Session} {sock : Socket} {taken : Option Nat}
    (hStep : session.recv sock taken = some session') :
    session'.bufferSize = session.bufferSize ∧
      ∃ r, session'.received = session.received ++ [r] ∧
        (1 ≤ session.bufferSize ∧ session.bufferSize ≤ intMax → r.True) := by
  unfold Session.recv at hStep
  dsimp only at hStep
  split at hStep
  case h_1 =>
    obtain ⟨process, -, rfl⟩ := Option.map_eq_some_iff.mp hStep
    refine ⟨rfl, _, rfl, fun hLength => ⟨hLength, ?_, ?_⟩⟩
    · intro read hRead
      cases hRead
    · intro hZero
      cases hZero
  case h_2 n =>
    simp only [Option.ite_none_right_eq_some, Option.map_eq_some_iff] at hStep
    obtain ⟨hRead, process, -, rfl⟩ := hStep
    exact ⟨rfl, _, rfl, fun hLength => received_true hLength hRead⟩

theorem step_other {session session' : Session} {e : Event}
    (hStep : machine.step session e = some session') (hRecv : ∀ sock taken, e ≠ .recv sock taken) :
    session'.bufferSize = session.bufferSize ∧ session'.received = session.received := by
  change session.step e = some session' at hStep
  unfold Session.step at hStep
  split at hStep
  case h_1 => exact absurd rfl (hRecv _ _)
  case h_2 => cases hStep
  case h_3 =>
    obtain ⟨process, -, rfl⟩ := Option.map_eq_some_iff.mp hStep
    exact ⟨rfl, rfl⟩
  case h_4 =>
    simp only [Option.ite_none_left_eq_some, Option.some.injEq] at hStep
    obtain ⟨-, rfl⟩ := hStep
    exact ⟨rfl, rfl⟩
  all_goals
    obtain rfl := Option.some.inj hStep
    exact ⟨rfl, rfl⟩

/-! ## Every session -/

/-- What the calls of `set_option` leave in `options` and `settings`. -/
def configure (calls : List (OptionChar × Bytes)) : Config :=
  calls.foldl (fun config call => setOption config call.1 call.2) {}

theorem bufferSize_setOption (config : Config) (option : OptionChar) (optarg : Bytes) :
    (setOption config option optarg).options.bufferSize =
      if option = .tunnel .bufferSize then toUnsigned (atoi optarg) else optionsBufferSize := by
  cases option with
  | tunnel option => cases option <;> rfl
  | _ => rfl

theorem toUnsigned_atoi_inRange (optarg : Bytes) :
    1 ≤ toUnsigned (atoi optarg) ∧ toUnsigned (atoi optarg) ≤ intMax ↔ 0 < atoi optarg := by
  have hLow := Int.le_bmod (x := strtol optarg) (m := uintValues) (by decide)
  have hHigh := Int.bmod_lt (x := strtol optarg) (m := uintValues) (by decide)
  simp only [toUnsigned, intMax, atoi, uintValues] at hLow hHigh ⊢
  omega

theorem configure_inRange (calls : List (OptionChar × Bytes)) :
    1 ≤ (configure calls).options.bufferSize ∧ (configure calls).options.bufferSize ≤ intMax ↔
      calls ≠ [] ∧ ∀ optarg, calls.getLast? = some (.tunnel .bufferSize, optarg) →
        0 < atoi optarg := by
  cases calls using List.reverseRecOn with
  | nil => exact iff_of_false (by decide) fun h => h.1 rfl
  | append_singleton calls call =>
    obtain ⟨option, optarg⟩ := call
    rw [configure, List.foldl_append, List.foldl_cons, List.foldl_nil, bufferSize_setOption,
      List.getLast?_concat]
    split_ifs with hOption
    · obtain rfl : option = .tunnel .bufferSize := hOption
      rw [toUnsigned_atoi_inRange]
      simp
    · exact iff_of_true (by decide) ⟨by simp, fun optarg' hLast =>
        absurd (Prod.mk.inj (Option.some.inj hLast)).1 hOption⟩

/-- Every session tells the truth exactly when the last call left a positive `int`. -/
theorem trueCounts_iff (calls : List (OptionChar × Bytes)) :
    (∀ memory es, machine.Throughout TrueCounts (start (configure calls) memory) es) ↔
      calls ≠ [] ∧ ∀ optarg, calls.getLast? = some (.tunnel .bufferSize, optarg) →
        0 < atoi optarg := by
  rw [← configure_inRange]
  constructor
  · intro hAll
    -- a recv that fails shows the length
    have hRun : machine.run (start (configure calls) ⟨none, {}, .empty⟩)
        [.other (.select (some ⟨true, false⟩)), .recv .client none] = some
          { process := { server := none, queues := {}, endpoint := .empty, pc := .close .client 1 }
            bufferSize := (configure calls).options.bufferSize
            received := [⟨(configure calls).options.bufferSize, none, -1, false⟩] } := rfl
    exact ((hAll _ _).last _ hRun _ List.mem_cons_self).length
  · intro hRange memory es
    apply machine.throughout_of_invariant
      (I := fun session => session.bufferSize = (configure calls).options.bufferSize ∧
        TrueCounts session) _ (fun _ hs => hs.2) ⟨rfl, fun r hr => absurd hr List.not_mem_nil⟩
    rintro session e session' ⟨hSize, hTrue⟩ hStep
    cases e with
    | recv sock taken =>
      obtain ⟨hSame, r, hReceived, hNew⟩ := recv_received hStep
      refine ⟨hSame.trans hSize, fun r' hr' => ?_⟩
      rw [hReceived] at hr'
      rcases List.mem_append.mp hr' with hOld | hLast
      · exact hTrue r' hOld
      · obtain rfl := List.mem_singleton.mp hLast
        exact hNew (hSize ▸ hRange)
    | _ =>
      obtain ⟨hSame, hReceived⟩ := step_other hStep (by simp)
      exact ⟨hSame.trans hSize, fun r hr => hTrue r (hReceived ▸ hr)⟩

/-- With the buffer size "0" the session ends at the first byte of the client, which stays
unread. -/
theorem zero_size_ends_session :
    ¬ ∀ memory es, machine.Throughout TrueCounts
      (start (configure [(.tunnel .bufferSize, bytes "0")]) memory) es := by
  intro hAll
  have hRun : ((machine.run (start (configure [(.tunnel .bufferSize, bytes "0")])
      ⟨none, {}, .empty⟩) [.arrive .client (bytes "x"), .other (.select (some ⟨true, false⟩)),
        .recv .client (some 0)]).map fun session =>
          (session.process.pc, (session.streams .client).unread,
            session.received.map fun r => (r.length, r.count, r.atEnd))) =
      some (.close .client 0, bytes "x", [(0, 0, false)]) := by
    decide +kernel
  obtain ⟨session, hEnd, hSession⟩ := Option.map_eq_some_iff.mp hRun
  obtain ⟨-, -, hReceived⟩ : _ ∧ _ ∧ _ := by simpa only [Prod.mk.injEq] using hSession
  obtain ⟨r, rest, hFirst, hr, -⟩ := List.map_eq_cons_iff.mp hReceived
  simp only [Prod.mk.injEq] at hr
  have hTrue := (hAll _ _).last _ hEnd r (hFirst ▸ List.mem_cons_self)
  have hAtEnd := hTrue.atEnd hr.2.1
  rw [hr.2.2] at hAtEnd
  cases hAtEnd

end ScRedirection.TcpTunnel.BufferSize
