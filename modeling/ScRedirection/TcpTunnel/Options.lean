import Mathlib.Data.List.Induction
import ScRedirection.Basic

/-! # tcptunnel.cpp: set_option and set_options

The two ways to fill `options` and `settings`, in the build for Linux: the calls of `set_option`
that the server makes, and the `getopt_long` loop of the standalone program. Each has its own
table.
-/

namespace ScRedirection.TcpTunnel.Options

/-! ## atoi -/

def isspace (c : UInt8) : Bool := c == 32 || 9 ≤ c && c ≤ 13

def isdigit (c : UInt8) : Bool := 48 ≤ c && c ≤ 57

def magnitude (digits : Bytes) : Int :=
  digits.foldl (fun n c => 10 * n + (c.toNat - 48 : Int)) 0

def longMin : Int := -9223372036854775808

def longMax : Int := 9223372036854775807

/-- The values of an `unsigned int`. -/
def uintValues : Nat := 4294967296

/-- `strtol(nptr, NULL, 10)` with a `long` of 64 bits: out of range it returns the bound. -/
def strtol (nptr : Bytes) : Int :=
  let value := match nptr.dropWhile isspace with
    | 45 :: s => -magnitude (s.takeWhile isdigit)
    | 43 :: s => magnitude (s.takeWhile isdigit)
    | s => magnitude (s.takeWhile isdigit)
  max longMin (min value longMax)

/-- `(int) strtol(nptr, NULL, 10)`. -/
def atoi (nptr : Bytes) : Int := (strtol nptr).bmod uintValues

/-- An `int` assigned to an `unsigned int`. -/
def toUnsigned (i : Int) : Nat := (i % uintValues).toNat

/-! ## The structures -/

structure StructOptions where
  localPort : Option Bytes := none
  remoteHost : Option Bytes := none
  remotePort : Option Bytes := none
  bindAddress : Option Bytes := none
  clientAddress : Option Bytes := none
  bufferSize : Nat := 0
  deriving DecidableEq, Repr

structure StructSettings where
  localPort : Bool := false
  remoteHost : Bool := false
  remotePort : Bool := false
  bindAddress : Bool := false
  clientAddress : Bool := false
  bufferSize : Bool := false
  fork : Bool := false
  log : Bool := false
  stayAlive : Bool := false
  deriving DecidableEq, Repr

/-- The two globals, zero when the program starts. -/
structure Config where
  options : StructOptions := {}
  settings : StructSettings := {}
  deriving DecidableEq, Repr

inductive TunnelOption
  | localPort
  | remotePort
  | remoteHost
  | bindAddress
  | bufferSize
  | clientAddress
  | fork
  | log
  | stayAlive
  deriving DecidableEq, Repr

/-- The character a `switch` is on: one of the options that both tables have, the two that only
`getopt_long` can return, or any other, '?' among them. -/
inductive OptionChar
  | tunnel (option : TunnelOption)
  | help
  | version
  | other (c : UInt8)
  deriving DecidableEq, Repr

def Config.setBufferSize (config : Config) (size : Nat) : Config :=
  { config with options := { config.options with bufferSize := size } }

def optionsBufferSize : Nat := 4096

def setOption (config : Config) (option : OptionChar) (optarg : Bytes) : Config :=
  let config := config.setBufferSize optionsBufferSize
  let { options, settings } := config
  match option with
  | .tunnel .localPort =>
    ⟨{ options with localPort := some optarg }, { settings with localPort := true }⟩
  | .tunnel .remotePort =>
    ⟨{ options with remotePort := some optarg }, { settings with remotePort := true }⟩
  | .tunnel .remoteHost =>
    ⟨{ options with remoteHost := some optarg }, { settings with remoteHost := true }⟩
  | .tunnel .bindAddress =>
    ⟨{ options with bindAddress := some optarg }, { settings with bindAddress := true }⟩
  | .tunnel .bufferSize =>
    ⟨{ options with bufferSize := toUnsigned (atoi optarg) }, { settings with bufferSize := true }⟩
  | .tunnel .clientAddress =>
    ⟨{ options with clientAddress := some optarg }, { settings with clientAddress := true }⟩
  | .tunnel .fork => ⟨options, { settings with fork := true, stayAlive := true }⟩
  | .tunnel .log => ⟨options, { settings with log := true }⟩
  | .tunnel .stayAlive => ⟨options, { settings with stayAlive := true }⟩
  | _ => config

inductive Exit
  | help
  | version
  | helpInfo
  | missing (message : String)
  deriving DecidableEq, Repr

/-- One turn of the `getopt_long` loop; `exit` ends the program. -/
def getoptTurn (config : Config) (opt : OptionChar) (optarg : Bytes) : Except Exit Config :=
  let { options, settings } := config
  match opt with
  | .tunnel .localPort =>
    .ok ⟨{ options with localPort := some optarg }, { settings with localPort := true }⟩
  | .tunnel .remotePort =>
    .ok ⟨{ options with remotePort := some optarg }, { settings with remotePort := true }⟩
  | .tunnel .remoteHost =>
    .ok ⟨{ options with remoteHost := some optarg }, { settings with remoteHost := true }⟩
  | .tunnel .bindAddress =>
    .ok ⟨{ options with bindAddress := some optarg }, { settings with bindAddress := true }⟩
  | .tunnel .bufferSize =>
    .ok ⟨{ options with bufferSize := toUnsigned (atoi optarg) },
      { settings with bufferSize := true }⟩
  | .tunnel .clientAddress =>
    .ok ⟨{ options with clientAddress := some optarg }, { settings with clientAddress := true }⟩
  | .tunnel .fork => .ok ⟨options, { settings with fork := true, stayAlive := true }⟩
  | .tunnel .log => .ok ⟨options, { settings with log := true }⟩
  | .tunnel .stayAlive => .ok ⟨options, { settings with stayAlive := true }⟩
  | .help => .error .help
  | .version => .error .version
  | .other c => if c = 63 then .error .helpInfo else .ok config

def getoptLoop (config : Config) (args : List (OptionChar × Bytes)) : Except Exit Config :=
  args.foldlM (fun config arg => getoptTurn config arg.1 arg.2) config

/-- `set_options` on what `getopt_long` makes of the command line. -/
def setOptions (args : List (OptionChar × Bytes)) : Except Exit Config := do
  let config ← getoptLoop (Config.setBufferSize {} optionsBufferSize) args
  if config.settings.localPort = false then
    throw (.missing "missing '--local-port=' option.")
  if config.settings.remotePort = false then
    throw (.missing "missing '--remote-port=' option.")
  if config.settings.remoteHost = false then
    throw (.missing "missing '--remote-host=' option.")
  return config

/-! ## What a case does -/

/-- The fields of an option after its case, which both tables have. -/
def Config.give (config : Config) (option : TunnelOption) (optarg : Bytes) : Config :=
  match getoptTurn config (.tunnel option) optarg with
  | .ok config => config
  | .error _ => config

theorem getoptTurn_tunnel (config : Config) (option : TunnelOption) (optarg : Bytes) :
    getoptTurn config (.tunnel option) optarg = .ok (config.give option optarg) := by
  cases option <;> rfl

theorem setOption_tunnel (config : Config) (option : TunnelOption) (optarg : Bytes) :
    setOption config (.tunnel option) optarg =
      (config.setBufferSize optionsBufferSize).give option optarg := by
  cases option <;> rfl

namespace Config

variable {config config' : Config} {option option' : TunnelOption} {optarg optarg' : Bytes}
  {m n : Nat}

@[simp] theorem bufferSize_setBufferSize : (config.setBufferSize n).options.bufferSize = n := rfl

@[simp] theorem settings_setBufferSize : (config.setBufferSize n).settings = config.settings := rfl

@[simp] theorem setBufferSize_setBufferSize :
    (config.setBufferSize m).setBufferSize n = config.setBufferSize n := rfl

theorem eq_of_setBufferSize (h : config.setBufferSize n = config'.setBufferSize n)
    (hSize : config.options.bufferSize = config'.options.bufferSize) : config = config' := by
  obtain ⟨⟨a, b, c, d, e, size⟩, settings⟩ := config
  obtain ⟨⟨a', b', c', d', e', size'⟩, settings'⟩ := config'
  simp only [setBufferSize, mk.injEq, StructOptions.mk.injEq, and_true] at h hSize ⊢
  exact ⟨⟨h.1.1, h.1.2.1, h.1.2.2.1, h.1.2.2.2.1, h.1.2.2.2.2, hSize⟩, h.2⟩

theorem give_setBufferSize (h : option ≠ .bufferSize) :
    (config.setBufferSize n).give option optarg = (config.give option optarg).setBufferSize n := by
  cases option with
  | bufferSize => exact absurd rfl h
  | _ => rfl

theorem give_bufferSize :
    (config.setBufferSize n).give .bufferSize optarg = config.give .bufferSize optarg := rfl

theorem bufferSize_give (config : Config) (option : TunnelOption) (optarg : Bytes) :
    (config.give option optarg).options.bufferSize =
      if option = .bufferSize then toUnsigned (atoi optarg) else config.options.bufferSize := by
  cases option <;> rfl

theorem give_comm (h : option ≠ option') :
    (config.give option optarg).give option' optarg' =
      (config.give option' optarg').give option optarg := by
  cases option <;> cases option' <;> first | rfl | exact absurd rfl h

/-- With the buffer size left out, the order of `set_option`'s reset and the case is no matter. -/
theorem setBufferSize_give :
    ((config.setBufferSize m).give option optarg).setBufferSize n =
      (config.give option optarg).setBufferSize n := by
  cases option with
  | bufferSize => rw [give_bufferSize]
  | _ => rw [give_setBufferSize (by simp), setBufferSize_setBufferSize]

end Config

/-! ## Sequences of options -/

def setAll (config : Config) (pairs : List (TunnelOption × Bytes)) : Config :=
  pairs.foldl (fun config pair => setOption config (.tunnel pair.1) pair.2) config

def giveAll (config : Config) (pairs : List (TunnelOption × Bytes)) : Config :=
  pairs.foldl (fun config pair => config.give pair.1 pair.2) config

/-- The pairs as `getopt_long` returns them. -/
def commandLine (pairs : List (TunnelOption × Bytes)) : List (OptionChar × Bytes) :=
  pairs.map fun pair => (.tunnel pair.1, pair.2)

theorem getoptLoop_commandLine (config : Config) (pairs : List (TunnelOption × Bytes)) :
    getoptLoop config (commandLine pairs) = .ok (giveAll config pairs) := by
  induction pairs generalizing config with
  | nil => rfl
  | cons pair pairs ih =>
    rw [getoptLoop, commandLine, List.map_cons, List.foldlM_cons, getoptTurn_tunnel]
    exact ih _

theorem setAll_concat (config : Config) (pairs : List (TunnelOption × Bytes))
    (pair : TunnelOption × Bytes) :
    setAll config (pairs ++ [pair]) =
      ((setAll config pairs).setBufferSize optionsBufferSize).give pair.1 pair.2 := by
  rw [setAll, List.foldl_append, List.foldl_cons, List.foldl_nil, setOption_tunnel, setAll]

theorem giveAll_concat (config : Config) (pairs : List (TunnelOption × Bytes))
    (pair : TunnelOption × Bytes) :
    giveAll config (pairs ++ [pair]) = (giveAll config pairs).give pair.1 pair.2 := by
  rw [giveAll, List.foldl_append, List.foldl_cons, List.foldl_nil, giveAll]

/-- The two paths can only differ in the buffer size. -/
theorem setBufferSize_setAll {config config' : Config} {n : Nat}
    (h : config.setBufferSize n = config'.setBufferSize n) (pairs : List (TunnelOption × Bytes)) :
    (setAll config pairs).setBufferSize n = (giveAll config' pairs).setBufferSize n := by
  induction pairs using List.reverseRecOn with
  | nil => exact h
  | append_singleton pairs pair ih =>
    rw [setAll_concat, giveAll_concat, Config.setBufferSize_give, ← Config.setBufferSize_give, ih,
      Config.setBufferSize_give]

/-- The value of the last buffer size given. -/
def lastBufferSize (pairs : List (TunnelOption × Bytes)) : Option Bytes :=
  (pairs.filterMap fun pair => if pair.1 = .bufferSize then some pair.2 else none).getLast?

theorem lastBufferSize_concat (pairs : List (TunnelOption × Bytes)) (option : TunnelOption)
    (optarg : Bytes) :
    lastBufferSize (pairs ++ [(option, optarg)]) =
      if option = .bufferSize then some optarg else lastBufferSize pairs := by
  rw [lastBufferSize, List.filterMap_append]
  split_ifs with hOption
  · simp [hOption]
  · simp [hOption, lastBufferSize]

theorem bufferSize_giveAll (config : Config) (pairs : List (TunnelOption × Bytes)) :
    (giveAll config pairs).options.bufferSize =
      match lastBufferSize pairs with
      | some optarg => toUnsigned (atoi optarg)
      | none => config.options.bufferSize := by
  induction pairs using List.reverseRecOn with
  | nil => rfl
  | append_singleton pairs pair ih =>
    obtain ⟨option, optarg⟩ := pair
    rw [giveAll_concat, Config.bufferSize_give, lastBufferSize_concat]
    split_ifs
    · rfl
    · exact ih

theorem bufferSize_setAll_concat (config : Config) (pairs : List (TunnelOption × Bytes))
    (option : TunnelOption) (optarg : Bytes) :
    (setAll config (pairs ++ [(option, optarg)])).options.bufferSize =
      if option = .bufferSize then toUnsigned (atoi optarg) else optionsBufferSize := by
  rw [setAll_concat, Config.bufferSize_give]
  rfl

/-! ## The fields of an option -/

/-- What is kept for an option: its text or its number, and its flag. -/
def Config.fields (config : Config) : TunnelOption → Option Bytes × Nat × Bool
  | .localPort => (config.options.localPort, 0, config.settings.localPort)
  | .remotePort => (config.options.remotePort, 0, config.settings.remotePort)
  | .remoteHost => (config.options.remoteHost, 0, config.settings.remoteHost)
  | .bindAddress => (config.options.bindAddress, 0, config.settings.bindAddress)
  | .bufferSize => (none, config.options.bufferSize, config.settings.bufferSize)
  | .clientAddress => (config.options.clientAddress, 0, config.settings.clientAddress)
  | .fork => (none, 0, config.settings.fork)
  | .log => (none, 0, config.settings.log)
  | .stayAlive => (none, 0, config.settings.stayAlive)

/-- An option sets its own fields, and `fork` also those of `stay_alive`. -/
def TunnelOption.Sets (option field : TunnelOption) : Prop :=
  field = option ∨ option = .fork ∧ field = .stayAlive

section Fields

variable {config : Config} {option field : TunnelOption} {optarg : Bytes} {n : Nat}

theorem Config.fields_setBufferSize (h : field ≠ .bufferSize) :
    (config.setBufferSize n).fields field = config.fields field := by
  cases field with
  | bufferSize => exact absurd rfl h
  | _ => rfl

theorem Config.fields_give (h : ¬ option.Sets field) :
    (config.give option optarg).fields field = config.fields field := by
  cases option <;> cases field <;>
    first | rfl | exact absurd (.inl rfl) h | exact absurd (.inr ⟨rfl, rfl⟩) h

theorem fields_setOption_iff (h : ¬ option.Sets field) :
    (setOption config (.tunnel option) optarg).fields field = config.fields field ↔
      field ≠ .bufferSize ∨ config.options.bufferSize = optionsBufferSize := by
  rw [setOption_tunnel, Config.fields_give h]
  cases field with
  | bufferSize => simp [Config.fields, Config.setBufferSize, eq_comm]
  | _ =>
    rw [Config.fields_setBufferSize (by simp)]
    exact iff_of_true rfl (.inl (by simp))

/-- A later option leaves the fields of this one as this one set them, `fork` included. -/
theorem Config.fields_giveAll {pairs : List (TunnelOption × Bytes)}
    (hOthers : ∀ pair ∈ pairs, pair.1 ≠ option) :
    (giveAll (config.give option optarg) pairs).fields option =
      (config.give option optarg).fields option := by
  induction pairs using List.reverseRecOn with
  | nil => rfl
  | append_singleton pairs pair ih =>
    rw [giveAll_concat]
    by_cases hSets : pair.1.Sets option
    · rcases hSets with hSame | ⟨hFork, rfl⟩
      · exact absurd hSame.symm (hOthers pair (by simp))
      · rw [hFork]
        rfl
    · rw [Config.fields_give hSets]
      exact ih fun pair' hPair' => hOthers pair' (List.mem_append_left _ hPair')

theorem setAll_eq (config : Config) (pairs : List (TunnelOption × Bytes)) :
    setAll config pairs =
      (giveAll config pairs).setBufferSize (setAll config pairs).options.bufferSize :=
  setBufferSize_setAll (n := (setAll config pairs).options.bufferSize) rfl pairs

theorem lastValue_iff {pairs : List (TunnelOption × Bytes)}
    (hOthers : ∀ pair ∈ pairs, pair.1 ≠ option) :
    (setAll (setOption config (.tunnel option) optarg) pairs).fields option =
        (setOption config (.tunnel option) optarg).fields option ↔
      option ≠ .bufferSize ∨ pairs = [] ∨ toUnsigned (atoi optarg) = optionsBufferSize := by
  have hGive : (giveAll ((config.setBufferSize optionsBufferSize).give option optarg) pairs).fields
      option = ((config.setBufferSize optionsBufferSize).give option optarg).fields option :=
    Config.fields_giveAll hOthers
  rw [setAll_eq, setOption_tunnel]
  by_cases hOption : option = .bufferSize
  · subst hOption
    have hFlag : (giveAll ((config.setBufferSize optionsBufferSize).give .bufferSize optarg)
        pairs).settings.bufferSize = true :=
      congrArg (·.2.2) hGive
    have hFields : ∀ n, (none, n, true) = (((config.setBufferSize optionsBufferSize).give
        .bufferSize optarg).fields .bufferSize) ↔ n = toUnsigned (atoi optarg) := by
      intro n
      simp [Config.fields, Config.give, getoptTurn]
    rw [Config.fields, Config.bufferSize_setBufferSize, Config.settings_setBufferSize, hFlag,
      hFields]
    cases pairs using List.reverseRecOn with
    | nil => simp [setAll, Config.bufferSize_give]
    | append_singleton pairs pair =>
      have hPair : pair.1 ≠ .bufferSize := hOthers pair (by simp)
      rw [bufferSize_setAll_concat, if_neg hPair, eq_comm]
      constructor
      · exact fun hSize => .inr (.inr hSize)
      · rintro (hOption | hEmpty | hSize)
        · exact absurd rfl hOption
        · simp at hEmpty
        · exact hSize
  · rw [Config.fields_setBufferSize hOption, hGive]
    exact iff_of_true rfl (.inl hOption)

end Fields

/-! ## The two paths -/

theorem eq_iff_bufferSize {config config' : Config} {n : Nat}
    (h : config.setBufferSize n = config'.setBufferSize n) :
    config = config' ↔ config.options.bufferSize = config'.options.bufferSize := by
  refine ⟨?_, Config.eq_of_setBufferSize h⟩
  rintro rfl
  rfl

/-- From the globals as the program finds them, the calls of `set_option` end where the loop of
`set_options` does. -/
def PathsAgree (pairs : List (TunnelOption × Bytes)) : Prop :=
  getoptLoop (Config.setBufferSize {} optionsBufferSize) (commandLine pairs) = .ok (setAll {} pairs)

theorem pathsAgree_iff (pairs : List (TunnelOption × Bytes)) :
    PathsAgree pairs ↔ pairs ≠ [] ∧ ∀ optarg, lastBufferSize pairs = some optarg →
      pairs.getLast? = some (.bufferSize, optarg) ∨
        toUnsigned (atoi optarg) = optionsBufferSize := by
  have hReset : Config.setBufferSize {} 0 =
      (Config.setBufferSize {} optionsBufferSize).setBufferSize 0 := rfl
  have hRest := setBufferSize_setAll hReset pairs
  rw [PathsAgree, getoptLoop_commandLine, Except.ok.injEq, eq_comm, eq_iff_bufferSize hRest,
    bufferSize_giveAll, Config.bufferSize_setBufferSize]
  cases pairs using List.reverseRecOn with
  | nil => exact iff_of_false (by decide) fun h => h.1 rfl
  | append_singleton pairs pair =>
    obtain ⟨option, optarg⟩ := pair
    rw [bufferSize_setAll_concat, lastBufferSize_concat, List.getLast?_concat]
    by_cases hOption : option = .bufferSize
    · simp [hOption]
    · have hNotLast : ∀ last, (option, optarg) ≠ (TunnelOption.bufferSize, last) :=
        fun last hBoth => hOption (Prod.mk.inj hBoth).1
      rw [if_neg hOption, if_neg hOption]
      cases lastBufferSize pairs with
      | none => exact iff_of_true rfl ⟨by simp, fun last hLast => by cases hLast⟩
      | some last =>
        constructor
        · intro hSize
          refine ⟨by simp, fun last' hLast => ?_⟩
          obtain rfl := Option.some.inj hLast
          exact .inr hSize.symm
        · rintro ⟨-, hLast⟩
          rcases hLast last rfl with hEnd | hSize
          · exact absurd (Option.some.inj hEnd) (hNotLast last)
          · exact hSize.symm

theorem commute_iff (config : Config) {option option' : TunnelOption} (h : option ≠ option')
    (optarg optarg' : Bytes) :
    setAll config [(option, optarg), (option', optarg')] =
        setAll config [(option', optarg'), (option, optarg)] ↔
      (option = .bufferSize → toUnsigned (atoi optarg) = optionsBufferSize) ∧
        (option' = .bufferSize → toUnsigned (atoi optarg') = optionsBufferSize) := by
  have hRest : (setAll config [(option, optarg), (option', optarg')]).setBufferSize 0 =
      (setAll config [(option', optarg'), (option, optarg)]).setBufferSize 0 := by
    have hSame : config.setBufferSize 0 = config.setBufferSize 0 := rfl
    rw [setBufferSize_setAll hSame, setBufferSize_setAll hSame]
    exact congrArg (Config.setBufferSize · 0) (Config.give_comm h)
  have hFirst := bufferSize_setAll_concat config [(option, optarg)] option' optarg'
  have hSecond := bufferSize_setAll_concat config [(option', optarg')] option optarg
  rw [List.singleton_append] at hFirst hSecond
  rw [eq_iff_bufferSize hRest, hFirst, hSecond]
  by_cases hOption : option = .bufferSize
  · have hOption' : option' ≠ .bufferSize := fun hBoth => h (hOption.trans hBoth.symm)
    simp [hOption, hOption', eq_comm]
  · by_cases hOption' : option' = .bufferSize
    · simp [hOption, hOption']
    · simp [hOption, hOption']

/-- The reset of the buffer size at the head of `set_option` is the only difference: where it
shows, in the result of a sequence, in the fields one call changes, in the order of two calls and in
the value that stays in force. -/
theorem optionPaths_differ_in_reset (config : Config) (pairs : List (TunnelOption × Bytes))
    (option option' field : TunnelOption) (optarg optarg' : Bytes) :
    (PathsAgree pairs ↔ pairs ≠ [] ∧ ∀ last, lastBufferSize pairs = some last →
      pairs.getLast? = some (.bufferSize, last) ∨ toUnsigned (atoi last) = optionsBufferSize) ∧
    (¬ option.Sets field →
      ((setOption config (.tunnel option) optarg).fields field = config.fields field ↔
        field ≠ .bufferSize ∨ config.options.bufferSize = optionsBufferSize)) ∧
    (option ≠ option' →
      (setAll config [(option, optarg), (option', optarg')] =
          setAll config [(option', optarg'), (option, optarg)] ↔
        (option = .bufferSize → toUnsigned (atoi optarg) = optionsBufferSize) ∧
          (option' = .bufferSize → toUnsigned (atoi optarg') = optionsBufferSize))) ∧
    ((∀ pair ∈ pairs, pair.1 ≠ option) →
      ((setAll (setOption config (.tunnel option) optarg) pairs).fields option =
          (setOption config (.tunnel option) optarg).fields option ↔
        option ≠ .bufferSize ∨ pairs = [] ∨ toUnsigned (atoi optarg) = optionsBufferSize)) :=
  ⟨pathsAgree_iff pairs, fields_setOption_iff, fun h => commute_iff config h optarg optarg',
    lastValue_iff⟩

theorem buffer_size_is_reset :
    ¬ PathsAgree [(.bufferSize, bytes "1024"), (.log, [])] := by
  intro h
  rw [PathsAgree, getoptLoop_commandLine, Except.ok.injEq] at h
  exact absurd h (by decide +kernel)

end ScRedirection.TcpTunnel.Options
