import Noticeboard.ListIndex
import Noticeboard.Retry

/-!
# Configuration

An engine is configured by a record with a default for every field, which a file may set and which
variables of the environment override. `EngineConfig.applyEnv` applies the variables in a fixed
order and stops at the first that does not hold a number, keeping what was applied before it.
`EngineConfig.check` accepts the result or names the first rule that it breaks.
-/

namespace Noticeboard

/-- Logging and metrics. -/
structure TelemetryConfig where
  serviceName : String := "threadloom"
  logLevel : String := "info"
  consoleOutput : Bool := true
  jsonLogs : Bool := false
  metricsEnabled : Bool := true
deriving DecidableEq

/-- How an engine and the runtime around it are set up. -/
structure EngineConfig where
  retry : RetryConfig := {}
  validation : Limits := {}
  lists : ListLimits := {}
  telemetry : TelemetryConfig := {}
  /-- The events kept for each subscriber of the bus. -/
  busCapacity : UInt64 := 1000
  /-- The file that holds the snapshot; without one everything stays in memory. -/
  snapshotPath : Option String := none
  /-- The seconds between two passes of the scheduler. -/
  sweepInterval : UInt64 := 60
  /-- The most messages asked for in one pass. -/
  fetchBatch : UInt64 := 64
deriving DecidableEq

/-- Why a configuration cannot be used. -/
inductive ConfigError where
  /-- The file cannot be read. -/
  | unreadable
  /-- The file does not hold a configuration. -/
  | unparsable
  | badVariable (name value : String)
  | retryDelays (config : RetryConfig)
  | busCapacity
  | sweepInterval
  | maxBoards
deriving DecidableEq

/-- The text shown to the user, for the errors that have one of their own. -/
def ConfigError.message : ConfigError → String
  | unreadable => "failed to read config file"
  | unparsable => "failed to parse config"
  | badVariable name value => "invalid environment variable " ++ name ++ "=" ++ value
  | retryDelays c =>
    "invalid configuration: retry delays must satisfy 0 < min (" ++ toString c.minDelay.toNat ++
      ") <= max (" ++ toString c.maxDelay.toNat ++ ") <= ttl (" ++ toString c.markerTtl.toNat ++ ")"
  | busCapacity => "invalid configuration: bus_capacity must be positive"
  | sweepInterval => "invalid configuration: sweep_interval_secs must be positive"
  | maxBoards => "invalid configuration: validation.max_boards must be positive"

/-- The value of a variable of the environment, if it is set. -/
abbrev Environment := String → Option String

/-! ## Values of variables -/

/-- The characters with the property White_Space. -/
def isBlank (c : Char) : Bool :=
  (0x9 ≤ c.toNat && c.toNat ≤ 0xd) || c == ' ' || c == '\u0085' || c == '\u00a0' ||
    c == '\u1680' || (0x2000 ≤ c.toNat && c.toNat ≤ 0x200a) || c == '\u2028' || c == '\u2029' ||
    c == '\u202f' || c == '\u205f' || c == '\u3000'

/-- A text without the blanks at its ends. -/
def trimBlanks (cs : List Char) : List Char :=
  ((cs.dropWhile isBlank).reverse.dropWhile isBlank).reverse

/-- The number that a row of at least one decimal digit stands for. -/
def decimal? (cs : List Char) : Option Nat :=
  if cs.isEmpty then none
  else cs.foldlM (fun n c => if c.isDigit then some (10 * n + (c.toNat - 48)) else none) 0

/-- A whole number that fits a word, between blanks and with an optional plus sign. -/
def word? (text : String) : Option UInt64 :=
  let digits := match trimBlanks text.toList with
    | '+' :: rest => rest
    | cs => cs
  (decimal? digits).bind fun n => if n < UInt64.size then some (UInt64.ofNat n) else none

/-- Whether a variable is switched on: `true`, `1` or `yes` in letters of either case. -/
def isSwitchedOn (text : String) : Bool :=
  let cs := text.toList.map Char.toLower
  cs == ['t', 'r', 'u', 'e'] || cs == ['1'] || cs == ['y', 'e', 's']

namespace TelemetryConfig

/-- Reads the variables of the environment. Logs are structured by default in a container. -/
def ofEnv (env : Environment) : TelemetryConfig :=
  let inContainer := (env "KUBERNETES_SERVICE_HOST").isSome || (env "DOCKER_CONTAINER").isSome
  { serviceName := (env "TL_SERVICE_NAME").getD "threadloom"
    logLevel := ((env "TL_LOG_LEVEL").or (env "RUST_LOG")).getD "info"
    consoleOutput := ((env "TL_CONSOLE_OUTPUT").map isSwitchedOn).getD true
    jsonLogs := ((env "TL_JSON_LOGS").map isSwitchedOn).getD inContainer
    metricsEnabled := ((env "TL_METRICS").map isSwitchedOn).getD true }

end TelemetryConfig

namespace EngineConfig

/-- A variable that overrides a number of the configuration. -/
structure Override where
  name : String
  set : UInt64 → EngineConfig → EngineConfig

/-- The variables that hold numbers, in the order in which they are applied. -/
def overrides : List Override := [
  ⟨"TL_MIN_RETRY_DELAY", fun n c => { c with retry := { c.retry with minDelay := n } }⟩,
  ⟨"TL_MAX_RETRY_DELAY", fun n c => { c with retry := { c.retry with maxDelay := n } }⟩,
  ⟨"TL_MARKER_TTL", fun n c => { c with retry := { c.retry with markerTtl := n } }⟩,
  ⟨"TL_BUS_CAPACITY", fun n c => { c with busCapacity := n }⟩,
  ⟨"TL_SWEEP_INTERVAL", fun n c => { c with sweepInterval := n }⟩,
  ⟨"TL_FETCH_BATCH", fun n c => { c with fetchBatch := n }⟩]

/-- The variable that names the snapshot file; an empty value means none. -/
def applyPath (env : Environment) (c : EngineConfig) : EngineConfig :=
  match env "TL_SNAPSHOT_PATH" with
  | none => c
  | some path => { c with snapshotPath := if path.isEmpty then none else some path }

/-- Applies overrides one after another, and the path after the last. Gives what was applied, and
the error that stopped it. -/
def applyOverrides (env : Environment) : List Override → EngineConfig →
    EngineConfig × Except ConfigError Unit
  | [], c => (c.applyPath env, .ok ())
  | o :: rest, c =>
    match env o.name with
    | none => applyOverrides env rest c
    | some value =>
      match word? value with
      | some n => applyOverrides env rest (o.set n c)
      | none => (c, .error (.badVariable o.name value))

/-- Applies all variables of the environment. -/
def applyEnv (c : EngineConfig) (env : Environment) : EngineConfig × Except ConfigError Unit :=
  applyOverrides env overrides c

/-- Checks the rules in order. -/
def check (c : EngineConfig) : Except ConfigError Unit :=
  if !c.retry.isValid then .error (.retryDelays c.retry)
  else if c.busCapacity = 0 then .error .busCapacity
  else if c.sweepInterval = 0 then .error .sweepInterval
  else if c.validation.maxBoards = 0 then .error .maxBoards
  else .ok ()

/-- A configuration with the environment applied, if the result keeps the rules. -/
def overriddenBy (c : EngineConfig) (env : Environment) : Except ConfigError EngineConfig :=
  match c.applyEnv env with
  | (_, .error e) => .error e
  | (c, .ok ()) => c.check.map fun () => c

/-- The defaults with the environment applied; telemetry comes from the environment too. -/
def ofEnv (env : Environment) : Except ConfigError EngineConfig :=
  { telemetry := TelemetryConfig.ofEnv env : EngineConfig }.overriddenBy env

end EngineConfig

end Noticeboard
