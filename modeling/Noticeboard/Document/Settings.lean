import Noticeboard.Config
import Noticeboard.Document.Value

/-!
# Shapes of configurations

Every field of a configuration may be left out and stands for its default then. A configuration may
also be written as a row of values. In JSON the row may end early; in a configuration file it may be
of any length.
-/

namespace Noticeboard

/-- The retry delays of a configuration. -/
def RetryConfig.ofValue? (arity : Arity) (v : Value) : Option RetryConfig := do
  let d : RetryConfig := {}
  let fs ← v.fields? ["min_delay_secs", "max_delay_secs", "marker_ttl_secs"] arity
  return {
    minDelay := ← fs.getD? "min_delay_secs" d.minDelay
    maxDelay := ← fs.getD? "max_delay_secs" d.maxDelay
    markerTtl := ← fs.getD? "marker_ttl_secs" d.markerTtl }

/-- The limits on messages of a configuration. -/
def Limits.ofValue? (arity : Arity) (v : Value) : Option Limits := do
  let d : Limits := {}
  let fs ← v.fields? ["max_title_chars", "max_body_bytes", "max_boards", "max_attachments"] arity
  return {
    maxTitleChars := ← fs.getD? "max_title_chars" d.maxTitleChars
    maxBodyBytes := ← fs.getD? "max_body_bytes" d.maxBodyBytes
    maxBoards := ← fs.getD? "max_boards" d.maxBoards
    maxAttachments := ← fs.getD? "max_attachments" d.maxAttachments }

/-- The limits on lists of a configuration. -/
def ListLimits.ofValue? (arity : Arity) (v : Value) : Option ListLimits := do
  let d : ListLimits := {}
  let fs ← v.fields? ["max_references_per_list", "edition_gap_window"] arity
  return {
    maxReferences := ← fs.getD? "max_references_per_list" d.maxReferences
    gapWindow := ← fs.getD? "edition_gap_window" d.gapWindow }

/-- The logging and metrics of a configuration. -/
def TelemetryConfig.ofValue? (arity : Arity) (v : Value) : Option TelemetryConfig := do
  let d : TelemetryConfig := {}
  let fs ← v.fields? ["service_name", "log_level", "console_output", "json_logs",
    "metrics_enabled"] arity
  return {
    serviceName := ← fs.getD? "service_name" d.serviceName
    logLevel := ← fs.getD? "log_level" d.logLevel
    consoleOutput := ← fs.getD? "console_output" d.consoleOutput
    jsonLogs := ← fs.getD? "json_logs" d.jsonLogs
    metricsEnabled := ← fs.getD? "metrics_enabled" d.metricsEnabled }

/-- A part of a configuration, the default if it is not given. -/
def Fields.part? {α : Type} (fs : Fields) (name : String) (read : Value → Option α) (d : α) :
    Option α :=
  match fs.lookup name with
  | some v => read v
  | none => some d

/-- A whole configuration. -/
def EngineConfig.ofValue? (arity : Arity) (v : Value) : Option EngineConfig := do
  let d : EngineConfig := {}
  let fs ← v.fields? ["retry", "validation", "lists", "telemetry", "bus_capacity",
    "snapshot_path", "sweep_interval_secs", "fetch_batch"] arity
  return {
    retry := ← fs.part? "retry" (RetryConfig.ofValue? arity) d.retry
    validation := ← fs.part? "validation" (Limits.ofValue? arity) d.validation
    lists := ← fs.part? "lists" (ListLimits.ofValue? arity) d.lists
    telemetry := ← fs.part? "telemetry" (TelemetryConfig.ofValue? arity) d.telemetry
    busCapacity := ← fs.getD? "bus_capacity" d.busCapacity
    snapshotPath := ← fs.getD? "snapshot_path" d.snapshotPath
    sweepInterval := ← fs.getD? "sweep_interval_secs" d.sweepInterval
    fetchBatch := ← fs.getD? "fetch_batch" d.fetchBatch }

/-! ## As written in JSON -/

instance : Shape RetryConfig where
  toValue c := .record [
    ("min_delay_secs", toValue c.minDelay), ("max_delay_secs", toValue c.maxDelay),
    ("marker_ttl_secs", toValue c.markerTtl)]
  ofValue? := RetryConfig.ofValue? .atMost

instance : Shape Limits where
  toValue l := .record [
    ("max_title_chars", toValue l.maxTitleChars), ("max_body_bytes", toValue l.maxBodyBytes),
    ("max_boards", toValue l.maxBoards), ("max_attachments", toValue l.maxAttachments)]
  ofValue? := Limits.ofValue? .atMost

instance : Shape ListLimits where
  toValue l := .record [
    ("max_references_per_list", toValue l.maxReferences),
    ("edition_gap_window", toValue l.gapWindow)]
  ofValue? := ListLimits.ofValue? .atMost

instance : Shape TelemetryConfig where
  toValue t := .record [
    ("service_name", toValue t.serviceName), ("log_level", toValue t.logLevel),
    ("console_output", toValue t.consoleOutput), ("json_logs", toValue t.jsonLogs),
    ("metrics_enabled", toValue t.metricsEnabled)]
  ofValue? := TelemetryConfig.ofValue? .atMost

instance : Shape EngineConfig where
  toValue c := .record [
    ("retry", toValue c.retry), ("validation", toValue c.validation), ("lists", toValue c.lists),
    ("telemetry", toValue c.telemetry), ("bus_capacity", toValue c.busCapacity),
    ("snapshot_path", toValue c.snapshotPath), ("sweep_interval_secs", toValue c.sweepInterval),
    ("fetch_batch", toValue c.fetchBatch)]
  ofValue? := EngineConfig.ofValue? .atMost

end Noticeboard
