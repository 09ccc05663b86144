/-!
# Metrics

The metrics that an engine publishes, each with a line that says what it is and a line that says of
what kind. They are listed by name.
-/

namespace Noticeboard

/-- How the values of a metric are to be read. -/
inductive MetricKind where
  /-- Only goes up. -/
  | counter
  /-- Goes up and down. -/
  | gauge
  /-- Counts samples by size. -/
  | histogram
deriving DecidableEq

/-- The name of the kind. -/
def MetricKind.name : MetricKind → String
  | counter => "counter"
  | gauge => "gauge"
  | histogram => "histogram"

/-- A published metric. -/
structure Metric where
  name : String
  help : String
  kind : MetricKind
deriving DecidableEq

namespace Metric

/-- All metrics by name. -/
def all : List Metric := [
  ⟨"tl_board_boards_tracked", "Number of boards with a graph in memory", .gauge⟩,
  ⟨"tl_board_duplicates_ignored_total", "Re-delivered messages ignored as duplicates", .counter⟩,
  ⟨"tl_board_ghosts_created_total", "Ghost references created for missing parents", .counter⟩,
  ⟨"tl_board_ghosts_resolved_total", "Ghost references filled by an arriving message", .counter⟩,
  ⟨"tl_board_inconsistent_references_total",
    "Messages carrying a parent reference but no thread reference", .counter⟩,
  ⟨"tl_board_ingest_duration_seconds", "Time spent reconciling one message", .histogram⟩,
  ⟨"tl_board_messages_ingested_total",
    "Messages folded into a board graph, counted per target board", .counter⟩,
  ⟨"tl_board_orphans_adopted_total", "Absolute orphans adopted by an arriving thread root",
    .counter⟩,
  ⟨"tl_eventbus_lagged_total", "Times the event router fell behind the bus", .counter⟩,
  ⟨"tl_fetch_failures_total", "Fetch failures by subject and reason", .counter⟩,
  ⟨"tl_fetch_markers_pending", "Number of live fetch-failed markers", .gauge⟩,
  ⟨"tl_identity_deletions_total", "Identity deletion cascades executed", .counter⟩,
  ⟨"tl_validation_rejections_total", "Rejected input by kind", .counter⟩]

/-- The two lines that describe a metric. -/
def description (m : Metric) : List String :=
  ["# HELP " ++ m.name ++ " " ++ m.help, "# TYPE " ++ m.name ++ " " ++ m.kind.name]

/-- The description of all metrics. -/
def descriptions : List String := all.flatMap description

end Metric

end Noticeboard
