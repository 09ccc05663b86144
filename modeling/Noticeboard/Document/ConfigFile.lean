import Noticeboard.Document.Settings
import Noticeboard.Document.Toml

/-!
# Configuration of an engine

A configuration comes from a file and from the environment. The rules are checked after both have
been applied, so that a variable may mend what the file breaks.
-/

namespace Noticeboard

/-- Where the configuration file is. -/
inductive ConfigSource where
  /-- No file was named. -/
  | absent
  /-- The file that was named cannot be read. -/
  | unreadable
  | file (text : String)
deriving DecidableEq

namespace EngineConfig

/-- What a configuration file sets; the rest stands for its default. -/
def ofFile (text : String) : Except ConfigError EngineConfig :=
  match (Toml.parse? text).bind (ofValue? .any) with
  | some c => .ok c
  | none => .error .unparsable

/-- A configuration file alone. -/
def parse (text : String) : Except ConfigError EngineConfig := do
  let c ← ofFile text
  c.check
  return c

/-- A configuration file with the environment applied. -/
def load (source : ConfigSource) (env : Environment) : Except ConfigError EngineConfig :=
  match source with
  | .absent => ({} : EngineConfig).overriddenBy env
  | .unreadable => .error .unreadable
  | .file text => (ofFile text).bind (·.overriddenBy env)

end EngineConfig

end Noticeboard
