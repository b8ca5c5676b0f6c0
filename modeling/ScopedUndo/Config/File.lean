import ScopedUndo.Config.Yaml
import ScopedUndo.Value.Read
/-!
# Configuration files

A configuration file's format follows from its name's extension, case and all: `yaml` or `yml`
for YAML and `json` for JSON. A name without an extension, including one like `.json` whose only
dot starts it, has no format. JSON files are written spread over lines, two spaces a level.
-/

namespace ScopedUndo

inductive Format where
  | yaml
  | json
  deriving DecidableEq, Repr

namespace Format

/-- The extension of a file name: what follows its last dot, unless there is no dot, or the
only dot starts the name, or the name is `..`. -/
def extension? (name : String) : Option String :=
  if name == ".." then none
  else
    match name.splitOn "." with
    | [] | [_] => none
    | parts =>
      if parts.dropLast == [""] then none else parts.getLast?

def ofName? (name : String) : Option Format :=
  match extension? name with
  | some "yaml" | some "yml" => some .yaml
  | some "json" => some .json
  | _ => none

end Format

def unsupportedFormat : Fault :=
  .config "Unsupported file format. Use .yaml, .yml, or .json"

namespace Config

def load (name content : String) : Except Fault Config :=
  match Format.ofName? name with
  | none => .error unsupportedFormat
  | some .json => ((Value.read content).bind ofJson).mapError .serialization
  | some .yaml => ((Yaml.read content).bind ofYaml).mapError .yaml

/-- The content of a file with a configuration, in the format its name calls for. -/
def save (c : Config) (name : String) : Except Fault String :=
  match Format.ofName? name with
  | none => .error unsupportedFormat
  | some .json => .ok c.toValue.pretty
  | some .yaml => .ok c.toYaml

end Config

end ScopedUndo
