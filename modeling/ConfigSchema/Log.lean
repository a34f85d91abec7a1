import ConfigSchema.Json.Printer
import ConfigSchema.Text.Lines

/-!
# Log

What a run reports beside its answer: entries with a level and the part of the program that they
come from.  An entry whose text has line ends takes several lines, of which only those count that
look like the first line of an entry.
-/

namespace ConfigSchema

inductive LogLevel where
  | debug
  | info
  | warning
  deriving DecidableEq, Inhabited

/-- The parts of the program that report. -/
inductive LogSource where
  | loader
  | builder
  | compiler
  | docs
  | generator
  | typings
  | writer
  deriving DecidableEq, Inhabited

structure LogEntry where
  level : LogLevel
  source : LogSource
  text : String
  deriving DecidableEq, Inhabited

/-- Entries in the order in which they were made. -/
abbrev Log := List LogEntry

namespace LogLevel

def label : LogLevel → String
  | .debug => "DEBUG"
  | .info => "INFO"
  | .warning => "WARNING"

/-- Whether entries of a level are shown when debug entries are, or are not. -/
def isShown (verbose : Bool) : LogLevel → Bool
  | .warning => true
  | _ => verbose

end LogLevel

namespace LogSource

def label : LogSource → String
  | .loader => "graphql_to_json_schema.type_graph.loader"
  | .builder => "graphql_to_json_schema.type_graph.builder"
  | .compiler => "graphql_to_json_schema.compiler.schema_compiler"
  | .docs => "graphql_to_json_schema.markdown.renderer"
  | .generator => "graphql_to_json_schema.generator"
  | .typings => "graphql_to_json_schema.output.typings"
  | .writer => "graphql_to_json_schema.output.atomic_writer"

end LogSource

namespace LogEntry

def render (entry : LogEntry) : String :=
  entry.level.label ++ " " ++ entry.source.label ++ ": " ++ entry.text

end LogEntry

namespace Log

/-- What the lines of entries start with. -/
def fronts : List String :=
  ["DEBUG", "INFO", "WARNING", "ERROR", "CRITICAL"].map (· ++ " graphql_to_json_schema")

def isFirstLine (line : List Char) : Bool :=
  fronts.any fun front => front.toList.isPrefixOf line

/-- The text of a line; a lone surrogate is written as an escape. -/
def shown [Runtime] (line : List Char) : String :=
  String.join (line.map fun c =>
    if Text.isSurrogate c then Json.Printer.unicodeEscape (Text.codeOf c) else c.toString)

/-- The lines that are shown of a log. -/
def lines [Runtime] (log : Log) (verbose : Bool) : List String :=
  (log.filter fun entry => entry.level.isShown verbose).flatMap fun entry =>
    ((Text.lines entry.render.toList).filter isFirstLine).map shown

end Log

end ConfigSchema
