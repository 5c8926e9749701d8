import DecisionTuples.Codec.Settings
import DecisionTuples.Codec.Tuple
import DecisionTuples.Grammar.Parse
import DecisionTuples.Json.Writer

/-!
# The engine

From text to tuples in one call: a text is read as a feature, the feature comes
down to paths, the paths become tuples, and the tuples can be written as JSON
text.  An engine holds nothing but its settings; every call compiles afresh.

Errors say which stage refused the text.  Settings that cannot be loaded are
errors of the same type; their wording is left to whatever reads them.
-/

namespace DecisionTuples

/-- Why the engine has no answer. -/
inductive EngineError where
  /-- The text cannot be parsed. -/
  | parse (error : ParseError)
  /-- The feature cannot be compiled. -/
  | compile (error : CompileError)
  /-- A settings document is not valid. -/
  | invalidDocument
  /-- A settings file holds no valid document. -/
  | invalidFile
  /-- A settings file does not exist. -/
  | missingFile

/-- What kind of error it is, whichever stage found it. -/
inductive ErrorKind where
  /-- The text does not follow the grammar. -/
  | grammar
  /-- The feature uses a construct that has no tuples yet. -/
  | unsupportedConstruct
  /-- A condition compares in a way that has no region. -/
  | invalidExpression
  /-- Everything else. -/
  | other
  deriving DecidableEq

/-- The published name of the kind. -/
def ErrorKind.name : ErrorKind → String
  | grammar => "Syntax"
  | unsupportedConstruct => "UnsupportedConstruct"
  | invalidExpression => "InvalidExpression"
  | other => "Other"

namespace EngineError

/-- The kind of an error. -/
def kind : EngineError → ErrorKind
  | parse (.unreadable _) => .grammar
  | compile (.unsupported _) => .unsupportedConstruct
  | compile (.region (.notAComparison _)) => .invalidExpression
  | _ => .other

/-- The published name of the cause. -/
def label : EngineError → String
  | parse error => error.label
  | compile error => error.label
  | invalidDocument => "YamlError"
  | invalidFile => "ConfigError"
  | missingFile => "IoError"

/-- The wording of an error about a text. -/
def message? : EngineError → Option String
  | parse error => some ("Parser error: " ++ error.message)
  | compile error => some ("Compiler error: " ++ error.message)
  | _ => none

end EngineError

/-- Settings under which texts are compiled. -/
structure Engine where
  settings : Settings

namespace Engine

/-- The feature that a text describes. -/
def parse (_ : Engine) (source : String) : Except EngineError Feature :=
  (Feature.parse source.toList).mapError .parse

/-- The variables and paths of the feature that a text describes. -/
def pathTable (engine : Engine) (source : String) : Except EngineError PathTable := do
  let feature ← engine.parse source
  ((Compiler.new engine.settings.compiler).pathTable feature).2.mapError .compile

/-- The tuples of the feature that a text describes. -/
def compile (engine : Engine) (source : String) : Except EngineError TupleSet := do
  let feature ← engine.parse source
  ((Compiler.new engine.settings.compiler).compile feature).2.mapError .compile

/-- The tuples of the feature that a text describes, as JSON text. -/
def compileToJson (engine : Engine) (source : String) : Except EngineError String := do
  let set ← engine.compile source
  return set.encode.text

end Engine

namespace Settings

/-- The settings that a document describes. -/
def ofDocument (text : String) : Except EngineError Settings :=
  match ofYaml? text with
  | some settings => .ok settings
  | none => .error .invalidDocument

/-- The settings that a file describes, given what the file holds if it exists. -/
def ofFile : Option String → Except EngineError Settings
  | none => .error .missingFile
  | some text =>
    match ofYaml? text with
    | some settings => .ok settings
    | none => .error .invalidFile

end Settings
end DecisionTuples
