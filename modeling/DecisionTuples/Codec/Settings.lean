import DecisionTuples.Codec.Record
import DecisionTuples.Settings.Basic
import DecisionTuples.Yaml.Node

/-!
# Settings in JSON and in YAML

Every part of settings may be left out and is then the default; a part that is
not known is an error.  In a YAML document settings are mappings, no key may occur
twice, and a flag is a plain scalar, or a literal one with the tag of truth values.
-/

namespace DecisionTuples

/-- A flag that may be left out, and is then off. -/
def Json.flag? : Option Json → Option Bool
  | none => some false
  | some json => json.asBool?

namespace Yaml

/-- The tag of truth values. -/
def truthTag : List Char := "tag:yaml.org,2002:bool".toList

/-- The truth value that a scalar stands for. -/
def Scalar.truth? (scalar : Scalar) : Option Bool :=
  if scalar.style = .plain ∨ (scalar.style = .literal ∧ scalar.tag = some truthTag) then
    match String.ofList scalar.text with
    | "true" | "True" | "TRUE" => some true
    | "false" | "False" | "FALSE" => some false
    | _ => none
  else none

namespace Document

/-- A flag that may be left out, and is then off. -/
def flag? (document : Document) : Option Node → Option Bool
  | none => some false
  | some node => (document.scalar? node).bind Scalar.truth?

/-- The parts of settings whose parts have the given keys. -/
def settings? (document : Document) (keys : List String) (node : Node) :
    Option (String → Option Node) := do
  let fields ← document.fields? node
  let named ← fields.mapM fun (key, value) =>
    (document.scalar? key).map fun scalar => (String.ofList scalar.text, value)
  let names := named.map Prod.fst
  if names.Nodup ∧ ∀ name ∈ names, name ∈ keys then return fun key => named.lookup key
  else none

end Document
end Yaml

namespace CompilerOptions

def encode (options : CompilerOptions) : Json :=
  .obj [("enable_semantic_analysis", .bool options.scopeAnalysis)]

def decode? (json : Json) : Option CompilerOptions := do
  let part ← json.settings? ["enable_semantic_analysis"]
  let scopeAnalysis ← Json.flag? (part "enable_semantic_analysis")
  return ⟨scopeAnalysis⟩

/-- The options that a node of a document describes. -/
def ofNode? (document : Yaml.Document) (node : Yaml.Node) : Option CompilerOptions := do
  let part ← document.settings? ["enable_semantic_analysis"] node
  let scopeAnalysis ← document.flag? (part "enable_semantic_analysis")
  return ⟨scopeAnalysis⟩

end CompilerOptions

namespace Settings

def encode (settings : Settings) : Json :=
  .obj [("compiler_options", settings.compiler.encode),
    ("enable_tracing", .bool settings.tracing)]

def decode? (json : Json) : Option Settings := do
  let part ← json.settings? ["compiler_options", "enable_tracing"]
  let compiler ← match part "compiler_options" with
    | none => some .default
    | some options => CompilerOptions.decode? options
  let tracing ← Json.flag? (part "enable_tracing")
  return ⟨compiler, tracing⟩

/-- The settings that a document describes. -/
def ofDocument? (document : Yaml.Document) : Option Settings := do
  let part ← document.settings? ["compiler_options", "enable_tracing"] document.root
  let compiler ← match part "compiler_options" with
    | none => some .default
    | some node => CompilerOptions.ofNode? document node
  let tracing ← document.flag? (part "enable_tracing")
  return ⟨compiler, tracing⟩

/-- The settings that a text describes.  A text without a document describes the
default. -/
def ofYaml? (text : String) : Option Settings := do
  match ← Yaml.Document.read? text.toList with
  | none => return .default
  | some document => ofDocument? document

end Settings
end DecisionTuples
