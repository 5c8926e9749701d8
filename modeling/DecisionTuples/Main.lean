import DecisionTuples.Engine

/-!
# Command line

Compiles a feature from a file, under the settings of a second file if one is
given, and prints the variables, the tuples and the tuples as JSON text.  The
work is done by `Engine`; this module only reads and prints.
-/

namespace DecisionTuples

/-- What is printed about a tuple set. -/
def TupleSet.summary (set : TupleSet) : List String :=
  ["Variables:"] ++ set.declarations.map (fun declared => "  " ++ declared.text) ++
    ["", "Tuples (" ++ toString set.tuples.length ++ "):"] ++
    set.tuples.zipIdx.map (fun (tuple, index) => "  #" ++ toString index ++ " " ++ tuple.text) ++
    ["", "JSON:", set.encode.text]

/-- What is printed about an error in the feature of the given file. -/
def EngineError.summary (error : EngineError) (file : String) : List String :=
  ["Failed to compile " ++ file ++ " (" ++ error.kind.name ++ "):",
    error.message?.getD error.label]

/-- Compile the text of a file and print what comes of it. -/
def compileFile (settings : Settings) (file : String) : IO UInt32 := do
  let source ← IO.FS.readFile file
  match (Engine.mk settings).compile source with
  | .ok set =>
    set.summary.forM fun line => IO.println line
    return 0
  | .error error =>
    (error.summary file).forM fun line => IO.eprintln line
    return 1

end DecisionTuples

/-- The feature file comes first, then the settings file if there is one. -/
def main : List String → IO UInt32
  | [file] => DecisionTuples.compileFile .default file
  | [file, settingsFile] => do
    let document ← IO.FS.readFile settingsFile
    match DecisionTuples.Settings.ofFile (some document) with
    | .ok settings => DecisionTuples.compileFile settings file
    | .error error =>
      (error.summary settingsFile).forM fun line => IO.eprintln line
      return 1
  | _ => do
    IO.eprintln "usage: FEATURE [SETTINGS]"
    return 2
