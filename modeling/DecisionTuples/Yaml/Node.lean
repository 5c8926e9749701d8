import DecisionTuples.Yaml.Token

/-!
# Nodes of YAML

A document is a tree of nodes: scalars, mappings from nodes to nodes, and
references to nodes that carry an anchor.  A field that is written without its key
or without its value has the empty plain scalar there.

Anchors are numbered when they are met.  Each gets the number of names that are
known before it, so an anchor whose name was used before shares its number with the
next new name.  A reference stands for the last node with its number in the whole
document.  Only references to scalars are followed.

A text holds one document, or none at all.
-/

namespace DecisionTuples
namespace Yaml

/-- A scalar with its resolved tag. -/
structure Scalar where
  style : Style
  text : List Char
  tag : Option (List Char)
  deriving DecidableEq

/-- The scalar of which nothing is written. -/
def Scalar.empty (tag : Option (List Char)) : Scalar := ⟨.plain, [], tag⟩

inductive Node where
  | scalar (content : Scalar)
  | reference (number : Nat)
  | mapping (fields : List (Node × Node))

/-- A node of which nothing is written. -/
def Node.empty : Node := .scalar (.empty none)

/-- The anchors that were met: the number of each name, and what carries each
number, the latest first. -/
structure Anchors where
  numbers : List (List Char × Nat)
  targets : List (Nat × Option Scalar)

namespace Anchors

/-- No anchor was met. -/
def empty : Anchors := ⟨[], []⟩

/-- With an anchor on a node, which is the given scalar if it is one. -/
def add (anchors : Anchors) (name : List Char) (target : Option Scalar) : Anchors :=
  let number := anchors.numbers.length
  { numbers := (name, number) :: anchors.numbers.filter (·.1 ≠ name)
    targets := (number, target) :: anchors.targets }

/-- With the anchor of a node, if it has one. -/
def addOptional (anchors : Anchors) (name : Option (List Char)) (target : Option Scalar) :
    Anchors :=
  match name with
  | none => anchors
  | some name => anchors.add name target

end Anchors

/-- For what the handles of tags stand. -/
abbrev Handles := List (List Char × List Char)

/-- The handles that every document knows. -/
def Handles.default : Handles :=
  [(['!'], ['!']), (closedHandle [], "tag:yaml.org,2002:".toList)]

/-- The full tag. -/
def Tag.resolve? (handles : Handles) (tag : Tag) : Option (List Char) :=
  if tag.handle.isEmpty then some tag.suffix
  else (handles.lookup tag.handle).map fun stem => stem ++ tag.suffix

/-- What stands in front of a node. -/
structure Properties where
  anchor : Option (List Char)
  tag : Option Tag

namespace Properties

/-- The properties at the front of tokens, and the tokens behind them. -/
def take : List Token → Properties × List Token
  | .anchor name :: .tag tag :: rest => (⟨some name, some tag⟩, rest)
  | .tag tag :: .anchor name :: rest => (⟨some name, some tag⟩, rest)
  | .anchor name :: rest => (⟨some name, none⟩, rest)
  | .tag tag :: rest => (⟨none, some tag⟩, rest)
  | rest => (⟨none, none⟩, rest)

/-- The full tag, if there is a tag. -/
def fullTag? (properties : Properties) (handles : Handles) : Option (Option (List Char)) :=
  match properties.tag with
  | none => some none
  | some tag => (tag.resolve? handles).map some

end Properties

/-- Before these tokens a key or a value may be left out. -/
def Token.endsPart (inBraces : Bool) : Token → Bool
  | value => true
  | key | blockEnd => !inBraces
  | comma | braceClose => inBraces
  | _ => false

/-! Readers give what was read, the tokens behind it, and the anchors met until
then. -/

mutual

/-- The node at the front of tokens, within a bound on the steps taken.  Mappings of
lines have no place between braces. -/
def readNode (handles : Handles) (inBraces : Bool) :
    Nat → List Token → Anchors → Option (Node × List Token × Anchors)
  | 0, _, _ => none
  | _ + 1, .reference name :: rest, anchors =>
    (anchors.numbers.lookup name).map fun number => (.reference number, rest, anchors)
  | bound + 1, tokens, anchors => do
    let (properties, rest) := Properties.take tokens
    let tag ← properties.fullTag? handles
    let meet := anchors.addOptional properties.anchor
    match rest with
    | .scalar style text :: rest =>
      let content : Scalar := ⟨style, text, tag⟩
      return (.scalar content, rest, meet (some content))
    | .braceOpen :: rest => readMapping handles true bound rest (meet none)
    | .blockStart :: rest =>
      if inBraces then none else readMapping handles false bound rest (meet none)
    | rest =>
      if properties.anchor.isNone && properties.tag.isNone then none
      else return (.scalar (.empty tag), rest, meet (some (.empty tag)))

/-- The mapping whose opening was read. -/
def readMapping (handles : Handles) (inBraces : Bool) :
    Nat → List Token → Anchors → Option (Node × List Token × Anchors)
  | 0, _, _ => none
  | bound + 1, tokens, anchors =>
    (readFields handles inBraces bound tokens anchors).map fun (fields, rest) =>
      (.mapping fields, rest)

/-- Fields up to the closing of the mapping.  Between braces there are commas between
them, and there may be one behind the last. -/
def readFields (handles : Handles) (inBraces : Bool) :
    Nat → List Token → Anchors → Option (List (Node × Node) × List Token × Anchors)
  | 0, _, _ => none
  | bound + 1, tokens, anchors =>
    match inBraces, tokens with
    | false, .blockEnd :: rest => some ([], rest, anchors)
    | true, .braceClose :: rest => some ([], rest, anchors)
    | _, tokens => do
      let (field, rest, anchors) ← readField handles inBraces bound tokens anchors
      match inBraces, rest with
      | true, .braceClose :: rest => return ([field], rest, anchors)
      | true, .comma :: rest | false, rest =>
        let (fields, rest, anchors) ← readFields handles inBraces bound rest anchors
        return (field :: fields, rest, anchors)
      | _, _ => none

/-- A field: a key with its value or, between braces, a node without a value. -/
def readField (handles : Handles) (inBraces : Bool) :
    Nat → List Token → Anchors → Option ((Node × Node) × List Token × Anchors)
  | 0, _, _ => none
  | bound + 1, .key :: rest, anchors => do
    let (key, rest, anchors) ← readPart handles inBraces bound rest anchors
    match rest with
    | .value :: rest =>
      let (value, rest, anchors) ← readPart handles inBraces bound rest anchors
      return ((key, value), rest, anchors)
    | rest => return ((key, .empty), rest, anchors)
  | bound + 1, tokens, anchors =>
    if inBraces then
      (readNode handles true bound tokens anchors).map fun (key, rest) =>
        ((key, .empty), rest)
    else none

/-- A key or a value, which may be left out. -/
def readPart (handles : Handles) (inBraces : Bool) :
    Nat → List Token → Anchors → Option (Node × List Token × Anchors)
  | 0, _, _ => none
  | bound + 1, tokens, anchors =>
    if tokens.head?.any (Token.endsPart inBraces) then some (.empty, tokens, anchors)
    else readNode handles inBraces bound tokens anchors

end

/-- A node, and what carries the numbers to which it refers. -/
structure Document where
  root : Node
  targets : List (Nat × Option Scalar)

namespace Document

/-- The directives at the front of tokens, and the tokens behind them. -/
def takeDirectives : List Token → List Directive × List Token
  | .directive directive :: rest =>
    let (others, behind) := takeDirectives rest
    (directive :: others, behind)
  | rest => ([], rest)

/-- The handles that directives declare.  None is declared twice, and the version of
YAML is 1.1 or 1.2. -/
def handles? : Bool → Handles → List Directive → Option Handles
  | _, handles, [] => some (handles ++ .default)
  | hasVersion, handles, .version major minor :: rest =>
    if hasVersion || major ≠ 1 || (minor ≠ 1 && minor ≠ 2) then none
    else handles? true handles rest
  | hasVersion, handles, .handle name stem :: rest =>
    if (handles.lookup name).isSome then none
    else handles? hasVersion ((name, stem) :: handles) rest

/-- The document that the tokens hold, where nothing but marks of its end may follow
it. -/
def ofContent? (handles : Handles) (tokens : List Token) : Option Document := do
  let (root, rest, anchors) ← readNode handles false (4 * tokens.length + 4) tokens .empty
  if rest.all (· == .documentEnd) then return ⟨root, anchors.targets⟩ else none

/-- The document behind its mark, of which nothing need be written. -/
def ofMarked? (handles : Handles) (tokens : List Token) : Option Document :=
  if tokens.all (· == .documentEnd) then some ⟨.empty, []⟩ else ofContent? handles tokens

/-- The document of a text, if there is one. -/
def read? (text : List Char) : Option (Option Document) := do
  let tokens ← tokens? text
  if tokens.isEmpty then return none
  let (directives, rest) := takeDirectives tokens
  match rest with
  | .documentStart :: content =>
    let handles ← handles? false [] directives
    (ofMarked? handles content).map some
  | content => if directives.isEmpty then (ofContent? .default content).map some else none

/-- The scalar that a node is or to which it refers. -/
def scalar? (document : Document) : Node → Option Scalar
  | .scalar content => some content
  | .reference number => (document.targets.lookup number).join
  | .mapping _ => none

/-- The fields of a node.  The empty plain scalar has none. -/
def fields? (document : Document) : Node → Option (List (Node × Node))
  | .mapping fields => some fields
  | node => (document.scalar? node).bind fun content =>
    if content.style = .plain ∧ content.text = [] then some [] else none

end Document
end Yaml
end DecisionTuples
