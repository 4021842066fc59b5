import GameScript.Extract.Build

/-!
# From the elements of a file to its definitions

Blocks become objects, at the top level or one level below it; the variables nested in a block
follow its object. Of the leaves at the top level, variables, namespaces and inline scripts
become definitions. The definitions of a file are numbered in order.
-/

namespace GameScript

open Text

/-! ## Nested variables -/

namespace Element

mutual

def nestedVariables : Element → List Element
  | leaf .. => []
  | block _ _ es => variablesAmong es

def variablesAmong : List Element → List Element
  | [] => []
  | e :: es => (if e.isVariable then [e] else nestedVariables e) ++ variablesAmong es

end

end Element

namespace SourceFile

variable (f : SourceFile)

/-- The variables nested in a block, each with the key of the wrapping block. -/
def liftedVariables (e : Element) (parent : Option Text) : List Definition :=
  e.nestedVariables.map fun v => { f.variableDefinition v with codeTag := parent }

/-- What a leaf at the top level defines. With `anyOperator`, every leaf that has an operator is
a variable if it is nothing else. -/
def leafDefinition (anyOperator : Bool) (e : Element) : Option Definition :=
  if e.isVariable then some (f.variableDefinition e)
  else if isNamespaceKey e.key && e.value.isSome then some (f.namespaceDefinition e)
  else if e.hasKey Element.inlineScriptKey then
    (e.unquotedValue.filter (· ≠ [])).map fun target =>
      { f.simpleDefinition .object target e.format target with hasInlineId := true }
  else if anyOperator && e.operator.isSome then some (f.variableDefinition e)
  else none

/-- The definitions of a leaf at the top level, adjusted. -/
def leafDefinitions (naming : Naming) (anyOperator : Bool) (e : Element) : List Definition :=
  ((f.leafDefinition anyOperator e).map (naming.adjust · e)).toList

/-- The object of a block, adjusted, and the variables nested in the block. -/
def objectDefinitions (naming : Naming) (parent : Option Text) (e : Element) : List Definition :=
  naming.adjust (f.objectDefinition naming e parent) e :: f.liftedVariables e parent

def rootDefinitions (naming : Naming) (anyOperator : Bool) (es : List Element) :
    List Definition :=
  es.flatMap fun e =>
    if e.isLeaf then f.leafDefinitions naming anyOperator e
    else f.objectDefinitions naming none e

def innerDefinitions (naming : Naming) (parent : Text) (child : Element) : List Definition :=
  if child.isVariable then [naming.adjust (f.variableDefinition child) child]
  else if child.isLeaf then []
  else f.objectDefinitions naming (some parent) child

/-- The definitions of elements whose blocks are only containers. -/
def secondLevelDefinitions (naming : Naming) (es : List Element) : List Definition :=
  es.flatMap fun e =>
    if e.isLeaf then f.leafDefinitions naming false e
    else e.children.flatMap (f.innerDefinitions naming e.key)

end SourceFile

/-- Numbers the definitions of a file, notes how it was checked, and gives a type to those
without one. -/
def finishDefinitions (simple : Bool) (ds : List Definition) : List Definition :=
  ds.mapIdx fun i d =>
    let d := { d with order := i, simplyChecked := simple }
    if d.type = [] then d.setType (Path.typeLabel d.file none) else d

namespace SourceFile

variable (s : ScriptSettings) (f : SourceFile)

/-- Reads a file and makes definitions of its elements; a file that cannot be read becomes one
invalid definition. -/
def extract (classify : List Element → List Definition) : List Definition :=
  match f.elements s with
  | .ok p => finishDefinitions p.simple (classify p.elements)
  | .error e => [f.invalidDefinition e.fault]

def extractRoot (naming : Naming) : List Definition :=
  f.extract s (f.rootDefinitions naming false)

/-- As `extractRoot`, with every leaf that has an operator a variable. -/
def extractAllLeaves (naming : Naming) : List Definition :=
  f.extract s (f.rootDefinitions naming true)

/-- The definitions one level below the top. -/
def extractSecondLevel (naming : Naming) : List Definition :=
  f.extract s (f.secondLevelDefinitions naming)

end SourceFile

end GameScript
