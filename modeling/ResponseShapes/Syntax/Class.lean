import ResponseShapes.Syntax.Source

/-!
# Classes and their methods

The classes that a source declares at its top level, exported or not, with their decorators and methods. A method
takes the decorators that stand directly before it, comments aside; decorators before any other member belong to no
method.
-/

namespace ResponseShapes.Syntax

/-- A decorator: its node, its name if it is a plain one, and its arguments if it is called. -/
structure Decorator where
  node : Node
  name : Option String
  isCall : Bool
  arguments : List Node

/-- A method of a class. -/
structure Method where
  node : Node
  name : String
  decorators : List Decorator
  accessibility : Option String
  isAccessor : Bool
  /-- Whether the name is written as a word; quoted, numbered and computed names are not. -/
  hasPlainName : Bool

namespace Method

/-- Whether the method constructs instances of its class. -/
def isConstructor (m : Method) : Bool :=
  m.name == "constructor"

/-- Whether only the class itself sees the method. -/
def isPrivate (m : Method) : Bool :=
  m.accessibility == some "private" || m.name.toList.head? == some '#'

/-- Whether callers get what the method returns under its name. -/
def isAnalyzable (m : Method) : Bool :=
  m.hasPlainName && !(m.isConstructor || m.isPrivate || m.isAccessor)

/-- The names of the decorators that have one. -/
def decoratorNames (m : Method) : List String :=
  m.decorators.filterMap (·.name)

/-- The type annotated for the result; assertions and predicates are none. -/
def returnType? (m : Method) : Option Node :=
  match m.node.child? .returnType with
  | some clause => if clause.kind = .annotatedType then clause.firstConstruct? else none
  | none => none

/-- The statements of the method. -/
def body? (m : Method) : Option Node :=
  m.node.child? .body

end Method

/-- A class at the top level of a source. -/
structure ClassDeclaration where
  node : Node
  name : String
  decorators : List Decorator
  methods : List Method

namespace Source

variable (s : Source)

/-- Reads a decorator. -/
def decorator (n : Node) : Decorator :=
  let named (target : Option Node) : Option String :=
    match target with
    | some t => if t.kind = .identifier then some (s.textOf t) else none
    | none => none
  match n.firstConstruct? with
  | none => { node := n, name := none, isCall := false, arguments := [] }
  | some target =>
    if target.kind = .callExpression then
      { node := n, name := named (target.child? .function), isCall := true,
        arguments := ((target.child? .arguments).map Node.constructs).getD [] }
    else { node := n, name := named (some target), isCall := false, arguments := [] }

/-- Reads a method with the decorators in front of it; one without a name is none. -/
def method? (n : Node) (decorators : List Decorator) : Option Method :=
  (n.child? .name).map fun name =>
    { node := n
      name := s.textOf name
      decorators
      accessibility := ((n.childrenOf .accessibilityModifier).getLast?).map s.textOf
      isAccessor := (n.childrenOf .token).any fun t => ["get", "set"].contains (s.textOf t)
      hasPlainName := name.kind = .propertyIdentifier || name.kind = .privatePropertyIdentifier }

/-- The methods among the members of a class, given the decorators that stand directly before the first member. -/
def methodsFrom (pending : List Decorator) : List Node → List Method
  | [] => []
  | n :: ns =>
    if n.kind = .decorator then methodsFrom (pending ++ [s.decorator n]) ns
    else if n.kind = .comment then methodsFrom pending ns
    else if n.kind = .methodDefinition then
      (s.method? n (pending ++ (n.childrenOf .decorator).map s.decorator)).toList ++ methodsFrom [] ns
    else methodsFrom [] ns

/-- The methods of a class. -/
def methods (classNode : Node) : List Method :=
  match classNode.child? .body with
  | some body => s.methodsFrom [] body.children
  | none => []

/-- Whether a node declares a class. -/
def declaresClass (n : Node) : Bool :=
  n.kind = .classDeclaration || n.kind = .abstractClassDeclaration

/-- The class that a declaration declares, which other decorators stand before. -/
def classOf? (decorators : List Decorator) (n : Node) : Option ClassDeclaration :=
  if declaresClass n then
    (n.child? .name).map fun name =>
      { node := n
        name := s.textOf name
        decorators := decorators ++ (n.childrenOf .decorator).map s.decorator
        methods := s.methods n }
  else none

/-- The class that a statement declares or exports. -/
def class? (statement : Node) : Option ClassDeclaration :=
  if statement.kind = .exportStatement then
    let target := (statement.child? .declaration).orElse fun _ => statement.constructs.find? declaresClass
    target.bind (s.classOf? ((statement.childrenOf .decorator).map s.decorator))
  else s.classOf? [] statement

/-- The classes at the top level, in source order. -/
def classes : List ClassDeclaration :=
  s.root.constructs.filterMap s.class?

end Source

end ResponseShapes.Syntax
