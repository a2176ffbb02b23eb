/-!
# Kinds of syntax tree nodes

A syntax tree labels each node with the kind of construct it stands for, and some children with
the part they play in their parent. The kinds and parts that decide how a module is opened have a
constructor each; every other one is kept by its name.

## Main definitions

* `Kind`, `Kind.name`, `Kind.ofName` — kinds of constructs, and their names in a syntax tree
* `Role`, `Role.ofName` — the parts children play
-/

namespace Seams

/-! ### Kinds -/

/-- The kind of construct a node stands for. -/
inductive Kind where
  | program
  | error
  | hashbang
  | importStatement
  | importClause
  | namespaceImport
  | namedImports
  | importSpecifier
  | exportStatement
  | exportClause
  | exportSpecifier
  | lexicalDeclaration
  | variableDeclaration
  | variableDeclarator
  | functionDeclaration
  | generatorDeclaration
  | classDeclaration
  | functionExpression
  /-- The kind that function expressions have in older grammars, and the keyword in all. -/
  | function
  | generatorFunction
  | arrowFunction
  | methodDefinition
  | classExpression
  | classBody
  | decorator
  | forInStatement
  | identifier
  | shorthandProperty
  | shorthandPattern
  | objectPattern
  | arrayPattern
  | restPattern
  | pairPattern
  | assignmentPattern
  | objectAssignmentPattern
  | string
  | comment
  | keywordVar
  | keywordLet
  | keywordConst
  | keywordAs
  | keywordDefault
  /-- Any other construct or token, by its name. -/
  | other (name : String)
  deriving DecidableEq, Repr, Inhabited

/-- The kinds that have a constructor of their own, with their names. -/
def Kind.known : List (String × Kind) :=
  [("program", .program), ("ERROR", .error), ("hash_bang_line", .hashbang),
    ("import_statement", .importStatement), ("import_clause", .importClause),
    ("namespace_import", .namespaceImport), ("named_imports", .namedImports),
    ("import_specifier", .importSpecifier), ("export_statement", .exportStatement),
    ("export_clause", .exportClause), ("export_specifier", .exportSpecifier),
    ("lexical_declaration", .lexicalDeclaration), ("variable_declaration", .variableDeclaration),
    ("variable_declarator", .variableDeclarator), ("function_declaration", .functionDeclaration),
    ("generator_function_declaration", .generatorDeclaration),
    ("class_declaration", .classDeclaration), ("function_expression", .functionExpression),
    ("function", .function), ("generator_function", .generatorFunction),
    ("arrow_function", .arrowFunction), ("method_definition", .methodDefinition),
    ("class", .classExpression), ("class_body", .classBody), ("decorator", .decorator),
    ("for_in_statement", .forInStatement), ("identifier", .identifier),
    ("shorthand_property_identifier", .shorthandProperty),
    ("shorthand_property_identifier_pattern", .shorthandPattern),
    ("object_pattern", .objectPattern), ("array_pattern", .arrayPattern),
    ("rest_pattern", .restPattern), ("pair_pattern", .pairPattern),
    ("assignment_pattern", .assignmentPattern),
    ("object_assignment_pattern", .objectAssignmentPattern), ("string", .string),
    ("comment", .comment), ("var", .keywordVar), ("let", .keywordLet), ("const", .keywordConst),
    ("as", .keywordAs), ("default", .keywordDefault)]

/-- The kind with a given name. -/
def Kind.ofName (name : String) : Kind :=
  (known.lookup name).getD (.other name)

/-- The name of a kind in a syntax tree. -/
def Kind.name (kind : Kind) : String :=
  match kind with
  | .other name => name
  | _ => ((known.find? fun entry => entry.2 == kind).map Prod.fst).getD ""

namespace Kind

/-! ### Families of kinds -/

/-- The kinds whose text names a variable somewhere in the module. -/
def isIdentifier : Kind → Bool
  | .identifier | .shorthandProperty | .shorthandPattern => true
  | _ => false

/-- The declarations introduced by `var`, `let` or `const`. -/
def isVariableDeclaration : Kind → Bool
  | .lexicalDeclaration | .variableDeclaration => true
  | _ => false

/-- The function declarations. -/
def isFunctionDeclaration : Kind → Bool
  | .functionDeclaration | .generatorDeclaration => true
  | _ => false

/-- The functions that are values, the arrow functions apart. -/
def isFunctionExpression : Kind → Bool
  | .functionExpression | .function | .generatorFunction => true
  | _ => false

/-- The classes, declared or as values. -/
def isClass : Kind → Bool
  | .classDeclaration | .classExpression => true
  | _ => false

/-- The constructs whose `var` declarations do not reach outside. -/
def opensVarScope : Kind → Bool
  | .functionDeclaration | .generatorDeclaration | .functionExpression | .function
  | .generatorFunction | .arrowFunction | .methodDefinition | .classBody => true
  | _ => false

end Kind

/-! ### Roles -/

/-- The part a child plays in its parent. -/
inductive Role where
  | name
  | value
  | left
  | kind
  | alias
  | declaration
  | source
  /-- Any other part, by its name. -/
  | other (name : String)
  deriving DecidableEq, Repr

/-- The role with a given name. -/
def Role.ofName : String → Role
  | "name" => .name
  | "value" => .value
  | "left" => .left
  | "kind" => .kind
  | "alias" => .alias
  | "declaration" => .declaration
  | "source" => .source
  | unlisted => .other unlisted

end Seams
