/-!
# The standard node types

The node types of the ESTree format, in their order of declaration, with the fields of each that hold
child nodes, in the order in which a walk takes them. Fields that hold operators, flags, names or raw
values are not listed: a walk never looks at them.

Main statements: the list `all` holds every node type once (`mem_all`, `nodup_all`), and the table by which a tag
is looked up is the inverse of the table of the tags (`ofName?_eq_some_iff`).
-/

set_option autoImplicit false

namespace SyntaxWalk

/-- A node type of the ESTree format. -/
inductive NodeType where
  | program
  | identifier
  | privateIdentifier
  | literal
  | templateLiteral
  | templateElement
  | arrayExpression
  | arrowFunctionExpression
  | assignmentExpression
  | awaitExpression
  | binaryExpression
  | callExpression
  | chainExpression
  | classExpression
  | conditionalExpression
  | functionExpression
  | importExpression
  | logicalExpression
  | memberExpression
  | metaProperty
  | newExpression
  | objectExpression
  | property
  | sequenceExpression
  | spreadElement
  | super
  | taggedTemplateExpression
  | thisExpression
  | unaryExpression
  | updateExpression
  | yieldExpression
  | comprehensionBlock
  | comprehensionExpression
  | generatorExpression
  | arrayPattern
  | assignmentPattern
  | objectPattern
  | restElement
  | blockStatement
  | breakStatement
  | continueStatement
  | debuggerStatement
  | directiveStatement
  | doWhileStatement
  | emptyStatement
  | expressionStatement
  | forStatement
  | forInStatement
  | forOfStatement
  | ifStatement
  | labeledStatement
  | returnStatement
  | switchStatement
  | switchCase
  | throwStatement
  | tryStatement
  | catchClause
  | whileStatement
  | withStatement
  | functionDeclaration
  | variableDeclaration
  | variableDeclarator
  | classDeclaration
  | classBody
  | methodDefinition
  | propertyDefinition
  | staticBlock
  | importDeclaration
  | importSpecifier
  | importDefaultSpecifier
  | importNamespaceSpecifier
  | importAttribute
  | exportNamedDeclaration
  | exportDefaultDeclaration
  | exportAllDeclaration
  | exportSpecifier
  | moduleSpecifier
  deriving DecidableEq

namespace NodeType

/-- Every node type, in order of declaration. -/
def all : List NodeType :=
  [.program, .identifier, .privateIdentifier, .literal, .templateLiteral, .templateElement,
   .arrayExpression, .arrowFunctionExpression, .assignmentExpression, .awaitExpression,
   .binaryExpression, .callExpression, .chainExpression, .classExpression, .conditionalExpression,
   .functionExpression, .importExpression, .logicalExpression, .memberExpression, .metaProperty,
   .newExpression, .objectExpression, .property, .sequenceExpression, .spreadElement, .super,
   .taggedTemplateExpression, .thisExpression, .unaryExpression, .updateExpression,
   .yieldExpression, .comprehensionBlock, .comprehensionExpression, .generatorExpression,
   .arrayPattern, .assignmentPattern, .objectPattern, .restElement, .blockStatement,
   .breakStatement, .continueStatement, .debuggerStatement, .directiveStatement,
   .doWhileStatement, .emptyStatement, .expressionStatement, .forStatement, .forInStatement,
   .forOfStatement, .ifStatement, .labeledStatement, .returnStatement, .switchStatement,
   .switchCase, .throwStatement, .tryStatement, .catchClause, .whileStatement, .withStatement,
   .functionDeclaration, .variableDeclaration, .variableDeclarator, .classDeclaration, .classBody,
   .methodDefinition, .propertyDefinition, .staticBlock, .importDeclaration, .importSpecifier,
   .importDefaultSpecifier, .importNamespaceSpecifier, .importAttribute, .exportNamedDeclaration,
   .exportDefaultDeclaration, .exportAllDeclaration, .exportSpecifier, .moduleSpecifier]

/-- The tag by which a tree names the node type. -/
def name : NodeType → String
  | program => "Program"
  | identifier => "Identifier"
  | privateIdentifier => "PrivateIdentifier"
  | literal => "Literal"
  | templateLiteral => "TemplateLiteral"
  | templateElement => "TemplateElement"
  | arrayExpression => "ArrayExpression"
  | arrowFunctionExpression => "ArrowFunctionExpression"
  | assignmentExpression => "AssignmentExpression"
  | awaitExpression => "AwaitExpression"
  | binaryExpression => "BinaryExpression"
  | callExpression => "CallExpression"
  | chainExpression => "ChainExpression"
  | classExpression => "ClassExpression"
  | conditionalExpression => "ConditionalExpression"
  | functionExpression => "FunctionExpression"
  | importExpression => "ImportExpression"
  | logicalExpression => "LogicalExpression"
  | memberExpression => "MemberExpression"
  | metaProperty => "MetaProperty"
  | newExpression => "NewExpression"
  | objectExpression => "ObjectExpression"
  | property => "Property"
  | sequenceExpression => "SequenceExpression"
  | spreadElement => "SpreadElement"
  | super => "Super"
  | taggedTemplateExpression => "TaggedTemplateExpression"
  | thisExpression => "ThisExpression"
  | unaryExpression => "UnaryExpression"
  | updateExpression => "UpdateExpression"
  | yieldExpression => "YieldExpression"
  | comprehensionBlock => "ComprehensionBlock"
  | comprehensionExpression => "ComprehensionExpression"
  | generatorExpression => "GeneratorExpression"
  | arrayPattern => "ArrayPattern"
  | assignmentPattern => "AssignmentPattern"
  | objectPattern => "ObjectPattern"
  | restElement => "RestElement"
  | blockStatement => "BlockStatement"
  | breakStatement => "BreakStatement"
  | continueStatement => "ContinueStatement"
  | debuggerStatement => "DebuggerStatement"
  | directiveStatement => "DirectiveStatement"
  | doWhileStatement => "DoWhileStatement"
  | emptyStatement => "EmptyStatement"
  | expressionStatement => "ExpressionStatement"
  | forStatement => "ForStatement"
  | forInStatement => "ForInStatement"
  | forOfStatement => "ForOfStatement"
  | ifStatement => "IfStatement"
  | labeledStatement => "LabeledStatement"
  | returnStatement => "ReturnStatement"
  | switchStatement => "SwitchStatement"
  | switchCase => "SwitchCase"
  | throwStatement => "ThrowStatement"
  | tryStatement => "TryStatement"
  | catchClause => "CatchClause"
  | whileStatement => "WhileStatement"
  | withStatement => "WithStatement"
  | functionDeclaration => "FunctionDeclaration"
  | variableDeclaration => "VariableDeclaration"
  | variableDeclarator => "VariableDeclarator"
  | classDeclaration => "ClassDeclaration"
  | classBody => "ClassBody"
  | methodDefinition => "MethodDefinition"
  | propertyDefinition => "PropertyDefinition"
  | staticBlock => "StaticBlock"
  | importDeclaration => "ImportDeclaration"
  | importSpecifier => "ImportSpecifier"
  | importDefaultSpecifier => "ImportDefaultSpecifier"
  | importNamespaceSpecifier => "ImportNamespaceSpecifier"
  | importAttribute => "ImportAttribute"
  | exportNamedDeclaration => "ExportNamedDeclaration"
  | exportDefaultDeclaration => "ExportDefaultDeclaration"
  | exportAllDeclaration => "ExportAllDeclaration"
  | exportSpecifier => "ExportSpecifier"
  | moduleSpecifier => "ModuleSpecifier"

/-- The fields that hold child nodes, in the order in which a walk takes them. -/
def childKeys : NodeType → List String
  | program => ["body"]
  | identifier => []
  | privateIdentifier => []
  | literal => []
  | templateLiteral => ["quasis", "expressions"]
  | templateElement => []
  | arrayExpression => ["elements"]
  | arrowFunctionExpression => ["params", "body"]
  | assignmentExpression => ["left", "right"]
  | awaitExpression => ["argument"]
  | binaryExpression => ["left", "right"]
  | callExpression => ["callee", "arguments"]
  | chainExpression => ["expression"]
  | classExpression => ["id", "superClass", "body"]
  | conditionalExpression => ["test", "consequent", "alternate"]
  | functionExpression => ["id", "params", "body"]
  | importExpression => ["source", "options"]
  | logicalExpression => ["left", "right"]
  | memberExpression => ["object", "property"]
  | metaProperty => ["meta", "property"]
  | newExpression => ["callee", "arguments"]
  | objectExpression => ["properties"]
  | property => ["key", "value"]
  | sequenceExpression => ["expressions"]
  | spreadElement => ["argument"]
  | super => []
  | taggedTemplateExpression => ["tag", "quasi"]
  | thisExpression => []
  | unaryExpression => ["argument"]
  | updateExpression => ["argument"]
  | yieldExpression => ["argument"]
  | comprehensionBlock => ["left", "right"]
  | comprehensionExpression => ["blocks", "filter", "body"]
  | generatorExpression => ["blocks", "filter", "body"]
  | arrayPattern => ["elements"]
  | assignmentPattern => ["left", "right"]
  | objectPattern => ["properties"]
  | restElement => ["argument"]
  | blockStatement => ["body"]
  | breakStatement => ["label"]
  | continueStatement => ["label"]
  | debuggerStatement => []
  | directiveStatement => []
  | doWhileStatement => ["body", "test"]
  | emptyStatement => []
  | expressionStatement => ["expression"]
  | forStatement => ["init", "test", "update", "body"]
  | forInStatement => ["left", "right", "body"]
  | forOfStatement => ["left", "right", "body"]
  | ifStatement => ["test", "consequent", "alternate"]
  | labeledStatement => ["label", "body"]
  | returnStatement => ["argument"]
  | switchStatement => ["discriminant", "cases"]
  | switchCase => ["test", "consequent"]
  | throwStatement => ["argument"]
  | tryStatement => ["block", "handler", "finalizer"]
  | catchClause => ["param", "body"]
  | whileStatement => ["test", "body"]
  | withStatement => ["object", "body"]
  | functionDeclaration => ["id", "params", "body"]
  | variableDeclaration => ["declarations"]
  | variableDeclarator => ["id", "init"]
  | classDeclaration => ["id", "superClass", "body"]
  | classBody => ["body"]
  | methodDefinition => ["key", "value"]
  | propertyDefinition => ["key", "value"]
  | staticBlock => ["body"]
  | importDeclaration => ["specifiers", "source", "attributes"]
  | importSpecifier => ["imported", "local"]
  | importDefaultSpecifier => ["local"]
  | importNamespaceSpecifier => ["local"]
  | importAttribute => ["key", "value"]
  | exportNamedDeclaration => ["declaration", "specifiers", "source", "attributes"]
  | exportDefaultDeclaration => ["declaration"]
  | exportAllDeclaration => ["exported", "source", "attributes"]
  | exportSpecifier => ["exported", "local"]
  | moduleSpecifier => []

/-- Has the node type no child fields? -/
def isLeaf (t : NodeType) : Bool :=
  t.childKeys.isEmpty

/-- Is the node type a statement or a declaration? -/
def isStatement : NodeType → Bool
  | .blockStatement | .breakStatement | .continueStatement | .debuggerStatement
  | .directiveStatement | .doWhileStatement | .emptyStatement | .expressionStatement
  | .forStatement | .forInStatement | .forOfStatement | .ifStatement | .labeledStatement
  | .returnStatement | .switchStatement | .throwStatement | .tryStatement | .whileStatement
  | .withStatement | .functionDeclaration | .variableDeclaration | .classDeclaration => true
  | _ => false

/-- Is the node type an expression? -/
def isExpression : NodeType → Bool
  | .identifier | .literal | .templateLiteral | .arrayExpression | .arrowFunctionExpression
  | .assignmentExpression | .awaitExpression | .binaryExpression | .callExpression
  | .chainExpression | .classExpression | .conditionalExpression | .functionExpression
  | .importExpression | .logicalExpression | .memberExpression | .metaProperty
  | .newExpression | .objectExpression | .sequenceExpression | .taggedTemplateExpression
  | .thisExpression | .unaryExpression | .updateExpression | .yieldExpression
  | .comprehensionExpression | .generatorExpression => true
  | _ => false

/-- Is the node type a destructuring pattern and nothing else? -/
def isPattern : NodeType → Bool
  | .arrayPattern | .assignmentPattern | .objectPattern | .restElement => true
  | _ => false

/-- May the node type stand only at the top level of a module? -/
def isModuleItem : NodeType → Bool
  | .importDeclaration | .exportNamedDeclaration | .exportDefaultDeclaration
  | .exportAllDeclaration => true
  | _ => false

/-- The node type that a tag names. -/
def ofName? : String → Option NodeType
  | "Program" => some .program
  | "Identifier" => some .identifier
  | "PrivateIdentifier" => some .privateIdentifier
  | "Literal" => some .literal
  | "TemplateLiteral" => some .templateLiteral
  | "TemplateElement" => some .templateElement
  | "ArrayExpression" => some .arrayExpression
  | "ArrowFunctionExpression" => some .arrowFunctionExpression
  | "AssignmentExpression" => some .assignmentExpression
  | "AwaitExpression" => some .awaitExpression
  | "BinaryExpression" => some .binaryExpression
  | "CallExpression" => some .callExpression
  | "ChainExpression" => some .chainExpression
  | "ClassExpression" => some .classExpression
  | "ConditionalExpression" => some .conditionalExpression
  | "FunctionExpression" => some .functionExpression
  | "ImportExpression" => some .importExpression
  | "LogicalExpression" => some .logicalExpression
  | "MemberExpression" => some .memberExpression
  | "MetaProperty" => some .metaProperty
  | "NewExpression" => some .newExpression
  | "ObjectExpression" => some .objectExpression
  | "Property" => some .property
  | "SequenceExpression" => some .sequenceExpression
  | "SpreadElement" => some .spreadElement
  | "Super" => some .super
  | "TaggedTemplateExpression" => some .taggedTemplateExpression
  | "ThisExpression" => some .thisExpression
  | "UnaryExpression" => some .unaryExpression
  | "UpdateExpression" => some .updateExpression
  | "YieldExpression" => some .yieldExpression
  | "ComprehensionBlock" => some .comprehensionBlock
  | "ComprehensionExpression" => some .comprehensionExpression
  | "GeneratorExpression" => some .generatorExpression
  | "ArrayPattern" => some .arrayPattern
  | "AssignmentPattern" => some .assignmentPattern
  | "ObjectPattern" => some .objectPattern
  | "RestElement" => some .restElement
  | "BlockStatement" => some .blockStatement
  | "BreakStatement" => some .breakStatement
  | "ContinueStatement" => some .continueStatement
  | "DebuggerStatement" => some .debuggerStatement
  | "DirectiveStatement" => some .directiveStatement
  | "DoWhileStatement" => some .doWhileStatement
  | "EmptyStatement" => some .emptyStatement
  | "ExpressionStatement" => some .expressionStatement
  | "ForStatement" => some .forStatement
  | "ForInStatement" => some .forInStatement
  | "ForOfStatement" => some .forOfStatement
  | "IfStatement" => some .ifStatement
  | "LabeledStatement" => some .labeledStatement
  | "ReturnStatement" => some .returnStatement
  | "SwitchStatement" => some .switchStatement
  | "SwitchCase" => some .switchCase
  | "ThrowStatement" => some .throwStatement
  | "TryStatement" => some .tryStatement
  | "CatchClause" => some .catchClause
  | "WhileStatement" => some .whileStatement
  | "WithStatement" => some .withStatement
  | "FunctionDeclaration" => some .functionDeclaration
  | "VariableDeclaration" => some .variableDeclaration
  | "VariableDeclarator" => some .variableDeclarator
  | "ClassDeclaration" => some .classDeclaration
  | "ClassBody" => some .classBody
  | "MethodDefinition" => some .methodDefinition
  | "PropertyDefinition" => some .propertyDefinition
  | "StaticBlock" => some .staticBlock
  | "ImportDeclaration" => some .importDeclaration
  | "ImportSpecifier" => some .importSpecifier
  | "ImportDefaultSpecifier" => some .importDefaultSpecifier
  | "ImportNamespaceSpecifier" => some .importNamespaceSpecifier
  | "ImportAttribute" => some .importAttribute
  | "ExportNamedDeclaration" => some .exportNamedDeclaration
  | "ExportDefaultDeclaration" => some .exportDefaultDeclaration
  | "ExportAllDeclaration" => some .exportAllDeclaration
  | "ExportSpecifier" => some .exportSpecifier
  | "ModuleSpecifier" => some .moduleSpecifier
  | _ => none

/-- The place of a node type in the order of declaration, from zero. -/
def position (t : NodeType) : Nat :=
  all.idxOf t

/-- The error of looking up a name that is no node type. -/
def unknownMessage (name : String) : String :=
  "unknown node type `" ++ name ++ "`"

/-- Sorts node types by declaration; equal ones are all kept. -/
def sort (types : List NodeType) : List NodeType :=
  types.mergeSort fun a b => a.position ≤ b.position

theorem mem_all (t : NodeType) : t ∈ all := by
  cases t <;> decide

theorem nodup_all : all.Nodup := by
  decide

theorem ofName?_name (t : NodeType) : ofName? t.name = some t := by
  cases t <;> decide

theorem name_of_ofName? {name : String} {t : NodeType} (h : ofName? name = some t) :
    t.name = name := by
  rw [ofName?.eq_def] at h
  -- one case for each row of the table, and one for all other texts
  split at h
  all_goals cases h
  all_goals rfl

/-- Looking up a tag is the inverse of naming a node type: the two tables agree. -/
theorem ofName?_eq_some_iff {name : String} {t : NodeType} : ofName? name = some t ↔ t.name = name := by
  constructor
  · exact name_of_ofName?
  · rintro rfl
    exact ofName?_name t

end NodeType

end SyntaxWalk
