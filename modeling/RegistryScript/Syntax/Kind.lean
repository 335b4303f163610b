import RegistryScript.Text.CodePoint

/-! # Kinds of syntax nodes

* `Kind`: what a node of a script's syntax tree is. Kinds that no rule mentions are kept by name.
* `Kind.name`, `Kind.ofName`: the name of a kind and the kind of a name.
* The classes of kinds the rules speak of: functions, classes, declarations, patterns.
-/

namespace RegistryScript
set_option autoImplicit false

inductive Kind
  -- The whole script, its errors, comments and first line.
  | program | hashBangLine | comment | error
  -- Statements.
  | importStatement | exportStatement | lexicalDeclaration | variableDeclaration
  | functionDeclaration | generatorFunctionDeclaration | classDeclaration | expressionStatement
  | ifStatement | elseClause | forStatement | forInStatement | whileStatement | doStatement
  | switchStatement | switchBody | switchCase | switchDefault | tryStatement | catchClause
  | finallyClause | throwStatement | returnStatement | breakStatement | continueStatement
  | labeledStatement | statementIdentifier | statementBlock | emptyStatement | debuggerStatement
  | withStatement | variableDeclarator
  -- Parts of import and export statements.
  | importClause | namespaceImport | namedImports | importSpecifier | importAttribute
  | exportClause | exportSpecifier | namespaceExport
  -- Patterns.
  | objectPattern | arrayPattern | pairPattern | restPattern | assignmentPattern
  | objectAssignmentPattern | shorthandPropertyIdentifierPattern
  -- Functions and classes.
  | functionExpression | function | generatorFunction | arrowFunction | methodDefinition
  | formalParameters | classExpression | classHeritage | classBody | classStaticBlock
  | fieldDefinition
  -- Names and literals.
  | identifier | propertyIdentifier | privatePropertyIdentifier | shorthandPropertyIdentifier
  | computedPropertyName | undefined | thisExpression | superExpression | trueLiteral
  | falseLiteral | nullLiteral | number | string | stringFragment | escapeSequence
  | templateString | templateSubstitution | regex
  -- Expressions.
  | importCallee | metaProperty | object | array | pair | spreadElement | parenthesizedExpression
  | sequenceExpression | callExpression | arguments | newExpression | memberExpression
  | subscriptExpression | unaryExpression | updateExpression | binaryExpression
  | ternaryExpression | assignmentExpression | augmentedAssignmentExpression | awaitExpression
  | yieldExpression
  -- Keywords that mark a form of export.
  | exportKeyword | defaultKeyword
  | other (name : Text)
deriving DecidableEq, Repr, Inhabited

namespace Kind

/-! ## Names -/

def name : Kind → Text
  | .program => "program"
  | .hashBangLine => "hash_bang_line"
  | .comment => "comment"
  | .error => "ERROR"
  | .importStatement => "import_statement"
  | .exportStatement => "export_statement"
  | .lexicalDeclaration => "lexical_declaration"
  | .variableDeclaration => "variable_declaration"
  | .functionDeclaration => "function_declaration"
  | .generatorFunctionDeclaration => "generator_function_declaration"
  | .classDeclaration => "class_declaration"
  | .expressionStatement => "expression_statement"
  | .ifStatement => "if_statement"
  | .elseClause => "else_clause"
  | .forStatement => "for_statement"
  | .forInStatement => "for_in_statement"
  | .whileStatement => "while_statement"
  | .doStatement => "do_statement"
  | .switchStatement => "switch_statement"
  | .switchBody => "switch_body"
  | .switchCase => "switch_case"
  | .switchDefault => "switch_default"
  | .tryStatement => "try_statement"
  | .catchClause => "catch_clause"
  | .finallyClause => "finally_clause"
  | .throwStatement => "throw_statement"
  | .returnStatement => "return_statement"
  | .breakStatement => "break_statement"
  | .continueStatement => "continue_statement"
  | .labeledStatement => "labeled_statement"
  | .statementIdentifier => "statement_identifier"
  | .statementBlock => "statement_block"
  | .emptyStatement => "empty_statement"
  | .debuggerStatement => "debugger_statement"
  | .withStatement => "with_statement"
  | .variableDeclarator => "variable_declarator"
  | .importClause => "import_clause"
  | .namespaceImport => "namespace_import"
  | .namedImports => "named_imports"
  | .importSpecifier => "import_specifier"
  | .importAttribute => "import_attribute"
  | .exportClause => "export_clause"
  | .exportSpecifier => "export_specifier"
  | .namespaceExport => "namespace_export"
  | .objectPattern => "object_pattern"
  | .arrayPattern => "array_pattern"
  | .pairPattern => "pair_pattern"
  | .restPattern => "rest_pattern"
  | .assignmentPattern => "assignment_pattern"
  | .objectAssignmentPattern => "object_assignment_pattern"
  | .shorthandPropertyIdentifierPattern => "shorthand_property_identifier_pattern"
  | .functionExpression => "function_expression"
  | .function => "function"
  | .generatorFunction => "generator_function"
  | .arrowFunction => "arrow_function"
  | .methodDefinition => "method_definition"
  | .formalParameters => "formal_parameters"
  | .classExpression => "class"
  | .classHeritage => "class_heritage"
  | .classBody => "class_body"
  | .classStaticBlock => "class_static_block"
  | .fieldDefinition => "field_definition"
  | .identifier => "identifier"
  | .propertyIdentifier => "property_identifier"
  | .privatePropertyIdentifier => "private_property_identifier"
  | .shorthandPropertyIdentifier => "shorthand_property_identifier"
  | .computedPropertyName => "computed_property_name"
  | .undefined => "undefined"
  | .thisExpression => "this"
  | .superExpression => "super"
  | .trueLiteral => "true"
  | .falseLiteral => "false"
  | .nullLiteral => "null"
  | .number => "number"
  | .string => "string"
  | .stringFragment => "string_fragment"
  | .escapeSequence => "escape_sequence"
  | .templateString => "template_string"
  | .templateSubstitution => "template_substitution"
  | .regex => "regex"
  | .importCallee => "import"
  | .metaProperty => "meta_property"
  | .object => "object"
  | .array => "array"
  | .pair => "pair"
  | .spreadElement => "spread_element"
  | .parenthesizedExpression => "parenthesized_expression"
  | .sequenceExpression => "sequence_expression"
  | .callExpression => "call_expression"
  | .arguments => "arguments"
  | .newExpression => "new_expression"
  | .memberExpression => "member_expression"
  | .subscriptExpression => "subscript_expression"
  | .unaryExpression => "unary_expression"
  | .updateExpression => "update_expression"
  | .binaryExpression => "binary_expression"
  | .ternaryExpression => "ternary_expression"
  | .assignmentExpression => "assignment_expression"
  | .augmentedAssignmentExpression => "augmented_assignment_expression"
  | .awaitExpression => "await_expression"
  | .yieldExpression => "yield_expression"
  | .exportKeyword => "export"
  | .defaultKeyword => "default"
  | .other name => name

def known : List Kind :=
  [.program, .hashBangLine, .comment, .error, .importStatement, .exportStatement,
   .lexicalDeclaration, .variableDeclaration, .functionDeclaration, .generatorFunctionDeclaration,
   .classDeclaration, .expressionStatement, .ifStatement, .elseClause, .forStatement,
   .forInStatement, .whileStatement, .doStatement, .switchStatement, .switchBody, .switchCase,
   .switchDefault, .tryStatement, .catchClause, .finallyClause, .throwStatement, .returnStatement,
   .breakStatement, .continueStatement, .labeledStatement, .statementIdentifier, .statementBlock,
   .emptyStatement, .debuggerStatement, .withStatement, .variableDeclarator, .importClause,
   .namespaceImport, .namedImports, .importSpecifier, .importAttribute, .exportClause,
   .exportSpecifier, .namespaceExport, .objectPattern, .arrayPattern, .pairPattern, .restPattern,
   .assignmentPattern, .objectAssignmentPattern, .shorthandPropertyIdentifierPattern,
   .functionExpression, .function, .generatorFunction, .arrowFunction, .methodDefinition,
   .formalParameters, .classExpression, .classHeritage, .classBody, .classStaticBlock,
   .fieldDefinition, .identifier, .propertyIdentifier, .privatePropertyIdentifier,
   .shorthandPropertyIdentifier, .computedPropertyName, .undefined, .thisExpression,
   .superExpression, .trueLiteral, .falseLiteral, .nullLiteral, .number, .string, .stringFragment,
   .escapeSequence, .templateString, .templateSubstitution, .regex, .importCallee, .metaProperty,
   .object, .array, .pair, .spreadElement, .parenthesizedExpression, .sequenceExpression,
   .callExpression, .arguments, .newExpression, .memberExpression, .subscriptExpression,
   .unaryExpression, .updateExpression, .binaryExpression, .ternaryExpression,
   .assignmentExpression, .augmentedAssignmentExpression, .awaitExpression, .yieldExpression,
   .exportKeyword, .defaultKeyword]

def names : List (Text × Kind) := known.map fun k => (k.name, k)

def ofName (name : Text) : Kind :=
  ((names.find? fun e => e.1 = name).map Prod.snd).getD (.other name)

/-! ## Classes of kinds -/

/-- A function of any form, which is a scope of its own for parameters and variables. -/
def isFunction : Kind → Bool
  | .functionDeclaration | .generatorFunctionDeclaration | .functionExpression | .function
  | .generatorFunction | .arrowFunction | .methodDefinition => true
  | _ => false

def isClass : Kind → Bool
  | .classDeclaration | .classExpression => true
  | _ => false

def isNamedDeclaration : Kind → Bool
  | .functionDeclaration | .generatorFunctionDeclaration | .classDeclaration => true
  | _ => false

def isVariableDeclaration : Kind → Bool
  | .lexicalDeclaration | .variableDeclaration => true
  | _ => false

/-- A function expression, whose own name is visible inside it. -/
def isFunctionExpression : Kind → Bool
  | .functionExpression | .function | .generatorFunction => true
  | _ => false

def isPattern : Kind → Bool
  | .objectPattern | .arrayPattern | .pairPattern | .restPattern | .assignmentPattern
  | .objectAssignmentPattern => true
  | _ => false

def isNoStatement : Kind → Bool
  | .comment | .hashBangLine => true
  | _ => false

end Kind

end RegistryScript
