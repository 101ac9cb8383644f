/-!
# Kinds of syntax nodes

The grammar of Ruby names every node.  The kinds that documentation depends on have a constructor;
every other kind keeps its grammar name and is treated as an expression of unknown type.  The same
holds for the field names that tell a node's children apart.
-/

namespace RubyDoc.Syntax

/-- Literals, whose type is known from their spelling. -/
inductive Literal where
  | integer | float
  | string | chainedString | heredoc
  | simpleSymbol | delimitedSymbol | keySymbol
  | true | false | nil
  | array | stringArray | symbolArray
  | hash | regex
  deriving DecidableEq, Repr

/-- The kind of a node. -/
inductive Kind where
  /-- The whole file. -/
  | program
  /-- Sequences of statements. -/
  | body | thenBody | elseBody | beginBlock | parentheses
  /-- Two-armed conditionals. -/
  | ifExpr | unlessExpr | elsifExpr | ternary
  /-- Statements under a trailing condition. -/
  | ifModifier | unlessModifier
  /-- Many-armed conditionals and their arms. -/
  | caseExpr | caseMatch | whenArm | inArm
  /-- Exception handling. -/
  | rescue | rescueModifier | ensure
  | returnExpr | argumentList
  /-- Definitions and their containers. -/
  | method | singletonMethod | singletonClass | classDef | moduleDef
  | call | identifier | constant | scopeResolution | selfExpr | unary
  | literal (l : Literal)
  | stringContent
  /-- Formal parameters. -/
  | optionalParameter | keywordParameter | splatParameter | hashSplatParameter | blockParameter
  | assignment | comment
  /-- Text that the grammar could not read. -/
  | error
  | other (name : String)
  deriving DecidableEq, Repr

namespace Kind

/-- The grammar's names. -/
def names : List (String × Kind) :=
  [("program", program),
    ("body_statement", body), ("then", thenBody), ("else", elseBody), ("begin", beginBlock),
    ("parenthesized_statements", parentheses),
    ("if", ifExpr), ("unless", unlessExpr), ("elsif", elsifExpr), ("conditional", ternary),
    ("if_modifier", ifModifier), ("unless_modifier", unlessModifier),
    ("case", caseExpr), ("case_match", caseMatch), ("when", whenArm), ("in_clause", inArm),
    ("rescue", rescue), ("rescue_modifier", rescueModifier), ("ensure", ensure),
    ("return", returnExpr), ("argument_list", argumentList),
    ("method", method), ("singleton_method", singletonMethod),
    ("singleton_class", singletonClass), ("class", classDef), ("module", moduleDef),
    ("call", call), ("identifier", identifier), ("constant", constant),
    ("scope_resolution", scopeResolution), ("self", selfExpr), ("unary", unary),
    ("integer", literal .integer), ("float", literal .float),
    ("string", literal .string), ("chained_string", literal .chainedString),
    ("heredoc_beginning", literal .heredoc),
    ("simple_symbol", literal .simpleSymbol), ("delimited_symbol", literal .delimitedSymbol),
    ("hash_key_symbol", literal .keySymbol),
    ("true", literal .true), ("false", literal .false), ("nil", literal .nil),
    ("array", literal .array), ("string_array", literal .stringArray),
    ("symbol_array", literal .symbolArray),
    ("hash", literal .hash), ("regex", literal .regex),
    ("string_content", stringContent),
    ("optional_parameter", optionalParameter), ("keyword_parameter", keywordParameter),
    ("splat_parameter", splatParameter), ("hash_splat_parameter", hashSplatParameter),
    ("block_parameter", blockParameter),
    ("assignment", assignment), ("comment", comment), ("ERROR", error)]

/-- The kind that the grammar calls `name`. -/
def ofName (name : String) : Kind :=
  (names.lookup name).getD (other name)

/-- What the grammar calls the kind. -/
def name : Kind → String
  | other name => name
  | kind => ((names.find? fun entry => entry.2 = kind).map Prod.fst).getD ""

end Kind

/-- The role of a child in its parent. -/
inductive Field where
  | name | parameters | superclass | object | value | body
  | receiver | method | arguments
  | operand | operator
  | exceptions | handler
  | consequence | alternative
  | scope | left | right
  | other (name : String)
  deriving DecidableEq, Repr

namespace Field

/-- The grammar's names of the fields. -/
def names : List (String × Field) :=
  [("name", name), ("parameters", parameters), ("superclass", superclass), ("object", object),
    ("value", value), ("body", body), ("receiver", receiver), ("method", method),
    ("arguments", arguments), ("operand", operand), ("operator", operator),
    ("exceptions", exceptions), ("handler", handler), ("consequence", consequence),
    ("alternative", alternative), ("scope", scope), ("left", left), ("right", right)]

/-- The field that the grammar calls `name`. -/
def ofName (name : String) : Field :=
  (names.lookup name).getD (other name)

end Field

end RubyDoc.Syntax
