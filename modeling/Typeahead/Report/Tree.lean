/-
# Trees, tokens and faults as JSON

What is reported of tokens, highlighted lines and syntax trees. A node is written
with its range and the name of its kind before its fields; how the value of a
number is written is up to the caller.

Key definitions: `Token.toJson`, `HighlightSpan.toJson`, `Node.toJson`.
-/
import Typeahead.Report.Json
import Typeahead.Token.Highlight
import Typeahead.Tree.Node

namespace Typeahead

open Json (ofOption ofList)

/-- A token, without what is known about its surroundings. -/
def Token.toJson (t : Token) : Json :=
  .object [("kind", .str t.kind.name), ("value", .str t.text), ("start", .nat t.start),
    ("end", .nat t.stop)]

/-- A highlighted span. -/
def HighlightSpan.toJson (s : HighlightSpan) : Json :=
  .object [("category", .str s.category.name), ("kind", .str s.kind.name),
    ("start", .nat s.start), ("end", .nat s.stop)]

/-- A range. -/
def TextRange.toJson (r : TextRange) : Json :=
  .object [("start", .nat r.start), ("end", .nat r.stop)]

section
variable (number : Binary64 → Json)

mutual
/-- A node, with `number` to write the values of numbers. -/
def Node.toJson : Node → Json
  | ⟨range, kind⟩ =>
    .object (("span", range.toJson) :: ("type", .str kind.name) :: kind.fields)

/-- The fields of a node. -/
def NodeKind.fields : NodeKind → List (String × Json)
  | .program body => [("body", .array (nodesToJson body))]
  | .identifier name => [("name", .str name)]
  | .stringLiteral value => [("value", .str value)]
  | .numericLiteral value raw => [("value", number value), ("raw", .str raw)]
  | .bigIntLiteral raw => [("raw", .str raw)]
  | .booleanLiteral value => [("value", .bool value)]
  | .nullLiteral => []
  | .templateLiteral raw => [("raw", .str raw)]
  | .arrayLiteral elements => [("elements", .array (nodesToJson elements))]
  | .objectLiteral properties => [("properties", .array (nodesToJson properties))]
  | .property key value computed shorthand method =>
    [("key", key.toJson), ("value", value.toJson), ("computed", .bool computed),
      ("shorthand", .bool shorthand), ("method", .bool method)]
  | .spread argument => [("argument", argument.toJson)]
  | .this => []
  | .super => []
  | .member object property computed optional =>
    [("object", object.toJson), ("property", property.toJson), ("computed", .bool computed),
      ("optional", .bool optional)]
  | .call callee arguments optional =>
    [("callee", callee.toJson), ("arguments", .array (nodesToJson arguments)),
      ("optional", .bool optional)]
  | .new callee arguments =>
    [("callee", callee.toJson), ("arguments", .array (nodesToJson arguments))]
  | .binary operator left right =>
    [("operator", .str operator.name), ("left", left.toJson), ("right", right.toJson)]
  | .logical operator left right =>
    [("operator", .str operator.name), ("left", left.toJson), ("right", right.toJson)]
  | .unary operator argument =>
    [("operator", .str operator.name), ("argument", argument.toJson)]
  | .update operator beforeOperand argument =>
    [("operator", .str operator.name), ("prefix", .bool beforeOperand),
      ("argument", argument.toJson)]
  | .conditional test consequent alternate =>
    [("test", test.toJson), ("consequent", consequent.toJson), ("alternate", alternate.toJson)]
  | .assignment operator target value =>
    [("operator", .str operator.name), ("target", target.toJson), ("value", value.toJson)]
  | .sequence expressions => [("expressions", .array (nodesToJson expressions))]
  | .parenthesized expression => [("expression", expression.toJson)]
  | .arrowFunction params body isAsync =>
    [("params", .array (nodesToJson params)), ("body", body.toJson), ("is_async", .bool isAsync)]
  | .parameter name pattern fallback isRest =>
    [("name", .str name), ("pattern", nodeOrNull pattern), ("default", nodeOrNull fallback),
      ("rest", .bool isRest)]
  | .functionExpression parts => functionFields parts
  | .classExpression parts => classFields parts
  | .methodMember key kind isStatic value =>
    [("key", .str key), ("kind", .str kind.name), ("is_static", .bool isStatic),
      ("value", value.toJson)]
  | .fieldMember key value isStatic =>
    [("key", .str key), ("value", nodeOrNull value), ("is_static", .bool isStatic)]
  | .functionDeclaration parts => functionFields parts
  | .classDeclaration parts => classFields parts
  | .variableDeclaration kind declarations =>
    [("kind", .str kind.name), ("declarations", .array (nodesToJson declarations))]
  | .variableDeclarator target init =>
    [("target", target.toJson), ("init", nodeOrNull init)]
  | .expressionStatement expression => [("expression", expression.toJson)]
  | .return argument => [("argument", nodeOrNull argument)]
  | .block body => [("body", .array (nodesToJson body))]
  | .if test consequent alternate =>
    [("test", test.toJson), ("consequent", consequent.toJson), ("alternate", nodeOrNull alternate)]
  | .while test body => [("test", test.toJson), ("body", body.toJson)]
  | .doWhile body test => [("body", body.toJson), ("test", test.toJson)]
  | .for init test update body =>
    [("init", nodeOrNull init), ("test", nodeOrNull test), ("update", nodeOrNull update),
      ("body", body.toJson)]
  | .forInOf left right body isOf =>
    [("left", left.toJson), ("right", right.toJson), ("body", body.toJson), ("is_of", .bool isOf)]
  | .switch discriminant cases =>
    [("discriminant", discriminant.toJson), ("cases", .array (nodesToJson cases))]
  | .switchCase test consequent =>
    [("test", nodeOrNull test), ("consequent", .array (nodesToJson consequent))]
  | .try block handler finalizer =>
    [("block", block.toJson), ("handler", nodeOrNull handler), ("finalizer", nodeOrNull finalizer)]
  | .catchClause param body => [("param", ofOption .str param), ("body", body.toJson)]
  | .throw argument => [("argument", argument.toJson)]
  | .break => []
  | .continue => []
  | .empty => []

/-- The fields of a function. -/
def functionFields : FunctionParts Node → List (String × Json)
  | ⟨name, params, body, isAsync⟩ =>
    [("name", ofOption .str name), ("params", .array (nodesToJson params)),
      ("body", body.toJson), ("is_async", .bool isAsync)]

/-- The fields of a class. -/
def classFields : ClassParts Node → List (String × Json)
  | ⟨name, superclass, members, bodyRange⟩ =>
    [("name", ofOption .str name), ("superclass", nodeOrNull superclass),
      ("members", .array (nodesToJson members)), ("body_span", bodyRange.toJson)]

/-- Nodes, each as JSON. -/
def nodesToJson : List Node → List Json
  | [] => []
  | node :: nodes => node.toJson :: nodesToJson nodes

/-- A node or `null`. -/
def nodeOrNull : Option Node → Json
  | none => .null
  | some node => node.toJson
end

end
end Typeahead
