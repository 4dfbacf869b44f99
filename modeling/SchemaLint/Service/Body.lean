import SchemaLint.Service

/-! The bodies of replies. -/

namespace SchemaLint
open SchemaLint.Text

def Json.record (fields : List (String × Json)) : Json :=
  .object (fields.map fun (name, value) => (ofChars name.toList, value))

def Json.ofChars (s : List Char) : Json :=
  .str (Text.ofChars s)

def Issue.toJson (i : Issue) : Json :=
  .record [("line", .int i.line), ("column", .int i.column), ("rule", .ofString i.rule.word),
    ("message", .ofString i.message), ("severity", .ofString i.severity.word)]

def Report.toJson (r : Report) : Json :=
  .record [("valid", .bool r.valid), ("errors", .list (r.errors.map Issue.toJson)),
    ("warnings", .list (r.warnings.map Issue.toJson)), ("info", .list (r.info.map Issue.toJson))]

def RuleDescription.toJson (d : RuleDescription) : Json :=
  .record [("name", .ofString d.name), ("rule", .ofString d.rule.word),
    ("description", .ofString d.description), ("severity", .ofString d.severity.word)]

def Options.toJson (o : Options) : Json :=
  .object (o.entries.map fun (name, value) => (name.spelling, value))

namespace Service

def Reply.body : Reply → Json
  | .report r => r.toJson
  | .formatted text => .record [("formatted", .ofChars text)]
  | .rules => .list (ruleCatalog.map RuleDescription.toJson)
  | .sample => .record [("content", .ofChars sampleSchema)]
  | .healthy => .record [("status", .ofString "ok")]
  | .refused why => .record [("detail", .ofString why.detail)]
  | .unrouted _ detail => .record [("detail", .ofString detail)]

end Service

end SchemaLint
