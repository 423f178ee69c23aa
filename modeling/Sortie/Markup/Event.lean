/-! The events of a marked-up document. -/
namespace Sortie.Markup

/-- Tags, text with its references unresolved, and literal text. Comments, instructions and
document types leave no event, but part the text around them. -/
inductive Event where
  | opening (name : String)
  | closing (name : String)
  | empty (name : String)
  | text (raw : String)
  | literal (raw : String)
  deriving DecidableEq, Repr

/-- The part of a name after its prefix. -/
def localName (name : String) : String :=
  match name.toList.dropWhile (· != ':') with
  | _ :: rest => String.ofList rest
  | [] => name

/-- Why the reading of a document stopped. -/
inductive Fault where
  | unknownMarkup
  | unclosedInstruction
  | unclosedComment
  | unclosedDoctype
  | unclosedLiteral
  | unclosedTag
  | mismatched (expected found : String)
  | unopened (found : String)
  | namelessDoctype
  deriving DecidableEq, Repr

def Fault.message : Fault → String
  | unknownMarkup => "syntax error: unknown or missed symbol in markup"
  | unclosedInstruction =>
    "syntax error: processing instruction or xml declaration not closed: " ++
      "`?>` not found before end of input"
  | unclosedComment => "syntax error: comment not closed: `-->` not found before end of input"
  | unclosedDoctype => "syntax error: DOCTYPE not closed: `>` not found before end of input"
  | unclosedLiteral => "syntax error: CDATA not closed: `]]>` not found before end of input"
  | unclosedTag => "syntax error: tag not closed: `>` not found before end of input"
  | mismatched expected found =>
    "ill-formed document: expected `</" ++ expected ++ ">`, but `</" ++ found ++ ">` was found"
  | unopened found =>
    "ill-formed document: close tag `</" ++ found ++ ">` does not match any open tag"
  | namelessDoctype =>
    "ill-formed document: `<!DOCTYPE>` declaration does not contain a name of a document type"

/-- The events of a document up to its end or to a fault, with the bytes read before the fault. -/
structure Stream where
  events : List Event
  fault : Option (Nat × Fault)
  deriving DecidableEq, Repr

end Sortie.Markup
