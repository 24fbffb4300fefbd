import CrossReference.Symbol.Kind
import CrossReference.Text.Blank
import CrossReference.Text.Identifier

/-!
# Query strings

A query names a type, function or constant (`App\Ui\Widget`), a function (`App\helper()`), or a
member (`App\Ui\Widget::render`). A member may say that it is a property (`Widget::$title`) or a
method (`Widget::render()`). Blanks around the parts and one leading separator are allowed. The
parts of the names are identifiers of a given alphabet.
-/

namespace CrossReference

/-- Why a query string is refused. -/
inductive QueryError where
  | empty
  | invalidName (name : String)
  | missingMember
deriving DecidableEq, Inhabited

/-- What a user is told about a refused query string. -/
def QueryError.message : QueryError → String
  | empty => "query is empty"
  | invalidName name => s!"`{name}` is not a valid name"
  | missingMember => "member name is missing"

/-- What a query string asks for, before the declarations are consulted. -/
inductive ParsedQuery where
  /-- A type, function or constant; the declarations tell which. -/
  | plain (name : String)
  | function (name : String)
  /-- A member; the kind is there if the string fixes it. -/
  | member (owner name : String) (kind : Option SymbolKind)
deriving DecidableEq, Inhabited

namespace ParsedQuery

/-- Reads a qualified name: identifiers between separators, after blanks and one separator at
most. -/
def readName (alphabet : Text.Alphabet) (raw : String) : Except QueryError String :=
  let trimmed := Text.trimBlanks raw
  let name := (Text.stripStart? (String.ofList [Name.separator]) trimmed).getD trimmed
  if trimmed = "" then
    .error .empty
  else if (Text.pieces Name.separator name.toList).all alphabet.isIdentifier then
    .ok name
  else
    .error (.invalidName raw)

/-- The name of a member without its marks, and the kind that they tell. -/
def readMarks (raw : String) : String × Option SymbolKind :=
  match Text.stripStart? "$" raw with
  | some name => (name, some .property)
  | none =>
    match Text.stripEnd? "()" raw with
    | some name => (name, some .method)
    | none => (raw, none)

/-- Reads what follows the member mark. The word `class` is no member. -/
def readMember (alphabet : Text.Alphabet) (owner raw : String) : Except QueryError ParsedQuery :=
  let (name, kind) := readMarks (Text.trimBlanks raw)
  if name = "" then
    .error .missingMember
  else if alphabet.isIdentifier name.toList && !Text.sameFolded name "class" then
    .ok (.member owner name kind)
  else
    .error (.invalidName name)

/-- Reads a query string. -/
def parse (alphabet : Text.Alphabet) (raw : String) : Except QueryError ParsedQuery :=
  let text := Text.trimBlanks raw
  if text = "" then
    .error .empty
  else
    match Text.splitFirst? Name.memberMark text with
    | some (before, after) =>
      match readName alphabet before with
      | .ok owner => readMember alphabet owner after
      | .error e => .error e
    | none =>
      match Text.stripEnd? "()" text with
      | some rest => (readName alphabet rest).map .function
      | none => (readName alphabet text).map .plain

end ParsedQuery
end CrossReference
