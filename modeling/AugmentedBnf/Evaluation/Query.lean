import AugmentedBnf.Document.Json
import AugmentedBnf.Document.JsonReader
import AugmentedBnf.Evaluation.Node

/-! # Queries on trees

A query names up to three things that a node must have. It is given in JSON notation, as a
record with optional fields or as a list of their values.
-/
namespace AugmentedBnf

/-- What a node must have; what is missing is not asked for. -/
structure Query where
  kind : Option Expression.Kind
  path : Option (List Text)
  name : Option Text
  deriving DecidableEq

namespace Query

/-- The query that every node satisfies. -/
def any : Query := ⟨none, none, none⟩

/-- Whether a node satisfies a query. Names are compared up to case. -/
def holds (query : Query) (node : Node) : Bool :=
  (query.kind.all fun kind => node.kind == kind) &&
  (query.path.all fun names => node.path.matchesSegments names) &&
  (query.name.all fun name => node.path.tail?.any fun tail => Text.sameName tail name)

/-- A kind by its name, or as a record of its name and nothing. -/
def kindOf? : Document → Option Expression.Kind
  | .text name => Expression.Kind.ofName? (String.ofList name)
  | .record [(name, .null)] => Expression.Kind.ofName? (String.ofList name)
  | _ => none

/-- A text. -/
def textOf? : Document → Option Text
  | .text value => some value
  | _ => none

/-- A list of texts. -/
def textsOf? : Document → Option (List Text)
  | .list items => items.mapM textOf?
  | _ => none

/-- A value that may be missing. -/
def orNull {α : Type} (read : Document → Option α) : Document → Option (Option α)
  | .null => some none
  | document => (read document).map some

/-- The query with one more field of a record; a field that is unknown is refused. -/
def withField (query : Query) (key : Text) (value : Document) : Option Query :=
  if key = "kind".toList then (orNull kindOf? value).map fun kind => { query with kind }
  else if key = "path".toList then (orNull textsOf? value).map fun path => { query with path }
  else if key = "name".toList then (orNull textOf? value).map fun name => { query with name }
  else none

/-- The query of a record, if no key is repeated. -/
def ofFields? (fields : List (Text × Document)) : Option Query :=
  if (fields.map (·.1)).Nodup then
    fields.foldlM (fun query (key, value) => query.withField key value) any
  else none

/-- The query that lists the values of its fields; those at the end may be missing. -/
def ofItems? (items : List Document) : Option Query :=
  if items.length ≤ 3 then
    ofFields? (["kind".toList, "path".toList, "name".toList].zip items)
  else none

/-- The query of a document. -/
def ofDocument? : Document → Option Query
  | .record fields => ofFields? fields
  | .list items => ofItems? items
  | _ => none

/-- The query that a text spells in JSON notation. -/
def ofJson? (t : Text) : Option Query := (Document.ofJson? t).bind ofDocument?

/-- A query as a document. -/
def document (query : Query) : Document :=
  .ofFields [
    ("kind", .ofOption (fun kind => .ofName kind.name) query.kind),
    ("path", .ofOption (fun names => .list (names.map .text)) query.path),
    ("name", .ofOption .text query.name)]

end Query

namespace Node

mutual
/-- The nodes of a tree that satisfy a query, parents before children. -/
def filter (query : Query) : Node → List Node
  | ⟨cursor, kind, outcome, children⟩ =>
    let below := filterAll query children
    let node : Node := ⟨cursor, kind, outcome, children⟩
    if query.holds node then node :: below else below

/-- The nodes of some trees that satisfy a query. -/
def filterAll (query : Query) : List Node → List Node
  | [] => []
  | node :: rest => filter query node ++ filterAll query rest
end

mutual
/-- The first node of a tree that satisfies a query, parents before children. -/
def find? (query : Query) : Node → Option Node
  | ⟨cursor, kind, outcome, children⟩ =>
    let node : Node := ⟨cursor, kind, outcome, children⟩
    if query.holds node then some node else findAny? query children

/-- The first node of some trees that satisfies a query. -/
def findAny? (query : Query) : List Node → Option Node
  | [] => none
  | node :: rest =>
    match find? query node with
    | some found => some found
    | none => findAny? query rest
end

end Node

end AugmentedBnf
