import AccountPool.Store.Backend

/-!
# Contents of databases

What a database file holds: the rows, and which attributes have an index. An index on an attribute is
made when the attribute is looked up for the first time, and stays.
-/

namespace AccountPool

/-- What a database file holds. -/
structure DatabaseContent where
  store : Store := {}
  /-- The attributes with an index. -/
  indexes : List String := []
  /-- Changes are written to a log. -/
  logged : Bool := true

/-- The attribute whose index a request needs. -/
def Request.index? : Request → Option String
  | query table name _ =>
      if table.isQueryable name && name ≠ table.partition && Backend.isPlainName name then some name
      else none
  | _ => none

/-- A request that gives a reply has changed rows. -/
def Request.changesRows : (request : Request) → request.Reply → Bool
  | put .., _ => true
  | update .., _ => true
  | delete .., reply => reply.isSome
  | get .., _ => false
  | query .., _ => false
  | page .., _ => false

namespace DatabaseContent

/-- The index that a request needs is there. -/
def isIndexedFor (content : DatabaseContent) (request : Request) : Bool :=
  request.index?.all content.indexes.contains

/-- The content with the index that a request needs. -/
def indexedFor (content : DatabaseContent) (request : Request) : DatabaseContent :=
  if content.isIndexedFor request then content
  else { content with indexes := request.index?.toList ++ content.indexes }

/-- Answer a request. -/
def perform : Engine DatabaseContent := fun content request =>
  let (answer, store) := Backend.database.perform content.store request
  (answer, { content.indexedFor request with store })

/-- Answer a request, unless that would change anything. -/
def consult : Engine DatabaseContent := fun content request =>
  if content.isIndexedFor request then
    match Backend.database.perform content.store request with
    | (.ok reply, _) =>
        (if request.changesRows reply then .error (.engine .readOnly) else .ok reply, content)
    | (.error error, _) => (.error error, content)
  else (.error (.engine .readOnly), content)

end DatabaseContent

end AccountPool
