/-!
# Paths

A path is a text whose segments are separated by slashes; it is absolute if it starts with one. Empty
segments and single dots name no step, except for a dot that a relative path starts with. The parent
of a path is the text in front of its last step.
-/

namespace AccountPool.Path

/-- The segments of a path, empty ones included. -/
def segments (path : String) : List String :=
  (path.toList.splitOn '/').map String.ofList

/-- The path starts at the root. -/
def isAbsolute (path : String) : Bool :=
  path.startsWith "/"

/-- A path below another one; an absolute path replaces it. -/
def join (folder path : String) : String :=
  if isAbsolute path || folder.isEmpty then path
  else if folder.endsWith "/" then folder ++ path
  else folder ++ "/" ++ path

/-- A segment that names no step. -/
def isIdle (segment : String) : Bool :=
  segment = "" || segment = "."

/-- Segments without idle ones at the end. -/
def trimIdle (segments : List String) : List String :=
  (segments.reverse.dropWhile isIdle).reverse

/-- The steps of a relative path, whose first segment is a step unless it is empty, without idle
segments at the end. -/
def trimRelative : List String → List String
  | "" :: rest => trimIdle ("" :: rest)
  | first :: rest => first :: trimIdle rest
  | [] => []

/-- The path in front of the last step, if there is a step. -/
def parent? (path : String) : Option String :=
  match segments path with
  | "" :: rest =>
      match trimIdle rest with
      | [] => none
      | steps => some ("/" ++ "/".intercalate (trimIdle steps.dropLast))
  | first =>
      match trimRelative first with
      | [] => none
      | steps => some ("/".intercalate (trimRelative steps.dropLast))

/-- The parents of a path that still name a step below the root, nearest first, after the path
itself. -/
def lineage (path : String) : List String :=
  go (segments path).length path
where
  /-- At most `bound` paths; each has fewer segments than the one before. -/
  go : Nat → String → List String
    | 0, _ => []
    | bound + 1, path =>
        if path.isEmpty then []
        else
          path :: (match parent? path with
            | some parent => go bound parent
            | none => [])

end AccountPool.Path
