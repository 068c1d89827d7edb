import DefTable.Text.Alphanumeric

/-!
# Qualifiers

A qualifier is the beginning of a path that need not be written where the names behind it are known. It is removed from
one path (`strip`), or from each path in a type that begins with it (`stripEach`), where a match inside a longer path
stays.
-/

namespace DefTable.Qualifier

open Text

def continuesName (c : Char) : Bool :=
  isAlphanumeric c || c = '_'

/-- A path without the qualifier that it begins with. -/
def strip (qualifier path : List Char) : List Char :=
  if qualifier.isPrefixOf path then path.drop qualifier.length else path

theorem strip_append (qualifier path : List Char) : strip qualifier (qualifier ++ path) = path := by
  simp [strip]

/-- Whether a match belongs to a longer path, by the characters since the match before, the last one first, and the last
character that was written up to then. -/
def insidePath (between : List Char) (written : Option Char) : Bool :=
  [':', ':'].isPrefixOf between || (between.head?.or written).any continuesName

/-- The rest of a type without the qualifier of each path that begins with it, behind the characters since the match
before and the last one that was written up to then. -/
def stripRest (q : Char) (qs : List Char) (between : List Char) (written : Option Char) : List Char → List Char
  | [] => []
  | c :: cs =>
    if (q :: qs).isPrefixOf (c :: cs) then
      if insidePath between written then
        q :: qs ++ stripRest q qs [] (q :: qs).getLast? (cs.drop qs.length)
      else stripRest q qs [] (between.head?.or written) (cs.drop qs.length)
    else c :: stripRest q qs (c :: between) written cs
termination_by cs => cs.length
decreasing_by
  all_goals simp only [List.length_drop, List.length_cons]; omega

/-- A type without the qualifier of each path that begins with it. -/
def stripEach : List Char → List Char → List Char
  | [], type => type
  | q :: qs, type => stripRest q qs [] none type

/-- What follows the last two colons of a path, if there are any. -/
def behindColons? : List Char → Option (List Char)
  | [] => none
  | c :: cs => (behindColons? cs).or (if [':', ':'].isPrefixOf (c :: cs) then some cs.tail else none)

def lastSegment (path : String) : String :=
  String.ofList ((behindColons? path.toList).getD path.toList)

end DefTable.Qualifier
