/-
  PageTree/Settings.lean
  ======================
  **Settings and their structured form.**

  Settings are read from structured data: an object gives fields by name, where
  unknown names are ignored, a list gives them by position and must not be
  longer than there are fields.  Fields that are not given take their defaults.
-/
import PageTree.ElementId
import PageTree.Json.Basic

namespace PageTree

namespace Settings

/-- The given value of the field with a name and a position. -/
def given (v : Json) (name : String) (position : Nat) : Option Json :=
  match v with
  | .object fields => fields.lookup name
  | .array items => items[position]?
  | _ => none

/-- Whether a value can give `count` fields. -/
def fits (v : Json) (count : Nat) : Bool :=
  match v with
  | .object _ => true
  | .array items => items.length ≤ count
  | _ => false

/-- A field, or its default if it is not given; `none` if it is given wrongly. -/
def read {α : Type} (f : Json → Option α) (default : α) (v : Json) (name : String)
    (position : Nat) : Option α :=
  match given v name position with
  | some x => f x
  | none => some default

def bool? : Json → Option Bool
  | .bool b => some b
  | _ => none

def string? : Json → Option String
  | .string s => some s
  | _ => none

end Settings

namespace IdAlphabet

def name : IdAlphabet → String
  | alphanumeric => "alphanumeric"
  | extended => "extended"

/-- The alphabet with a name. -/
def ofName? (s : String) : Option IdAlphabet :=
  [alphanumeric, extended].find? fun a => a.name == s

/-- An alphabet is given by its name, or by an object whose only field is the
    name without a value. -/
def ofJson? : Json → Option IdAlphabet
  | .string s => ofName? s
  | .object [(s, .null)] => ofName? s
  | _ => none

def toJson (a : IdAlphabet) : Json := .string a.name

end IdAlphabet

structure MarkupSettings where
  /-- Whether the markup is compacted. -/
  minify : Bool := false
  alphabet : IdAlphabet := .alphanumeric
deriving DecidableEq, Repr

namespace MarkupSettings

open Settings

/-- The settings given by structured data. -/
def ofJson? (v : Json) : Option MarkupSettings := do
  if !fits v 2 then none
  let minify ← read bool? false v "minify" 0
  let alphabet ← read IdAlphabet.ofJson? .alphanumeric v "id_alphabet" 1
  return { minify, alphabet }

def toJson (s : MarkupSettings) : Json :=
  .ofFields [("minify", .bool s.minify), ("id_alphabet", s.alphabet.toJson)]

end MarkupSettings

structure CodeSettings where
  /-- The variable of the root. -/
  rootName : String := "root"
  /-- The common beginning of the other variables. -/
  stem : String := "e"
  /-- The tag of the root, if it is an element. -/
  rootTag : String := "div"
  /-- Whether names are shortened by tables. -/
  minify : Bool := false
  /-- Whether the root is a fragment. -/
  asFragment : Bool := false
  /-- Whether the code is compacted. -/
  compact : Bool := false
  alphabet : IdAlphabet := .alphanumeric
deriving DecidableEq, Repr

namespace CodeSettings

open Settings

def ofJson? (v : Json) : Option CodeSettings := do
  if !fits v 7 then none
  let rootName ← read string? "root" v "root_variable_name" 0
  let stem ← read string? "e" v "variable_prefix" 1
  let rootTag ← read string? "div" v "root_tag" 2
  let minify ← read bool? false v "minify" 3
  let asFragment ← read bool? false v "as_fragment" 4
  let compact ← read bool? false v "compact" 5
  let alphabet ← read IdAlphabet.ofJson? .alphanumeric v "id_alphabet" 6
  return { rootName, stem, rootTag, minify, asFragment, compact, alphabet }

def toJson (s : CodeSettings) : Json :=
  .ofFields
    [("root_variable_name", .string s.rootName), ("variable_prefix", .string s.stem),
      ("root_tag", .string s.rootTag), ("minify", .bool s.minify),
      ("as_fragment", .bool s.asFragment), ("compact", .bool s.compact),
      ("id_alphabet", s.alphabet.toJson)]

end CodeSettings

structure RouterSettings where
  id : String := "main"
  /-- The element that routes are rendered into. -/
  container : String := "app"
  /-- Whether matches are remembered and components below the container kept. -/
  cache : Bool := false
deriving DecidableEq, Repr

namespace RouterSettings

open Settings

def ofJson? (v : Json) : Option RouterSettings := do
  if !fits v 3 then none
  let id ← read string? "main" v "id" 0
  let container ← read string? "app" v "container_id" 1
  let cache ← read bool? false v "cache" 2
  return { id, container, cache }

def toJson (s : RouterSettings) : Json :=
  .ofFields
    [("id", .string s.id), ("container_id", .string s.container), ("cache", .bool s.cache)]

end RouterSettings

end PageTree
