/-
  PageTree/Json/Basic.lean
  ========================
  **Structured data.**

  The values of attributes may be arbitrary structured data.  Objects keep their
  fields in a list; `insertField` keeps such a list sorted by name and free of
  repetitions, a later value replacing an earlier one.
-/
import PageTree.Json.Numeral

namespace PageTree

inductive Json where
  | null
  | bool (b : Bool)
  | number (n : Json.Numeral)
  | string (s : String)
  | array (items : List Json)
  | object (fields : List (String × Json))
deriving Inhabited

namespace Json

/-- Inserts a field into a sorted field list, replacing the value of an equal
    name. -/
def insertField {α : Type} (name : String) (value : α) : List (String × α) → List (String × α)
  | [] => [(name, value)]
  | (n, v) :: fs =>
    if name == n then (name, value) :: fs
    else if name < n then (name, value) :: (n, v) :: fs
    else (n, v) :: insertField name value fs

/-- The sorted field list of given fields, the last of equal names winning. -/
def sortFields {α : Type} (fields : List (String × α)) : List (String × α) :=
  fields.foldl (fun fs f => insertField f.1 f.2 fs) []

def ofFields (fields : List (String × Json)) : Json := .object (sortFields fields)

mutual

/-- The value with every object sorted and every number as it is written back;
    `none` if a number is out of range. -/
def normal? : Json → Option Json
  | .number n => n.normal?.map .number
  | .array items => (normalItems? items).map .array
  | .object fields => (normalFields? fields).map ofFields
  | v => some v

/-- `normal?` for the items of an array. -/
def normalItems? : List Json → Option (List Json)
  | [] => some []
  | v :: vs => do return (← normal? v) :: (← normalItems? vs)

/-- `normal?` for the fields of an object. -/
def normalFields? : List (String × Json) → Option (List (String × Json))
  | [] => some []
  | (name, v) :: fs => do return (name, ← normal? v) :: (← normalFields? fs)

end

/-- The value of a field of an object. -/
def field? (name : String) : Json → Option Json
  | .object fields => fields.lookup name
  | _ => none

def ofNat (n : Nat) : Json := .number (.ofInt n)

end Json

end PageTree
