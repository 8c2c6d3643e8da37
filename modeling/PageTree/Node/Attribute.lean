/-
  PageTree/Node/Attribute.lean
  ============================
  **Attributes of elements.**

  An attribute value is a primitive, structured data, a callback, or a value
  that is still to be awaited.  The attributes of an element form a map in the
  order of insertion; two reserved keys are carried along but never written.
-/
import PageTree.Callback.Basic
import PageTree.Json.Printer
import PageTree.OrderedMap

namespace PageTree

inductive AttrValue where
  | string (s : String)
  | number (x : Float)
  | bool (b : Bool)
  | null
  | undefined
  | json (v : Json)
  | callback (f : Callback)
  /-- A value that becomes available later. -/
  | pending (result : AttrValue)
deriving Inhabited

namespace AttrValue

/-- Whether the value is still to be awaited. -/
def isPending : AttrValue → Bool
  | pending _ => true
  | _ => false

/-- The value once everything has been awaited. -/
def settle : AttrValue → AttrValue
  | pending v => settle v
  | v => v

/-- The value as a handler sees it: what is pending counts as undefined. -/
def snapshot : AttrValue → AttrValue
  | pending _ => undefined
  | v => v

/-- Whether the value leaves its attribute out. -/
def isOmitted : AttrValue → Bool
  | bool false | null | undefined | pending _ => true
  | _ => false

/-- The text of the value in an assignment, not yet escaped. -/
def text : AttrValue → String
  | string s => s
  | number x => Number.text .script x
  | bool b => if b then "true" else "false"
  | null => "null"
  | undefined | pending _ => "undefined"
  | json (.string s) => s
  | json v => v.compact
  | callback f => f.expression

/-- The value as structured data, if it has such a form. -/
def json? : AttrValue → Option Json
  | string s => some (.string s)
  | number x => some (((Json.Numeral.ofFloat? x).map Json.number).getD .null)
  | bool b => some (.bool b)
  | null => some .null
  | json v => some v
  | undefined | callback _ | pending _ => none

def string? : AttrValue → Option String
  | string s => some s
  | _ => none

def callback? : AttrValue → Option Callback
  | callback f => some f
  | _ => none

theorem isPending_settle (v : AttrValue) : v.settle.isPending = false := by
  induction v with
  | pending v ih => exact ih
  | _ => rfl

theorem settle_of_not_pending {v : AttrValue} (h : v.isPending = false) : v.settle = v := by
  cases v <;> first | rfl | simp [isPending] at h

end AttrValue

abbrev Attributes := OrderedMap AttrValue

namespace Attributes

/-- Keys that are carried on elements but never written. -/
def reserved : List String := ["children", "props"]

/-- The keys that are written, in order. -/
def writtenKeys (attrs : Attributes) : List String :=
  attrs.keys.filter fun key => !reserved.contains key

/-- Awaits the value under a key, in place. -/
def resolve (attrs : Attributes) (key : String) : Attributes := attrs.modify key (·.settle)

/-- Awaits every value that is written, in order. -/
def resolveAll (attrs : Attributes) : Attributes := attrs.writtenKeys.foldl resolve attrs

/-- The text of the `id` attribute, if it is set and written. -/
def id? (attrs : Attributes) : Option String :=
  ((attrs.get? "id").filter (!·.isOmitted)).map (·.text)

/-- The attributes that have a form as structured data, as an object, without
    `except` and the reserved keys. -/
def toJson (attrs : Attributes) (except : String) : Json :=
  .ofFields (attrs.entries.filterMap fun (key, value) =>
    if key == except || reserved.contains key then none
    else value.json?.map fun v => (key, v))

end Attributes

end PageTree
