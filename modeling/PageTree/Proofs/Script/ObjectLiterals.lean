/-
  PageTree/Proofs/Script/ObjectLiterals.lean
  ==========================================
  **What data means where it stands in a script.**

  The text of data is a literal of the script language too, and it denotes the same
  value, but for one name: in an object literal, `__proto__: v` defines no property of
  that name.  If `v` is an object, an array or `null`, it becomes the prototype of the
  new object, and any other `v` is dropped.  So a literal denotes the data exactly if no
  object in it, at any depth, has a field of this name.

    * `Json.evaluated_eq_ofJson_iff`: data whose literal denotes it;
    * `Behaviour.propsLiteral?_relocated`: the literal in the script of a callback;
    * `Behaviour.props_denote_iff`: strings, data and props as scripts see them.
-/
import PageTree.Proofs.Json.ReadBack
import PageTree.Proofs.Script.Guarded

namespace PageTree

/-- A value of the script language, as far as data and literals denote any.  Numbers
    stand as they are written.  An object has its own properties, by the names of its
    fields in their order, and the standard prototype unless another one is given. -/
inductive ScriptValue where
  | null
  | bool (b : Bool)
  | number (n : Json.Numeral)
  | string (s : String)
  | array (items : List ScriptValue)
  | object (prototype : Option ScriptValue) (own : List (String × ScriptValue))

namespace ScriptValue

mutual

/-- The value that data stands for: every field of an object is a property. -/
def ofJson : Json → ScriptValue
  | .null => .null
  | .bool b => .bool b
  | .number n => .number n
  | .string s => .string s
  | .array items => .array (ofItems items)
  | .object fields => .object none (ofFields fields)

/-- `ofJson` for the items of an array. -/
def ofItems : List Json → List ScriptValue
  | [] => []
  | v :: vs => ofJson v :: ofItems vs

/-- `ofJson` for the fields of an object. -/
def ofFields : List (String × Json) → List (String × ScriptValue)
  | [] => []
  | (name, v) :: fs => (name, ofJson v) :: ofFields fs

end

theorem length_ofFields (fs : List (String × Json)) : (ofFields fs).length = fs.length := by
  induction fs with
  | nil => rfl
  | cons f fs ih => rw [ofFields, List.length_cons, List.length_cons, ih]

end ScriptValue

namespace Json

/-- The name that an object literal takes for the prototype. -/
def prototypeName : String := "__proto__"

/-- Whether the value can be a prototype. -/
def isPrototype : Json → Bool
  | .null | .array _ | .object _ => true
  | _ => false

mutual

/-- The value that the text of data denotes as a literal of a script. -/
def evaluated : Json → ScriptValue
  | .null => .null
  | .bool b => .bool b
  | .number n => .number n
  | .string s => .string s
  | .array items => .array (evaluatedItems items)
  | .object fields => .object (evaluatedPrototype fields) (evaluatedFields fields)

/-- `evaluated` for the items of an array. -/
def evaluatedItems : List Json → List ScriptValue
  | [] => []
  | v :: vs => evaluated v :: evaluatedItems vs

/-- The properties that the fields of an object literal define. -/
def evaluatedFields : List (String × Json) → List (String × ScriptValue)
  | [] => []
  | (name, v) :: fs =>
    if name = prototypeName then evaluatedFields fs
    else (name, evaluated v) :: evaluatedFields fs

/-- The prototype that the fields of an object literal set. -/
def evaluatedPrototype : List (String × Json) → Option ScriptValue
  | [] => none
  | (name, v) :: fs =>
    if name = prototypeName ∧ v.isPrototype then some (evaluated v) else evaluatedPrototype fs

end

mutual

/-- The names of the fields of all objects in the data, at any depth. -/
def names : Json → List String
  | .array items => namesOfItems items
  | .object fields => namesOfFields fields
  | _ => []

/-- `names` for the items of an array. -/
def namesOfItems : List Json → List String
  | [] => []
  | v :: vs => names v ++ namesOfItems vs

/-- `names` for the fields of an object. -/
def namesOfFields : List (String × Json) → List String
  | [] => []
  | (name, v) :: fs => name :: (names v ++ namesOfFields fs)

end

theorem length_evaluatedFields_le (fs : List (String × Json)) :
    (evaluatedFields fs).length ≤ fs.length := by
  induction fs with
  | nil => exact Nat.le_refl 0
  | cons f fs ih =>
    rw [evaluatedFields, List.length_cons]
    split
    · omega
    · rw [List.length_cons]
      omega

/-- A field that defines no property is missing. -/
theorem evaluatedFields_ne_ofFields (v : Json) (fs : List (String × Json)) :
    evaluatedFields ((prototypeName, v) :: fs)
      ≠ ScriptValue.ofFields ((prototypeName, v) :: fs) := by
  intro same
  have count := congrArg List.length same
  rw [evaluatedFields, if_pos rfl, ScriptValue.length_ofFields, List.length_cons] at count
  have fewer := length_evaluatedFields_le fs
  omega

theorem evaluatedPrototype_eq_none {fs : List (String × Json)}
    (absent : prototypeName ∉ namesOfFields fs) : evaluatedPrototype fs = none := by
  induction fs with
  | nil => rfl
  | cons f fs ih =>
    rw [namesOfFields, List.mem_cons, List.mem_append, not_or, not_or] at absent
    rw [evaluatedPrototype, if_neg fun found => absent.1 found.1.symm, ih absent.2.2]

mutual

/-- **The text of data denotes the data** as a literal exactly if no object in it has a
    field that a literal takes for the prototype. -/
theorem evaluated_eq_ofJson_iff (v : Json) :
    evaluated v = .ofJson v ↔ prototypeName ∉ v.names := by
  cases v with
  | array items =>
    rw [evaluated, ScriptValue.ofJson, names, ← evaluatedItems_eq_iff items]
    exact ⟨ScriptValue.array.inj, congrArg _⟩
  | object fields =>
    rw [evaluated, ScriptValue.ofJson, names, ← evaluatedFields_eq_iff fields]
    refine ⟨fun same => (ScriptValue.object.inj same).2, fun same => ?_⟩
    rw [same, evaluatedPrototype_eq_none ((evaluatedFields_eq_iff fields).1 same)]
  | _ => simp [evaluated, ScriptValue.ofJson, names]

theorem evaluatedItems_eq_iff (vs : List Json) :
    evaluatedItems vs = ScriptValue.ofItems vs ↔ prototypeName ∉ namesOfItems vs := by
  cases vs with
  | nil => simp [evaluatedItems, ScriptValue.ofItems, namesOfItems]
  | cons v vs =>
    rw [evaluatedItems, ScriptValue.ofItems, namesOfItems, List.mem_append, not_or, List.cons.injEq,
      evaluated_eq_ofJson_iff v, evaluatedItems_eq_iff vs]

theorem evaluatedFields_eq_iff (fs : List (String × Json)) :
    evaluatedFields fs = ScriptValue.ofFields fs ↔ prototypeName ∉ namesOfFields fs := by
  cases fs with
  | nil => simp [evaluatedFields, ScriptValue.ofFields, namesOfFields]
  | cons f fs =>
    obtain ⟨name, v⟩ := f
    by_cases dropped : name = prototypeName
    · subst dropped
      exact iff_of_false (evaluatedFields_ne_ofFields v fs) (by simp [namesOfFields])
    · have other : prototypeName ≠ name := Ne.symm dropped
      rw [evaluatedFields, if_neg dropped, ScriptValue.ofFields, namesOfFields, List.cons.injEq,
        List.mem_cons, List.mem_append, not_or, not_or, evaluatedFields_eq_iff fs, Prod.mk.injEq,
        evaluated_eq_ofJson_iff v]
      tauto

end

end Json

/-! ### The props of a relocated callback -/

namespace Behaviour

/-- The literal that the script of a relocated callback declares as `props`. -/
def propsLiteral? (script : String) : Option Json := do
  let s ← CodeReader.word "(function()\x7b\nconst props = " script.toList
  let (v, s) ← Json.readValue (s.length + 1) s
  let _ ← CodeReader.word ";\n" s
  return v

/-- The literal reads as the data that was handed to the behaviour. -/
theorem propsLiteral?_relocated (f : Callback) (v : Json) (target : Target) :
    propsLiteral? (relocated f v.compact target) = some v := by
  obtain ⟨rest, text⟩ : ∃ rest : List Char, (relocated f v.compact target).toList
      = "(function()\x7b\nconst props = ".toList
        ++ ((Escape.scriptData v.compact).toList ++ (";\n".toList ++ rest)) := by
    unfold relocated
    simp only [-String.reduceAppend, String.toList_append, List.append_assoc]
    exact ⟨_, rfl⟩
  have ends : Json.EndsNumber (";\n".toList ++ rest) := Json.endsNumber_cons (by decide) _
  have long := CodeReader.length_le_guardClosing (Json.print v)
  rw [Json.toList_scriptData] at text
  rw [propsLiteral?, text, CodeReader.word_append, Option.bind_eq_bind, Option.bind_some,
    Json.readValue_guarded v (by rw [List.length_append]; omega) ends, Option.bind_eq_bind,
    Option.bind_some]
  dsimp only
  rw [CodeReader.word_append]
  rfl

/-- **Data in scripts is faithful.**  The guarded text of data, and the literal of a
    string, have no `</` in them and read as the data and as the string; and the literal
    that the script of a relocated callback declares as `props` denotes what the object of
    the other attributes denotes as a literal, which is this object itself exactly if
    nothing in it is called `__proto__`. -/
theorem props_denote_iff (v : Json) (s : String) (f : Callback) (attrs : Attributes)
    (key : String) (target : Target) :
    (Escape.Guarded (Escape.scriptData v.compact) ∧
      Json.read? (Escape.scriptData v.compact).toList = some v) ∧
    (Escape.Guarded (Escape.stringLiteral s) ∧
      ∀ rest, CodeReader.literal? ((Escape.stringLiteral s).toList ++ rest) = some (s, rest)) ∧
    let props := attrs.toJson key
    let script := (relocate f props.compact).statement target
    (propsLiteral? script).map Json.evaluated = some props.evaluated ∧
      (props.evaluated = .ofJson props ↔ Json.prototypeName ∉ props.names) := by
  refine ⟨⟨Escape.guarded_scriptData _, Json.read?_scriptData v⟩,
    ⟨Escape.guarded_stringLiteral s, CodeReader.literal?_append s⟩, ?_,
    Json.evaluated_eq_ofJson_iff _⟩
  rw [statement, propsLiteral?_relocated, Option.map_some]

/-- A callback that asks for an attribute by an unlucky name. -/
def captioned : Callback := ⟨["el", "__proto__"], "el.textContent = __proto__;", false⟩

/-- The data has the attribute, but the props that the callback sees do not. -/
theorem proto_attribute_lost :
    let attrs : Attributes :=
      .ofList [("id", .string "x"), ("__proto__", .string "y"), ("client", .callback captioned)]
    let props := attrs.toJson "client"
    let script := (relocate captioned props.compact).statement (.byId "x")
    props.field? "__proto__" = some (.string "y") ∧
      (propsLiteral? script).map Json.evaluated = some (.object none [("id", .string "x")]) ∧
      (propsLiteral? script).map Json.evaluated ≠ some (.ofJson props) := by
  intro attrs props script
  have data : props = .object [("__proto__", .string "y"), ("id", .string "x")] := rfl
  have denoted : (propsLiteral? script).map Json.evaluated
      = some (.object none [("id", .string "x")]) := by
    simp only [script]
    rw [statement, propsLiteral?_relocated, Option.map_some, data]
    rfl
  refine ⟨by rw [data]; rfl, denoted, ?_⟩
  rw [denoted, data]
  simp [ScriptValue.ofJson, ScriptValue.ofFields]

end Behaviour

end PageTree
