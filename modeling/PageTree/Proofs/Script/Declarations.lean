/-
  PageTree/Proofs/Script/Declarations.lean
  ========================================
  **What the script of a relocated callback declares.**

  A relocated callback runs in a function that first declares `props`, the data of the
  element's other attributes, and then every parameter of the callback after the first,
  each on a line of its own.  Data and string literals are written without line breaks,
  so the declarations can be read off the lines of the script.  A parameter that is
  itself called `props` is declared like any other one, and then the name is declared
  twice.

    * `Json.newline_notMem_print`: the text of data is one line;
    * `Behaviour.topDeclarations_relocated`: the declarations and their values;
    * `Behaviour.declared_once_iff`: when the declared names are distinct.
-/
import PageTree.Proofs.Json.Numerals
import PageTree.Proofs.Scanning
import PageTree.Proofs.Script.Source

namespace PageTree

open Text

/-! ### Texts on one line -/

namespace Json

theorem newline_notMem_quoteChar (c : Char) : '\n' ∉ quoteChar c := by
  have digits : ∀ n < 16, '\n' ≠ hexDigit n := by decide
  by_cases control : c.toNat < 32
  · have high := digits (c.toNat / 16) (by omega)
    have low := digits (c.toNat % 16) (by omega)
    unfold quoteChar
    split_ifs <;> simp [high, low]
  · unfold quoteChar
    split_ifs <;> simp_all
    rintro rfl
    contradiction

theorem newline_notMem_quote (s : List Char) : '\n' ∉ quote s := by
  simp [quote, newline_notMem_quoteChar]

theorem Numeral.newline_notMem (n : Numeral) : '\n' ∉ n.lexeme :=
  fun mem => absurd (n.isNumberChar_of_mem mem) (by decide)

mutual

theorem newline_notMem_print (v : Json) : '\n' ∉ print v := by
  cases v with
  | null => decide
  | bool b => cases b <;> decide
  | number n => exact n.newline_notMem
  | string s => exact newline_notMem_quote s.toList
  | array items =>
    cases items with
    | nil => decide
    | cons v vs => simp [print, newline_notMem_print v, newline_notMem_printItems vs]
  | object fields =>
    cases fields with
    | nil => decide
    | cons f fs =>
      simp [print, newline_notMem_quote, newline_notMem_print f.2, newline_notMem_printFields fs]

theorem newline_notMem_printItems (vs : List Json) : '\n' ∉ printItems vs := by
  cases vs with
  | nil => decide
  | cons v vs => simp [printItems, newline_notMem_print v, newline_notMem_printItems vs]

theorem newline_notMem_printFields (fs : List (String × Json)) : '\n' ∉ printFields fs := by
  cases fs with
  | nil => decide
  | cons f fs =>
    simp [printFields, newline_notMem_quote, newline_notMem_print f.2,
      newline_notMem_printFields fs]

end

end Json

namespace Escape

theorem of_mem_guardClosing {c : Char} {s : List Char} (mem : c ∈ guardClosing s) :
    c ∈ s ∨ c = '\\' := by
  induction s using guardClosing.induct with
  | case1 cs ih =>
    rw [guardClosing] at mem
    simp only [List.mem_cons] at mem ⊢
    tauto
  | case2 d cs other ih =>
    rw [guardClosing.eq_2 _ _ other] at mem
    simp only [List.mem_cons] at mem ⊢
    tauto
  | case3 => cases mem

theorem newline_notMem_scriptData (v : Json) : '\n' ∉ (scriptData v.compact).toList := by
  intro mem
  rw [scriptData, String.toList_ofList] at mem
  rcases of_mem_guardClosing mem with own | slash
  · rw [Json.compact, String.toList_ofList] at own
    exact Json.newline_notMem_print v own
  · cases slash

theorem newline_notMem_stringLiteral (s : String) : '\n' ∉ (stringLiteral s).toList := by
  intro mem
  rw [stringLiteral, String.toList_ofList] at mem
  rcases of_mem_guardClosing mem with own | slash
  · exact Json.newline_notMem_quote _ own
  · cases slash

end Escape

/-! ### Reading declarations -/

namespace Behaviour

/-- The name and the value of a line that declares a single name. -/
def declared? (line : List Char) : Option (String × String) := do
  let (name, rest) ← cutAt [' '] (← dropWord "const ".toList line)
  let value ← dropWord "= ".toList rest
  if value.getLast? = some ';' then some (String.ofList name, String.ofList value.dropLast)
  else none

/-- The declarations at the front of some lines, up to a line that is none. -/
def declarationsOf : List (List Char) → List (String × String)
  | [] => []
  | line :: lines =>
    match declared? line with
    | some d => d :: declarationsOf lines
    | none => []

/-- The declarations at the top of the function that begins on the first line of a
    script, each with its value. -/
def topDeclarations (script : String) : List (String × String) :=
  declarationsOf (script.toList.splitOn '\n').tail

theorem declared?_const {name : String} (single : ' ' ∉ name.toList) (value : String) :
    declared? ("const " ++ name ++ " = " ++ value ++ ";").toList = some (name, value) := by
  have line : ("const " ++ name ++ " = " ++ value ++ ";").toList
      = "const ".toList ++ (name.toList ++ ' ' :: ("= ".toList ++ (value.toList ++ [';']))) := by
    simp
  have word := dropWord_eq_some_iff.2 line
  have assigned : dropWord "= ".toList ("= ".toList ++ (value.toList ++ [';']))
      = some (value.toList ++ [';']) := dropWord_eq_some_iff.2 rfl
  rw [declared?, word, Option.bind_eq_bind, Option.bind_some, cutAt_singleton single,
    Option.bind_eq_bind, Option.bind_some]
  dsimp only
  rw [assigned]
  simp

/-- The declarations of a text that begins with one on a line of its own. -/
theorem declarationsOf_const {name value : String} (single : ' ' ∉ name.toList)
    (oneLine : '\n' ∉ name.toList ∧ '\n' ∉ value.toList) (rest : List Char) :
    declarationsOf
        ((("const " ++ name ++ " = " ++ value ++ ";").toList ++ '\n' :: rest).splitOn '\n')
      = (name, value) :: declarationsOf (rest.splitOn '\n') := by
  have whole : '\n' ∉ ("const " ++ name ++ " = " ++ value ++ ";").toList := by
    simp [oneLine]
  rw [List.splitOn_append_cons_self_of_not_mem whole, declarationsOf, declared?_const single]

/-! ### The declarations for a relocated callback -/

/-- A parameter that is a name, such as an identifier: it is neither taken apart by
    brackets nor has a default. -/
def IsParameterName (param : String) : Prop := ∀ c ∈ param.toList, c ∉ " \n=\x7b[".toList

-- The search of instances would run through every character, not through those of the name.
instance (param : String) : Decidable (IsParameterName param) :=
  List.decidableBAll (fun c => c ∉ " \n=\x7b[".toList) param.toList

theorem isParameterName_of_isIdentifier {param : String} (h : IsIdentifier param) :
    IsParameterName param := by
  intro c mem other
  have none_is : ∀ d ∈ " \n=\x7b[".toList, isIdentPart d = false :=
    forall_mem_of_all (by decide)
  cases (none_is c other).symm.trans (h.parts c mem)

/-- What a parameter is bound to. -/
def propOf (param : String) : String := "props[" ++ Escape.stringLiteral param ++ "]"

theorem declaration_of_name {param : String} (name : IsParameterName param) :
    declaration param = "const " ++ param ++ " = " ++ propOf param ++ ";" := by
  have whole : cutAt ['='] param.toList = none := by
    cases cut : cutAt ['='] param.toList with
    | none => rfl
    | some halves =>
      obtain ⟨before, after⟩ := halves
      have inside : '=' ∈ param.toList := by simp [eq_of_cutAt cut]
      exact absurd (by decide) (name '=' inside)
  have unbracketed (c : Char) (first : param.toList.head? = some c) : c ≠ '\x7b' ∧ c ≠ '[' := by
    have allowed := name c (List.mem_of_head? first)
    simp at allowed
    tauto
  unfold declaration
  split
  · next first => exact absurd rfl (unbracketed _ first).1
  · next first => exact absurd rfl (unbracketed _ first).2
  · rw [whole, ← String.toList_inj]
    simp [propOf]

/-- By induction on the parameters. -/
theorem declarationsOf_params {params : List String} (names : ∀ p ∈ params, IsParameterName p)
    (rest : List Char) :
    declarationsOf (((String.join (params.map fun p => declaration p ++ "\n")).toList
        ++ rest).splitOn '\n')
      = params.map (fun p => (p, propOf p)) ++ declarationsOf (rest.splitOn '\n') := by
  induction params with
  | nil => rfl
  | cons param params ih =>
    rw [List.forall_mem_cons] at names
    have single : ' ' ∉ param.toList := fun mem => absurd (by decide) (names.1 ' ' mem)
    have oneLine : '\n' ∉ param.toList := fun mem => absurd (by decide) (names.1 '\n' mem)
    have value : '\n' ∉ (propOf param).toList := by
      simp [propOf, Escape.newline_notMem_stringLiteral]
    have lines : (String.join ((param :: params).map fun p => declaration p ++ "\n")).toList ++ rest
        = ("const " ++ param ++ " = " ++ propOf param ++ ";").toList ++ '\n' ::
          ((String.join (params.map fun p => declaration p ++ "\n")).toList ++ rest) := by
      rw [List.map_cons, String.join_cons, declaration_of_name names.1]
      simp [String.toList_append]
    rw [lines, declarationsOf_const single ⟨oneLine, value⟩, ih names.2]
    rfl

/-- The script of a relocated callback by its first lines. -/
theorem exists_toList_relocated (f : Callback) (data : String) (target : Target) :
    ∃ called : List Char, (relocated f data target).toList = "(function()\x7b".toList ++ '\n' ::
      (("const " ++ "props" ++ " = " ++ Escape.scriptData data ++ ";").toList ++ '\n' ::
        ((String.join (f.params.tail.map fun p => declaration p ++ "\n")).toList
          ++ ("try \x7b".toList ++ '\n' :: called))) := by
  have opening : "(function()\x7b\nconst props = ".toList
      = "(function()\x7b".toList ++ '\n' :: ("const " ++ "props" ++ " = ").toList := by decide
  have closing : ";\n".toList = ";".toList ++ ['\n'] := by decide
  have trying : "try \x7b\n".toList = "try \x7b".toList ++ ['\n'] := by decide
  refine ⟨(relocatedCall f target).toList
    ++ ((if f.isAsync then ".catch(console.error);\n" else ";\n").toList
      ++ "\x7d catch (error) \x7b\nconsole.error(error);\n\x7d\n\x7d)();".toList), ?_⟩
  unfold relocated
  generalize (if f.isAsync then ".catch(console.error);\n" else ";\n") = caught
  simp only [-String.reduceAppend, String.toList_append, opening, closing, trying,
    List.append_assoc, List.cons_append, List.nil_append]

/-- The declarations in the script of a relocated callback. -/
theorem topDeclarations_relocated {f : Callback} (names : ∀ p ∈ f.params.tail, IsParameterName p)
    (data : Json) (target : Target) :
    topDeclarations (relocated f data.compact target)
      = ("props", Escape.scriptData data.compact) :: f.params.tail.map fun p => (p, propOf p) := by
  obtain ⟨called, text⟩ := exists_toList_relocated f data.compact target
  have tried : declarationsOf (("try \x7b".toList ++ '\n' :: called).splitOn '\n') = [] := by
    rw [List.splitOn_append_cons_self_of_not_mem (by decide)]
    rfl
  rw [topDeclarations, text, List.splitOn_append_cons_self_of_not_mem (by decide), List.tail_cons,
    declarationsOf_const (by decide) ⟨by decide, Escape.newline_notMem_scriptData data⟩,
    declarationsOf_params names, tried, List.append_nil]

/-- **The names that a relocated callback declares**, where its parameters are names,
    whatever the data, the target and the body are: `props` and every parameter after the
    first, in this order and each once, unless one of these parameters is itself called
    `props`.  Where the parameters are distinct, that is the only way for a name to be
    declared twice. -/
theorem declared_once_iff {f : Callback} (names : ∀ p ∈ f.params, IsParameterName p)
    (distinct : f.params.Nodup) (data : Json) (target : Target) :
    (topDeclarations (relocated f data.compact target)).map (·.1) = "props" :: f.params.tail ∧
      (((topDeclarations (relocated f data.compact target)).map (·.1)).Nodup ↔
        "props" ∉ f.params.tail) := by
  have declared : (topDeclarations (relocated f data.compact target)).map (·.1)
      = "props" :: f.params.tail := by
    rw [topDeclarations_relocated fun p mem => names p (List.mem_of_mem_tail mem),
      List.map_cons, List.map_map]
    exact congrArg _ (List.map_id _)
  refine ⟨declared, ?_⟩
  rw [declared, List.nodup_cons]
  exact and_iff_left distinct.tail

theorem start_and_label_declared_once :
    (∀ p ∈ ["el", "start", "label"], IsParameterName p) ∧ ["el", "start", "label"].Nodup ∧
      (topDeclarations (relocated
        ⟨["el", "start", "label"], "el.textContent = label + start;", true⟩
        (Json.object [("start", .null), ("label", .string "a\nb")]).compact (.byId "x"))).map (·.1)
          = ["props", "start", "label"] ∧
      ["props", "start", "label"].Nodup := by
  have names : ∀ p ∈ ["el", "start", "label"], IsParameterName p := by decide
  have distinct : ["el", "start", "label"].Nodup := by decide
  obtain ⟨declared, once⟩ := declared_once_iff
    (f := ⟨["el", "start", "label"], "el.textContent = label + start;", true⟩) names distinct
    (.object [("start", .null), ("label", .string "a\nb")]) (.byId "x")
  refine ⟨names, distinct, declared, ?_⟩
  rw [declared] at once
  exact once.2 (by decide)

/-- Two distinct identifiers as the parameters, and yet a name is declared twice: such a
    script does not parse. -/
theorem props_declared_twice :
    let f : Callback := ⟨["el", "props"], "el.textContent = props.label;", false⟩
    (∀ p ∈ f.params, IsIdentifier p) ∧ f.params.Nodup ∧
      ¬ ((topDeclarations (relocated f (Json.object [("label", .string "hi")]).compact
          (.byId "x"))).map (·.1)).Nodup := by
  intro f
  have names : ∀ p ∈ f.params, IsIdentifier p := by
    simp only [f, List.forall_mem_cons]
    exact ⟨⟨⟨'e', ['l'], rfl, by decide⟩, forall_mem_of_all (by decide)⟩,
      ⟨⟨'p', "rops".toList, rfl, by decide⟩, forall_mem_of_all (by decide)⟩, by simp⟩
  refine ⟨names, by decide, ?_⟩
  rw [topDeclarations_relocated fun p mem =>
    isParameterName_of_isIdentifier (names p (List.mem_of_mem_tail mem))]
  simp [f]

end Behaviour

end PageTree
