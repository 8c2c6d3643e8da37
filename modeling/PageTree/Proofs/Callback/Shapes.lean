/-
  PageTree/Proofs/Callback/Shapes.lean
  ====================================
  **Callables of all shapes are recovered alike.**

  An arrow function, a `function` and a method with the same parameter list and the
  same block come to the same callback.  The shapes are tried one after another, so it
  matters that none takes a text of another one, whatever its names, parameters and
  statements are: after the name of a `function` or of a method there is no arrow, and
  a method whose name begins with `function` is either no `function` or is read as the
  same one.

  Whether a callable is asynchronous is not read off its shape but off the first five
  characters of its text, and so a method whose name begins with `async` counts as
  asynchronous.

    * `ofSource_shape`: what is recovered once a shape with a block is recognised;
    * `ofSource_source`: the shapes side by side;
    * `ofSource_expression`: a callback that is printed and recovered.
-/
import PageTree.Proofs.Callback.Parameters
import PageTree.Proofs.Identifiers
import PageTree.Proofs.Scanning
import PageTree.Proofs.Script.Source

namespace PageTree.Callback

open PageTree.Text

/-! ### Ends of texts -/

theorem trimStart_of_visible {c : Char} (visible : isBlank c = false) (cs : List Char) :
    trimStart (c :: cs) = c :: cs := by
  simp [trimStart, visible]

theorem trimStart_blanks {gap : List Char} (blank : gap.all isBlank = true) (s : List Char) :
    trimStart (gap ++ s) = trimStart s := by
  rw [trimStart, List.dropWhile_append_of_pos (List.all_eq_true.1 blank), trimStart]

theorem trimEnd_concat {c : Char} (visible : isBlank c = false) (s : List Char) :
    trimEnd (s ++ [c]) = s ++ [c] := by
  rw [trimEnd, dropTrailing_append_singleton, visible, if_neg Bool.false_ne_true]

/-- A text begins with neither a blank nor an arrow. -/
def Begins (s : List Char) : Prop := ∃ d more, s = d :: more ∧ isBlank d = false ∧ d ≠ '='

theorem Begins.trimStart_eq {s : List Char} (begins : Begins s) : trimStart s = s := by
  obtain ⟨d, more, rfl, visible, -⟩ := begins
  exact trimStart_of_visible visible more

/-! ### A list and a block -/

/-- Statements in braces. -/
def blockText (body : List Char) : List Char := '\x7b' :: body ++ ['\x7d']

/-- A parameter list in parentheses and, after a gap, a block. -/
def listAndBlock (params gap body : List Char) : List Char :=
  '(' :: (params ++ ')' :: (gap ++ blockText body))

theorem begins_listAndBlock (params gap body : List Char) :
    Begins (trimStart (listAndBlock params gap body)) :=
  ⟨'(', _, rfl, by decide, by decide⟩

theorem getLast?_blockText (body : List Char) : (blockText body).getLast? = some '\x7d' := by
  rw [blockText, List.getLast?_concat]

theorem trimEnd_blockText (body : List Char) : trimEnd (blockText body) = blockText body :=
  trimEnd_concat (by decide) ('\x7b' :: body)

theorem dropTerminator_blockText (body : List Char) :
    dropTerminator (blockText body) = blockText body := by
  rw [dropTerminator, trimEnd_blockText, getLast?_blockText]
  rfl

theorem isBlock_blockText (body : List Char) : isBlock (blockText body) = true := by
  rw [isBlock, getLast?_blockText]
  rfl

/-- A block without its braces. -/
theorem finishBody_blockText {body : List Char} (trimmed : trim body = body) :
    finishBody (blockText body) = body := by
  have whole : trim (blockText body) = blockText body := by
    rw [trim, blockText, List.cons_append, trimStart_of_visible (by decide), ← List.cons_append,
      ← blockText, trimEnd_blockText]
  have braces : dropBraces (blockText body) = body := by
    simp [dropBraces, blockText, dropWord]
  have opened : ((blockText body).head? != some '\x7b') = false := rfl
  have nonempty : (blockText body).isEmpty = false := rfl
  rw [finishBody, whole]
  simp only [nonempty, opened, Bool.false_and, Bool.false_eq_true, if_false, braces, trimmed]

/-! ### Names in front -/

section

variable {name : String} (named : IsIdentifier name)

include named

theorem begins_name (rest : List Char) : Begins (name.toList ++ rest) := by
  obtain ⟨d, ds, spelled, start⟩ := named.head
  refine ⟨d, ds ++ rest, ?_, isBlank_of_isIdentPart (isIdentPart_of_isIdentStart start), ?_⟩
  · rw [spelled, List.cons_append]
  · rintro rfl
    exact absurd start (by decide)

theorem takeName_append {c : Char} (ends : isIdentPart c = false) (rest : List Char) :
    takeName (name.toList ++ c :: rest) = some (name.toList, c :: rest) := by
  have whole : identifier (name.toList ++ c :: rest) = name.toList :=
    identifier_append named.identifier_eq ends
  obtain ⟨d, ds, spelled, -⟩ := named.head
  have nonempty : name.toList.isEmpty = false := by
    rw [spelled, List.isEmpty_cons]
  rw [takeName, whole, nonempty, if_neg Bool.false_ne_true, List.drop_left]

/-- No arrow function begins with a name that is followed by something else than an
    arrow. -/
theorem arrowTail_of_name {c : Char} {rest : List Char} (ends : isIdentPart c = false)
    (next : Begins (trimStart (c :: rest))) : arrowTail (name.toList ++ c :: rest) = none := by
  obtain ⟨d, more, spelled, -, other⟩ := next
  have parens : takeParens (name.toList ++ c :: rest) = none := by
    obtain ⟨e, es, spelled, start⟩ := named.head
    rw [spelled, List.cons_append]
    unfold takeParens
    split
    · next same =>
      obtain ⟨rfl, -⟩ := List.cons.inj same
      exact absurd start (by decide)
    · rfl
  have arrow : dropWord "=>".toList (d :: more) = none := by
    simp [dropWord, Ne.symm other]
  rw [arrowTail, parens, takeName_append named ends]
  simp only [Option.none_or, Option.bind_eq_bind, Option.bind_some, spelled, arrow,
    Option.bind_none]

/-- What a name with a parenthesis after it begins with is no `async` with a blank after
    it. -/
theorem dropAsync_of_name (rest : List Char) : dropAsync (name.toList ++ '(' :: rest) = none := by
  rw [dropAsync, dropWord_append_cons (by decide)]
  cases found : dropWord "async".toList name.toList with
  | none => rfl
  | some back =>
    have visible : (back ++ '(' :: rest).head?.any isBlank = false := by
      cases back with
      | nil => rfl
      | cons c cs =>
        have part : isIdentPart c = true :=
          named.parts c (by rw [dropWord_eq_some_iff.1 found]; simp)
        simpa using isBlank_of_isIdentPart part
    rw [Option.map_some, Option.bind_eq_bind, Option.bind_some, visible,
      if_neg Bool.false_ne_true]

end

/-! ### The shapes -/

section

variable {params : List Char} (single : ')' ∉ params) (gap : List Char)
  (blank : gap.all isBlank = true) (body : List Char)

include single blank

theorem blockTail_listAndBlock {finish : List Char → List Char}
    (finished : finish (blockText body) = blockText body) :
    blockTail finish (listAndBlock params gap body) = some (params, blockText body) := by
  have start : trimStart (gap ++ blockText body) = blockText body := by
    rw [trimStart_blanks blank, blockText, List.cons_append, trimStart_of_visible (by decide)]
  rw [blockTail, listAndBlock, takeParens, cutAt_singleton single]
  simp only [Option.bind_eq_bind, Option.bind_some, start, finished, isBlock_blockText, if_true]

/-- A `function` with a list and a block: after the keyword stand blanks and a name, or
    nothing. -/
theorem functionTail_listAndBlock (apart back : List Char) (blanks : apart.all isBlank = true)
    (whole : identifier back = back)
    (ends : (apart ++ back).head?.any isWord = false) :
    functionTail ("function".toList ++ (apart ++ (back ++ listAndBlock params gap body)))
      = some (params, blockText body) := by
  obtain ⟨d, more, front, visible, other⟩ : ∃ d more, back ++ listAndBlock params gap body
      = d :: more ∧ isBlank d = false ∧ d ≠ '*' := by
    cases back with
    | nil => exact ⟨'(', _, rfl, by decide, by decide⟩
    | cons d ds =>
      have part : isIdentPart d = true :=
        isIdentPart_of_mem_identifier (s := d :: ds) (by simp [whole])
      refine ⟨d, _, rfl, isBlank_of_isIdentPart part, ?_⟩
      rintro rfl
      exact absurd part (by decide)
  have keyword : dropWord "function".toList
      ("function".toList ++ (apart ++ (back ++ listAndBlock params gap body)))
      = some (apart ++ (back ++ listAndBlock params gap body)) := dropWord_eq_some_iff.2 rfl
  have bounded : (apart ++ (back ++ listAndBlock params gap body)).head?.any isWord = false := by
    rw [← List.append_assoc]
    cases front : apart ++ back with
    | nil => rfl
    | cons c cs => rwa [front] at ends
  have list : trimStart (listAndBlock params gap body) = listAndBlock params gap body :=
    trimStart_of_visible (by decide) _
  have name : identifier (back ++ listAndBlock params gap body) = back :=
    identifier_append whole rfl
  have start : trimStart (back ++ listAndBlock params gap body)
      = back ++ listAndBlock params gap body := by
    rw [front, trimStart_of_visible visible]
  have star : dropWord ['*'] (back ++ listAndBlock params gap body) = none := by
    rw [front]
    simp [dropWord, Ne.symm other]
  rw [functionTail, keyword]
  simp only [Option.bind_eq_bind, Option.bind_some, bounded, Bool.false_eq_true, if_false,
    trimStart_blanks blanks, start, star, Option.getD_none, name, List.drop_left, list]
  exact blockTail_listAndBlock single gap blank body (dropTerminator_blockText body)

/-- A method. -/
theorem methodTail_listAndBlock {name : String} (named : IsIdentifier name) :
    methodTail (name.toList ++ listAndBlock params gap body) = some (params, blockText body) := by
  rw [methodTail, listAndBlock, takeName_append named (by decide)]
  simp only [Option.bind_eq_bind, Option.bind_some]
  rw [trimStart_of_visible (by decide)]
  exact blockTail_listAndBlock single gap blank body (trimEnd_blockText body)

/-- A method is no `function`, or it is the same one: what its name has behind the
    keyword begins with a dollar sign then, and so it is a name as well. -/
theorem functionTail_of_method {name : String} (named : IsIdentifier name) :
    functionTail (name.toList ++ listAndBlock params gap body) = none ∨
      functionTail (name.toList ++ listAndBlock params gap body)
        = some (params, blockText body) := by
  cases found : dropWord "function".toList name.toList with
  | none =>
    left
    rw [functionTail, listAndBlock, dropWord_append_cons (by decide), found]
    rfl
  | some back =>
    have spelled := dropWord_eq_some_iff.1 found
    have parts : ∀ c ∈ back, isIdentPart c = true := by
      intro c mem
      exact named.parts c (spelled ▸ List.mem_append_right _ mem)
    cases back with
    | nil =>
      right
      have keyword := functionTail_listAndBlock single gap blank body [] [] rfl rfl rfl
      rwa [spelled]
    | cons c cs =>
      by_cases word : isWord c = true
      · left
        rw [functionTail, listAndBlock, dropWord_append_cons (by decide), found]
        simp [word]
      · right
        obtain ⟨here, later⟩ := List.forall_mem_cons.1 parts
        have dollar : c = '$' := by simpa [isIdentPart, word] using here
        subst dollar
        have whole : identifier ('$' :: cs) = '$' :: cs := by
          rw [identifier, if_pos (by decide), List.takeWhile_eq_self_iff.2 later]
        have both := functionTail_listAndBlock single gap blank body [] ('$' :: cs) rfl whole rfl
        rwa [List.nil_append, ← List.append_assoc, ← spelled] at both

end

/-- An arrow function with a block. -/
theorem arrowTail_arrow {params body : List Char} (single : ')' ∉ params) :
    arrowTail ('(' :: (params ++ ')' :: (" => ".toList ++ blockText body)))
      = some (params, blockText body) := by
  have arrow : dropWord "=>".toList (trimStart (" => ".toList ++ blockText body))
      = some (' ' :: blockText body) := rfl
  have start : trimStart (' ' :: blockText body) = blockText body := rfl
  rw [arrowTail, takeParens, cutAt_singleton single]
  simp only [Option.some_or, Option.bind_eq_bind, Option.bind_some, arrow, start,
    dropTerminator_blockText]
  rfl

/-! ### Recovery -/

/-- Parameters and body, the text starting at a shape without `async`. -/
def shape? (s : List Char) : Option (List Char × List Char) :=
  ((arrowTail s).or (functionTail s)).or (methodTail s)

theorem isIdentifier_async : IsIdentifier "async" :=
  ⟨⟨'a', "sync".toList, rfl, rfl⟩, List.all_eq_true.1 rfl⟩

theorem isIdentifier_function : IsIdentifier "function" :=
  ⟨⟨'f', "unction".toList, rfl, rfl⟩, List.all_eq_true.1 rfl⟩

section

variable {s : List Char} {shape : List Char × List Char} (begins : Begins s)
  (found : shape? s = some shape)

include begins found

theorem shapeOf_eq (plain : dropAsync s = none) : shapeOf s = shape := by
  rw [shape?] at found
  rw [shapeOf, arrow?, function?, method?]
  simp only [begins.trimStart_eq, plain, Option.bind_none, Option.none_or, found, Option.getD_some]

/-- The word `async` in front is taken for no shape of its own. -/
theorem shapeOf_async : shapeOf ("async ".toList ++ s) = shape := by
  have start : trimStart ("async ".toList ++ s) = "async ".toList ++ s := rfl
  have next : trimStart (' ' :: s) = s := begins.trimStart_eq
  have dropped : dropAsync ("async ".toList ++ s) = some (trimStart (' ' :: s)) := rfl
  have after : Begins (trimStart (' ' :: s)) := by rwa [next]
  have arrow : arrowTail ("async ".toList ++ s) = none :=
    arrowTail_of_name isIdentifier_async (by decide) after
  have keyword : functionTail ("async ".toList ++ s) = none := rfl
  have before : ((arrowTail s).or (functionTail s)).or
      ((methodTail s).or (methodTail ("async ".toList ++ s))) = some shape := by
    rw [← Option.or_assoc, ← shape?, found, Option.some_or]
  rw [shapeOf, arrow?, function?, method?]
  simp only [start, dropped, next, Option.bind_some, arrow, keyword, Option.or_none, before,
    Option.getD_some]

end

/-- **Recovery of a shape with a block**, with and without `async` in front. -/
theorem ofSource_shape {s params body : List Char} (isAsync : Bool) (begins : Begins s)
    (plain : dropAsync s = none) (found : shape? s = some (params, blockText body))
    (trimmed : trim body = body) :
    ofSource (String.ofList ((if isAsync then "async ".toList else []) ++ s))
      = { params := (splitParams params).map String.ofList
          body := String.ofList body
          isAsync := isAsync || (dropWord "async".toList s).isSome } := by
  cases isAsync with
  | false =>
    simp only [ofSource, Bool.false_eq_true, if_false, List.nil_append, String.toList_ofList,
      shapeOf_eq begins found plain, finishBody_blockText trimmed, begins.trimStart_eq,
      Bool.false_or]
  | true =>
    have keyword : (dropWord "async".toList (trimStart ("async ".toList ++ s))).isSome = true := rfl
    simp only [ofSource, if_true, String.toList_ofList, shapeOf_async begins found,
      finishBody_blockText trimmed, keyword, Bool.true_or]

/-! ### The shapes of a callable -/

/-- The shapes of a callable with a block. -/
inductive Shape where
  | arrow
  | declared (name : String)
  | method (name : String)
deriving DecidableEq, Repr

namespace Shape

/-- The name of a callable is one that the shapes are recognised by. -/
def IsNamed : Shape → Prop
  | arrow => True
  | declared name | method name => IsIdentifier name

/-- What stands in front of the block. -/
def heading (list : String) : Shape → String
  | arrow => "(" ++ list ++ ") => "
  | declared name => "function " ++ name ++ "(" ++ list ++ ") "
  | method name => name ++ "(" ++ list ++ ") "

/-- The source text of a callable. -/
def source (shape : Shape) (isAsync : Bool) (params : List String) (body : String) : String :=
  (if isAsync then "async " else "") ++ shape.heading (String.intercalate "," params)
    ++ "\x7b" ++ body ++ "\x7d"

/-- Whether a name stands at the front and begins with `async`. -/
def startsAsync : Shape → Bool
  | method name => "async".toList.isPrefixOf name.toList
  | arrow | declared _ => false

/-- The characters of a callable behind `async`. -/
def text (shape : Shape) (list : String) (body : List Char) : List Char :=
  (shape.heading list).toList ++ blockText body

theorem text_arrow (list : String) (body : List Char) : arrow.text list body
    = '(' :: (list.toList ++ ')' :: (" => ".toList ++ blockText body)) := by
  simp [text, heading]

theorem text_declared (name list : String) (body : List Char) : (declared name).text list body
    = "function".toList ++ ' ' :: (name.toList ++ listAndBlock list.toList [' '] body) := by
  simp [text, heading, listAndBlock]

theorem text_method (name list : String) (body : List Char) : (method name).text list body
    = name.toList ++ listAndBlock list.toList [' '] body := by
  simp [text, heading, listAndBlock]

theorem source_eq (shape : Shape) (isAsync : Bool) (params : List String) (body : String) :
    shape.source isAsync params body = String.ofList ((if isAsync then "async ".toList else [])
      ++ shape.text (String.intercalate "," params) body.toList) := by
  rw [← String.toList_inj, String.toList_ofList, source]
  cases isAsync <;> simp [text, blockText]

variable {shape : Shape} {list : String} {body : List Char}

theorem begins_text (named : shape.IsNamed) : Begins (shape.text list body) := by
  cases shape with
  | arrow => exact ⟨'(', _, text_arrow list body, by decide, by decide⟩
  | declared name => exact ⟨'f', _, text_declared name list body, by decide, by decide⟩
  | method name =>
    rw [text_method]
    exact begins_name named _

theorem dropAsync_text (named : shape.IsNamed) : dropAsync (shape.text list body) = none := by
  cases shape with
  | arrow =>
    rw [text_arrow]
    rfl
  | declared name =>
    rw [text_declared]
    rfl
  | method name =>
    rw [text_method]
    exact dropAsync_of_name named _

theorem isSome_dropWord_text :
    (dropWord "async".toList (shape.text list body)).isSome = shape.startsAsync := by
  cases shape with
  | arrow =>
    rw [text_arrow]
    rfl
  | declared name =>
    rw [text_declared]
    rfl
  | method name =>
    rw [text_method, listAndBlock, dropWord_append_cons (by decide), Option.isSome_map, startsAsync,
      Bool.eq_iff_iff, Option.isSome_iff_exists, List.isPrefixOf_iff_prefix]
    simp only [dropWord_eq_some_iff]
    exact ⟨fun ⟨t, spelled⟩ => ⟨t, spelled.symm⟩, fun ⟨t, spelled⟩ => ⟨t, spelled.symm⟩⟩

/-- Every shape is recognised, and as itself or as one with the same pieces. -/
theorem shape?_text (named : shape.IsNamed) (single : ')' ∉ list.toList) :
    shape? (shape.text list body) = some (list.toList, blockText body) := by
  cases shape with
  | arrow => rw [shape?, text_arrow, arrowTail_arrow single, Option.some_or, Option.some_or]
  | declared name =>
    have begins := begins_name named (listAndBlock list.toList [' '] body)
    have next : trimStart (' ' :: (name.toList ++ listAndBlock list.toList [' '] body))
        = name.toList ++ listAndBlock list.toList [' '] body := begins.trimStart_eq
    have arrow := arrowTail_of_name isIdentifier_function (by decide) (next.symm ▸ begins)
    have keyword := functionTail_listAndBlock single [' '] rfl body [' '] name.toList rfl
      named.identifier_eq rfl
    rw [List.singleton_append] at keyword
    rw [shape?, text_declared, arrow, keyword, Option.none_or, Option.some_or]
  | method name =>
    have arrow : arrowTail (name.toList ++ listAndBlock list.toList [' '] body) = none :=
      arrowTail_of_name named (by decide) (begins_listAndBlock list.toList [' '] body)
    have method := methodTail_listAndBlock single [' '] rfl body named
    rw [shape?, text_method, arrow, method, Option.none_or]
    rcases functionTail_of_method single [' '] rfl body named with other | same
    · rw [other, Option.none_or]
    · rw [same, Option.some_or]

end Shape

/-! ### Parameter lists of a callable -/

/-- The parameters of a printed list. -/
def recovered (params : List String) : List String :=
  (splitParams (String.intercalate "," params).toList).map String.ofList

theorem recovered_of_isParameter {params : List String}
    (parameters : ∀ p ∈ params, IsParameter p.toList) : recovered params = params := by
  have comma : ",".toList = [','] := rfl
  have whole : splitParams (List.intercalate [','] (params.map String.toList))
      = params.map String.toList := splitParams_join (by simpa using parameters)
  rw [recovered, String.toList_intercalate, comma, whole, List.map_map]
  simp

/-- A printed list ends at the parenthesis behind it. -/
theorem not_mem_intercalate {params : List String} {c : Char} (other : c ≠ ',')
    (absent : ∀ p ∈ params, c ∉ p.toList) : c ∉ (String.intercalate "," params).toList := by
  have comma : ",".toList = [','] := rfl
  rw [String.toList_intercalate, comma]
  induction params with
  | nil => exact List.not_mem_nil
  | cons p ps ih =>
    obtain ⟨first, later⟩ := List.forall_mem_cons.1 absent
    cases ps with
    | nil => simpa using first
    | cons q qs =>
      rw [List.map_cons, List.map_cons, List.intercalate_cons_cons, List.mem_append,
        List.mem_append, List.mem_singleton, ← List.map_cons]
      exact not_or.2 ⟨not_or.2 ⟨first, other⟩, ih later⟩

/-- **All shapes of a callable are recovered alike**: with the parameters of the printed
    list, which are the printed ones if each is as a parameter is recovered, and with the
    body.  They are asynchronous if `async` stands in front, or if the name of a method
    begins with it. -/
theorem ofSource_source (shape : Shape) (isAsync : Bool) {params : List String} {body : String}
    (named : shape.IsNamed) (wellFormed : ∀ p ∈ params, IsWellFormed p.toList)
    (trimmed : trim body.toList = body.toList) :
    ofSource (shape.source isAsync params body)
        = { params := recovered params, body, isAsync := isAsync || shape.startsAsync } ∧
      ((∀ p ∈ params, IsParameter p.toList) → recovered params = params) := by
  have single : ')' ∉ (String.intercalate "," params).toList :=
    not_mem_intercalate (by decide) fun p mem => (wellFormed p mem).unparenthesised.2
  constructor
  · rw [shape.source_eq, ofSource_shape isAsync (Shape.begins_text named)
      (Shape.dropAsync_text named) (Shape.shape?_text named single) trimmed, recovered,
      Shape.isSome_dropWord_text, String.ofList_toList]
  · exact recovered_of_isParameter

/-- The callables `asyncLoad(x) {f();}` and `(x) => {f();}` differ in more than their
    shapes. -/
theorem asyncLoad_counts_as_asynchronous :
    (Shape.method "asyncLoad").source false ["x"] "f();" = "asyncLoad(x) \x7bf();\x7d" ∧
      Shape.arrow.source false ["x"] "f();" = "(x) => \x7bf();\x7d" ∧
      ofSource "asyncLoad(x) \x7bf();\x7d" = { params := ["x"], body := "f();", isAsync := true } ∧
      ofSource "(x) => \x7bf();\x7d" = { params := ["x"], body := "f();", isAsync := false } := by
  decide +kernel

/-- An asynchronous callback with a destructured parameter and with braces in its body. -/
def loaderSample : Callback where
  params := ["\x7bid, label\x7d", "n"]
  body := "if (id) \x7breturn \x7b\x7d;\x7d else \x7bf(() => n)\x7d"
  isAsync := true

theorem loaderSample_isParameter : ∀ p ∈ loaderSample.params, IsParameter p.toList := by decide

theorem trim_loaderSample : trim loaderSample.body.toList = loaderSample.body.toList := by decide

theorem loader_recovered :
    ofSource ((Shape.method "load").source true loaderSample.params loaderSample.body)
        = loaderSample ∧
      ofSource (Shape.arrow.source false loaderSample.params loaderSample.body)
        = { loaderSample with isAsync := false } := by
  have named : IsIdentifier "load" := ⟨⟨'l', "oad".toList, rfl, rfl⟩, List.all_eq_true.1 rfl⟩
  have wellFormed := fun p mem => (loaderSample_isParameter p mem).toIsWellFormed
  obtain ⟨method, kept⟩ :=
    ofSource_source (.method "load") true named wellFormed trim_loaderSample
  obtain ⟨arrow, -⟩ := ofSource_source .arrow false trivial wellFormed trim_loaderSample
  rw [kept loaderSample_isParameter] at method arrow
  exact ⟨method, arrow⟩

/-! ### Printed callbacks -/

/-- A `function` without a name. -/
theorem shape?_anonymous {params body : List Char} (single : ')' ∉ params) :
    shape? ("function".toList ++ listAndBlock params [] body) = some (params, blockText body) := by
  have arrow : arrowTail ("function".toList ++ listAndBlock params [] body) = none :=
    arrowTail_of_name isIdentifier_function (by decide) (begins_listAndBlock params [] body)
  have keyword := functionTail_listAndBlock single [] rfl body [] [] rfl rfl rfl
  rw [List.nil_append, List.nil_append] at keyword
  rw [shape?, arrow, keyword, Option.none_or, Option.some_or]

/-- **A printed callback is recovered.** -/
theorem ofSource_expression {f : Callback} (parameters : ∀ p ∈ f.params, IsParameter p.toList)
    (trimmed : trim f.body.toList = f.body.toList) : ofSource f.expression = f := by
  have single : ')' ∉ (String.intercalate "," f.params).toList :=
    not_mem_intercalate (by decide) fun p mem => (parameters p mem).unparenthesised.2
  have printed : f.expression = String.ofList ((if f.isAsync then "async ".toList else [])
      ++ ("function".toList ++ listAndBlock (String.intercalate "," f.params).toList []
        f.body.toList)) := by
    rw [← String.toList_inj, String.toList_ofList, expression]
    cases f.isAsync <;> simp [listAndBlock, blockText]
  have begins : Begins ("function".toList
      ++ listAndBlock (String.intercalate "," f.params).toList [] f.body.toList) :=
    ⟨'f', _, rfl, by decide, by decide⟩
  have same := recovered_of_isParameter parameters
  rw [recovered] at same
  rw [printed, ofSource_shape f.isAsync begins rfl (shape?_anonymous single) trimmed, same,
    String.ofList_toList]
  cases f with
  | mk params body isAsync => simp [dropWord]

theorem loader_recovered_from_print : ofSource loaderSample.expression = loaderSample :=
  ofSource_expression loaderSample_isParameter trim_loaderSample

end PageTree.Callback
