/-
  PageTree/Proofs/Script/Guarded.lean
  ===================================
  **Data cannot close a script.**

  A script element ends at the first `</`.  The script of an element is put
  together from fixed words, string literals, structured data and the code of the
  page's author.  Literals and data are written without `</`; the fixed words
  neither begin with `/` nor end with `<`, so no `</` arises where two pieces
  meet.  What is taken out of a callback's source is a piece of it.  So only code
  that has a `</` itself can bring one into the script.

    * `guarded_ofSource`: recovering a callback from its source;
    * `guarded_statement`: the statement of a behaviour;
    * `script_guarded`: the script of an element.
-/
import PageTree.Proofs.Handled
import PageTree.Proofs.Script.Source

namespace PageTree

open Text

/-! ### Text without a closing tag -/

namespace Escape

/-- The text has no `</` in it. -/
def Guarded (s : String) : Prop := ¬ "</".toList <:+: s.toList

instance (s : String) : Decidable (Guarded s) := inferInstanceAs (Decidable (¬ _))

theorem Guarded.of_part {s t : String} (h : Guarded s) (inside : t.toList <:+: s.toList) :
    Guarded t :=
  fun closing => h (closing.trans inside)

theorem not_infix_append {a b : Char} {s t : List Char} (hs : ¬ [a, b] <:+: s)
    (ht : ¬ [a, b] <:+: t) (seam : s.getLast? ≠ some a ∨ t.head? ≠ some b) :
    ¬ [a, b] <:+: s ++ t := by
  induction s with
  | nil => exact ht
  | cons c s ih =>
    rw [List.cons_append, List.infix_cons_iff, not_or]
    have later : ¬ [a, b] <:+: s := fun inside => hs (inside.trans (List.suffix_cons c s).isInfix)
    constructor
    · intro here
      obtain ⟨rfl, next⟩ := List.cons_prefix_cons.1 here
      cases s with
      | nil =>
        have first : t.head? = some b := by
          obtain ⟨rest, rfl⟩ := next
          rfl
        simp [first] at seam
      | cons d s =>
        obtain ⟨rfl, -⟩ := List.cons_prefix_cons.1 next
        exact hs (List.prefix_append [a, b] s).isInfix
    · apply ih later
      cases s with
      | nil => exact .inl (by simp)
      | cons d s => simpa [List.getLast?_cons] using seam

theorem Guarded.append {s t : String} (hs : Guarded s) (ht : Guarded t)
    (seam : s.toList.getLast? ≠ some '<' ∨ t.toList.head? ≠ some '/') : Guarded (s ++ t) := by
  rw [Guarded, String.toList_append]
  exact not_infix_append hs ht seam

/-- A text without `</` that can be followed by any other one. -/
structure Sealed (s : String) : Prop where
  guarded : Guarded s
  last : s.toList.getLast? ≠ some '<'

/-- A text without `</` that can stand between any two others. -/
structure Firm (s : String) : Prop where
  nonempty : s.toList ≠ []
  guarded : Guarded s
  first : s.toList.head? ≠ some '/'
  last : s.toList.getLast? ≠ some '<'

instance (s : String) : Decidable (Firm s) :=
  decidable_of_iff (s.toList ≠ [] ∧ Guarded s ∧ s.toList.head? ≠ some '/' ∧
      s.toList.getLast? ≠ some '<')
    ⟨fun ⟨a, b, c, d⟩ => ⟨a, b, c, d⟩, fun ⟨a, b, c, d⟩ => ⟨a, b, c, d⟩⟩

theorem sealed_empty : Sealed "" := ⟨by decide, by decide⟩

theorem Firm.sealed {s : String} (h : Firm s) : Sealed s := ⟨h.guarded, h.last⟩

theorem Sealed.append_guarded {s t : String} (hs : Sealed s) (ht : Guarded t) :
    Guarded (s ++ t) :=
  hs.guarded.append ht (.inl hs.last)

theorem Sealed.append {s t : String} (hs : Sealed s) (ht : Sealed t) : Sealed (s ++ t) := by
  refine ⟨hs.append_guarded ht.guarded, ?_⟩
  rw [String.toList_append, List.getLast?_append]
  cases last : t.toList.getLast? with
  | none => exact hs.last
  | some c =>
    have other := ht.last
    rw [last] at other
    exact other

theorem Guarded.append_firm {s t : String} (hs : Guarded s) (ht : Firm t) : Sealed (s ++ t) := by
  refine ⟨hs.append ht.guarded (.inr ht.first), ?_⟩
  rw [String.toList_append, List.getLast?_append_of_ne_nil _ ht.nonempty]
  exact ht.last

theorem sealed_join {ss : List String} (h : ∀ s ∈ ss, Sealed s) : Sealed (String.join ss) := by
  induction ss with
  | nil => exact sealed_empty
  | cons s ss ih =>
    obtain ⟨first, rest⟩ := List.forall_mem_cons.1 h
    rw [String.join_cons]
    exact first.append (ih rest)

theorem guarded_intercalate {sep : String} (firm : Firm sep) {ss : List String}
    (h : ∀ s ∈ ss, Guarded s) : Guarded (String.intercalate sep ss) := by
  induction ss with
  | nil => exact sealed_empty.guarded
  | cons s ss ih =>
    obtain ⟨first, rest⟩ := List.forall_mem_cons.1 h
    cases ss with
    | nil => simpa using first
    | cons t ss =>
      rw [String.intercalate_cons_cons]
      exact (first.append_firm firm).append_guarded (ih rest)

/-! ### Literals and data -/

theorem guardClosing_head (s : List Char) : (guardClosing s).head? = s.head? := by
  rw [guardClosing.eq_def]
  split <;> rfl

/-- Guarded data has no `</`: after every `<` that a `/` follows comes a backslash. -/
theorem not_infix_guardClosing (s : List Char) : ¬ ['<', '/'] <:+: guardClosing s := by
  induction s using guardClosing.induct with
  | case1 cs ih =>
    rw [guardClosing, List.infix_cons_iff, List.infix_cons_iff, List.infix_cons_iff]
    simpa [List.cons_prefix_cons] using ih
  | case2 c cs other ih =>
    have step : guardClosing (c :: cs) = c :: guardClosing cs := by
      rw [guardClosing.eq_def]
      split
      · next rest heq => exact absurd heq (by simpa using other rest)
      · next heq =>
        obtain ⟨rfl, rfl⟩ := List.cons.inj heq
        rfl
      · next heq => cases heq
    rw [step, List.infix_cons_iff, not_or]
    refine ⟨fun here => ?_, ih⟩
    obtain ⟨rfl, rest, spelled⟩ := List.cons_prefix_cons.1 here
    have first : cs.head? = some '/' := by
      rw [← guardClosing_head, ← spelled]
      rfl
    obtain ⟨ds, rfl⟩ := List.head?_eq_some_iff.1 first
    exact other ds rfl rfl
  | case3 => simp [guardClosing]

theorem guarded_scriptData (s : String) : Guarded (scriptData s) := by
  exact fun inside => not_infix_guardClosing _ (by simpa [scriptData] using inside)

theorem guarded_stringLiteral (s : String) : Guarded (stringLiteral s) := by
  exact fun inside => not_infix_guardClosing _ (by simpa [stringLiteral] using inside)

end Escape

/-! ### Pieces of a source -/

namespace Text

/-- Both texts are pieces of a third one. -/
def Pieces (s : List Char) (p : List Char × List Char) : Prop := p.1 <:+: s ∧ p.2 <:+: s

theorem Pieces.widen {s t : List Char} {p : List Char × List Char} (h : Pieces t p)
    (inside : t <:+: s) : Pieces s p :=
  ⟨h.1.trans inside, h.2.trans inside⟩

theorem infix_trimStart (s : List Char) : trimStart s <:+: s :=
  (List.dropWhile_suffix isBlank).isInfix

theorem infix_dropTrailing (p : Char → Bool) (s : List Char) : dropTrailing p s <:+: s :=
  List.IsPrefix.isInfix <| dropTrailing_prefix p s

theorem infix_trim (s : List Char) : trim s <:+: s :=
  (infix_dropTrailing _ _).trans (infix_trimStart s)

theorem infix_of_dropWord {word s rest : List Char} (h : dropWord word s = some rest) :
    rest <:+: s := by
  rw [dropWord_eq_some_iff.1 h]
  exact (List.suffix_append word rest).isInfix

theorem infix_getD_dropWord (word s : List Char) : (dropWord word s).getD s <:+: s := by
  cases h : dropWord word s with
  | none => exact List.infix_rfl
  | some rest => exact infix_of_dropWord h

theorem pieces_of_cutAt {stop s : List Char} {p : List Char × List Char}
    (h : cutAt stop s = some p) : Pieces s p := by
  obtain ⟨front, rest⟩ := p
  rw [eq_of_cutAt h, Pieces, List.append_assoc]
  exact ⟨(List.prefix_append _ _).isInfix, ((List.suffix_append _ _).trans
    (List.suffix_append _ _)).isInfix⟩

end Text

namespace Callback

theorem pieces_of_takeParens {s : List Char} {p : List Char × List Char}
    (h : takeParens s = some p) : Pieces s p := by
  cases s with
  | nil => cases h
  | cons c cs =>
    unfold takeParens at h
    split at h
    · next heq =>
      obtain ⟨rfl, rfl⟩ := List.cons.inj heq
      exact (pieces_of_cutAt h).widen (List.suffix_cons _ _).isInfix
    · cases h

theorem pieces_of_takeName {s : List Char} {p : List Char × List Char}
    (h : takeName s = some p) : Pieces s p := by
  unfold takeName at h
  split at h
  · cases h
  · obtain rfl := Option.some.inj h
    have name := identifier_prefix s
    exact ⟨name.isInfix, (List.drop_suffix _ _).isInfix⟩

theorem infix_dropTerminator (s : List Char) : dropTerminator s <:+: s := by
  unfold dropTerminator
  split
  · exact (infix_dropTrailing _ _).trans ((List.dropLast_prefix _).isInfix.trans
      (infix_dropTrailing _ _))
  · exact infix_dropTrailing _ _

/-- A shape that may have `async` in front of it. -/
theorem pieces_of_async {f : List Char → Option (List Char × List Char)}
    (tail : ∀ {s p}, f s = some p → Pieces s p) {s : List Char} {p : List Char × List Char}
    (h : ((dropAsync s).bind f).or (f s) = some p) : Pieces s p := by
  rcases Option.or_eq_some_iff.1 h with async | ⟨-, sync⟩
  · obtain ⟨rest, dropped, found⟩ := Option.bind_eq_some_iff.1 async
    refine (tail found).widen ?_
    unfold dropAsync at dropped
    obtain ⟨rest', word, dropped⟩ := Option.bind_eq_some_iff.1 dropped
    split at dropped
    · obtain rfl := Option.some.inj dropped
      exact (infix_trimStart _).trans (infix_of_dropWord word)
    · cases dropped
  · exact tail sync

theorem pieces_of_arrowTail {s : List Char} {p : List Char × List Char}
    (h : arrowTail s = some p) : Pieces s p := by
  unfold arrowTail at h
  obtain ⟨⟨params, rest⟩, head, h⟩ := Option.bind_eq_some_iff.1 h
  obtain ⟨rest', arrow, h⟩ := Option.bind_eq_some_iff.1 h
  obtain rfl := Option.some.inj h
  have cut : Pieces s (params, rest) := by
    rcases Option.or_eq_some_iff.1 head with parens | ⟨-, name⟩
    · exact pieces_of_takeParens parens
    · exact pieces_of_takeName name
  refine ⟨cut.1, ?_⟩
  exact (infix_dropTerminator _).trans ((infix_trimStart _).trans
    ((infix_of_dropWord arrow).trans ((infix_trimStart _).trans cut.2)))

theorem pieces_of_blockTail {finish : List Char → List Char}
    (finishes : ∀ s, finish s <:+: s) {s : List Char} {p : List Char × List Char}
    (h : blockTail finish s = some p) : Pieces s p := by
  unfold blockTail at h
  obtain ⟨⟨params, rest⟩, parens, h⟩ := Option.bind_eq_some_iff.1 h
  have cut := pieces_of_takeParens parens
  dsimp only at h
  split at h
  · obtain rfl := Option.some.inj h
    exact ⟨cut.1, (finishes _).trans ((infix_trimStart _).trans cut.2)⟩
  · cases h

theorem pieces_of_functionTail {s : List Char} {p : List Char × List Char}
    (h : functionTail s = some p) : Pieces s p := by
  unfold functionTail at h
  obtain ⟨rest, word, h⟩ := Option.bind_eq_some_iff.1 h
  split at h
  · cases h
  · refine (pieces_of_blockTail infix_dropTerminator h).widen ?_
    exact (infix_trimStart _).trans ((List.drop_suffix _ _).isInfix.trans ((infix_trimStart _).trans
      ((infix_getD_dropWord _ _).trans ((infix_trimStart _).trans (infix_of_dropWord word)))))

theorem pieces_of_methodTail {s : List Char} {p : List Char × List Char}
    (h : methodTail s = some p) : Pieces s p := by
  unfold methodTail at h
  obtain ⟨⟨name, rest⟩, named, h⟩ := Option.bind_eq_some_iff.1 h
  refine (pieces_of_blockTail (infix_dropTrailing _) h).widen ?_
  exact (infix_trimStart _).trans (pieces_of_takeName named).2

theorem pieces_looseShape (s : List Char) : Pieces s (looseShape s) := by
  have inner : ((cutAt ['\x7b'] s).map (·.2)).getD s <:+: s := by
    cases h : cutAt ['\x7b'] s with
    | none => exact List.infix_rfl
    | some p => exact (pieces_of_cutAt h).2
  have trimmed := (infix_dropTrailing isBlank _).trans inner
  unfold looseShape
  constructor
  · cases h : (cutAt ['('] s).bind fun p => cutAt [')'] p.2 with
    | none => simp
    | some p =>
      obtain ⟨q, opened, closed⟩ := Option.bind_eq_some_iff.1 h
      simpa [h] using (pieces_of_cutAt closed).1.trans (pieces_of_cutAt opened).2
  · dsimp only
    split
    · exact (List.dropLast_prefix _).isInfix.trans trimmed
    · exact trimmed

theorem pieces_shapeOf (s : List Char) : Pieces s (shapeOf s) := by
  unfold shapeOf
  cases h : ((arrow? s).or (function? s)).or (method? s) with
  | none => exact pieces_looseShape s
  | some p =>
    have front := infix_trimStart s
    rcases Option.or_eq_some_iff.1 h with h | ⟨-, method⟩
    · rcases Option.or_eq_some_iff.1 h with arrow | ⟨-, function⟩
      · exact (pieces_of_async pieces_of_arrowTail arrow).widen front
      · exact (pieces_of_async pieces_of_functionTail function).widen front
    · exact (pieces_of_async pieces_of_methodTail method).widen front

/-- The parameters between the commas are pieces of the list; `current` is what
    has been read of the one under way. -/
theorem infix_of_mem_splitAtCommas {depth : Nat} {current s piece : List Char}
    (h : piece ∈ splitAtCommas depth current s) : piece <:+: current.reverse ++ s := by
  induction s generalizing depth current with
  | nil =>
    rw [splitAtCommas, List.mem_singleton] at h
    rw [h, List.append_nil]
  | cons c cs ih =>
    have onward {d : Nat} (h : piece ∈ splitAtCommas d (c :: current) cs) :
        piece <:+: current.reverse ++ c :: cs := by
      simpa using ih h
    unfold splitAtCommas at h
    split at h
    · exact onward h
    · split at h
      · exact onward h
      · split at h
        · rcases List.mem_cons.1 h with rfl | later
          · exact (List.prefix_append _ _).isInfix
          · refine (ih later).trans ?_
            exact ((List.suffix_cons c cs).trans (List.suffix_append _ _)).isInfix
        · exact onward h

end Callback

/-! ### Callbacks -/

open Escape

/-- No parameter and no piece of the body has a `</`. -/
structure Callback.Guarded (f : Callback) : Prop where
  params : ∀ p ∈ f.params, Escape.Guarded p
  body : Escape.Guarded f.body

instance (f : Callback) : Decidable f.Guarded :=
  decidable_of_iff ((∀ p ∈ f.params, Escape.Guarded p) ∧ Escape.Guarded f.body)
    ⟨fun ⟨params, body⟩ => ⟨params, body⟩, fun ⟨params, body⟩ => ⟨params, body⟩⟩

theorem Callback.sealed_expression {f : Callback} (h : f.Guarded) : Sealed f.expression := by
  have params := guarded_intercalate (show Firm "," by decide) h.params
  have keyword : Sealed (if f.isAsync then "async " else "") := by
    split
    · exact Firm.sealed (by decide)
    · exact sealed_empty
  have opening := keyword.append (t := "function(") (Firm.sealed (by decide))
  have head := (opening.append_guarded params).append_firm (t := ")\x7b") (by decide)
  exact (head.append_guarded h.body).append_firm (by decide)

theorem guarded_finishBody {raw : List Char} (h : ¬ ['<', '/'] <:+: raw) :
    ¬ ['<', '/'] <:+: Callback.finishBody raw := by
  have body : ¬ ['<', '/'] <:+: trim raw := fun inside => h (inside.trans (infix_trim raw))
  have braces (s : List Char) : Callback.dropBraces s <:+: s := by
    unfold Callback.dropBraces
    dsimp only
    split
    · exact (List.dropLast_prefix _).isInfix.trans (infix_getD_dropWord _ _)
    · exact infix_getD_dropWord _ _
  have finished {s : List Char} (hs : ¬ ['<', '/'] <:+: s) :
      ¬ ['<', '/'] <:+: trim (Callback.dropBraces s) :=
    fun inside => hs (inside.trans ((infix_trim _).trans (braces s)))
  unfold Callback.finishBody
  dsimp only
  split
  · decide
  · apply finished
    split
    · apply not_infix_append
      · exact fun inside => body (inside.trans (infix_dropTrailing _ _))
      · decide
      · exact .inr (by decide)
    · exact body

/-- A callback recovered from a source without `</` has none. -/
theorem guarded_ofSource {source : String} (h : Escape.Guarded source) :
    (Callback.ofSource source).Guarded := by
  obtain ⟨params, body⟩ := Callback.pieces_shapeOf source.toList
  constructor
  · intro p hp
    obtain ⟨piece, mem, rfl⟩ := List.mem_map.1 hp
    obtain ⟨raw, split, rfl⟩ := List.mem_map.1 (List.mem_of_mem_filter mem)
    apply h.of_part
    rw [String.toList_ofList]
    exact (infix_trim raw).trans
      ((Callback.infix_of_mem_splitAtCommas split).trans params)
  · have raw : ¬ ['<', '/'] <:+: (Callback.shapeOf source.toList).2 :=
      fun inside => h (inside.trans body)
    have finished := guarded_finishBody raw
    simpa [Escape.Guarded, Callback.ofSource] using finished

/-! ### Behaviours -/

namespace Behaviour

theorem sealed_declaration {param : String} (h : Escape.Guarded param) :
    Sealed (declaration param) := by
  have start : Sealed "const " := Firm.sealed (by decide)
  unfold declaration
  split
  · exact (start.append_guarded h).append_firm (by decide)
  · exact (start.append_guarded h).append_firm (by decide)
  · split
    · next name default found =>
      have cut := pieces_of_cutAt found
      have piece {t : List Char} (inside : t <:+: param.toList) :
          Escape.Guarded (String.ofList (trim t)) := by
        apply h.of_part
        rw [String.toList_ofList]
        exact (infix_trim t).trans inside
      have bound := (start.append_guarded (piece cut.1)).append_firm (t := " = props[") (by decide)
      have looked := (bound.append_guarded (guarded_stringLiteral (String.ofList (trim name)))
        ).append_firm (t := "] ?? ") (by decide)
      exact (looked.append_guarded (piece cut.2)).append_firm (by decide)
    · have bound := (start.append_guarded h).append_firm (t := " = props[") (by decide)
      exact (bound.append_guarded (guarded_stringLiteral _)).append_firm (by decide)

theorem sealed_byId (id : String) : Sealed (Target.byId id).expression := by
  have start : Sealed "document.getElementById(" := Firm.sealed (by decide)
  exact (start.append_guarded (guarded_stringLiteral id)).append_firm (by decide)

theorem sealed_relocatedCall {f : Callback} (h : f.Guarded) (id : String) :
    Sealed (relocatedCall f (.byId id)) := by
  have element : Escape.Guarded (f.params.headD "") := by
    cases params : f.params with
    | nil => decide
    | cons p ps => exact h.params p (by simp [params])
  have keyword : Sealed (if f.isAsync then "async " else "") := by
    split
    · exact Firm.sealed (by decide)
    · exact sealed_empty
  have argument : Sealed (if (f.params.headD "").isEmpty then "" else (Target.byId id).expression) := by
    split
    · exact sealed_empty
    · exact sealed_byId id
  have opening : Sealed ("(" ++ (if f.isAsync then "async " else "") ++ "function(") :=
    ((Firm.sealed (by decide)).append keyword).append (Firm.sealed (by decide))
  have head := (opening.append_guarded element).append_firm (t := ")\x7b\n") (by decide)
  have body := (head.append_guarded h.body).append_firm (t := "\n\x7d)(") (by decide)
  exact (body.append argument).append (Firm.sealed (by decide))

theorem sealed_relocated {f : Callback} (h : f.Guarded) (props id : String) :
    Sealed (relocated f props (.byId id)) := by
  have data : Sealed ("(function()\x7b\nconst props = " ++ Escape.scriptData props ++ ";\n") :=
    ((Firm.sealed (by decide)).append_guarded (guarded_scriptData props)).append_firm (by decide)
  have declarations : Sealed (String.join (f.params.tail.map fun p => declaration p ++ "\n")) := by
    apply sealed_join
    intro line hline
    obtain ⟨p, mem, rfl⟩ := List.mem_map.1 hline
    exact (sealed_declaration (h.params p (List.mem_of_mem_tail mem))).append (Firm.sealed (by decide))
  have ending : Sealed (if f.isAsync then ".catch(console.error);\n" else ";\n") := by
    split <;> exact Firm.sealed (by decide)
  have tried := (data.append declarations).append (t := "try \x7b\n") (Firm.sealed (by decide))
  exact ((tried.append (sealed_relocatedCall h id)).append ending).append (Firm.sealed (by decide))

/-- The code in a behaviour has no `</`. -/
def Guarded : Behaviour → Prop
  | listen _ listener => Escape.Guarded listener
  | reactive _ callback => Escape.Guarded callback
  | relocate f _ => f.Guarded

/-- A statement has a `</` only where its code has one. -/
theorem guarded_statement {b : Behaviour} (h : b.Guarded) (id : String) :
    Escape.Guarded (b.statement (.byId id)) := by
  cases b with
  | listen event listener =>
    have called := (sealed_byId id).append (t := ".addEventListener(") (Firm.sealed (by decide))
    have named := (called.append_guarded (guarded_stringLiteral event)).append_firm (t := ", ")
      (by decide)
    exact ((named.append_guarded h).append_firm (t := ");") (by decide)).guarded
  | reactive own callback =>
    have called : Sealed (clientNamespace ++ "." ++ reactiveEntry ++ "(") := Firm.sealed (by decide)
    have named := (called.append_guarded (guarded_stringLiteral own)).append_firm (t := ", ")
      (by decide)
    exact ((named.append_guarded h).append_firm (t := ");") (by decide)).guarded
  | relocate f props => exact (sealed_relocated h props id).guarded

end Behaviour

/-! ### The script of an element -/

/-- The value, taken for code, has no `</`. -/
def AttrValue.Guarded : AttrValue → Prop
  | .callback f => f.Guarded
  | .string s => Escape.Guarded s
  | _ => True

instance (v : AttrValue) : Decidable v.Guarded := by
  cases v <;> unfold AttrValue.Guarded <;> infer_instance

/-- No code among the attributes has a `</`. -/
def Attributes.Guarded (attrs : Attributes) : Prop :=
  ∀ key value, IsCodeKey key → attrs.awaited? key = some value → value.Guarded

theorem Attributes.guarded_of_entries {attrs : Attributes}
    (h : ∀ e ∈ attrs.entries, IsCodeKey e.1 → e.2.settle.Guarded) : attrs.Guarded := by
  intro key value code awaited
  obtain ⟨v, found, rfl⟩ := Option.map_eq_some_iff.1 awaited
  exact h (key, v) (OrderedMap.mem_of_get? found) code

theorem AttrValue.Guarded.callbackText {v : AttrValue} (h : v.Guarded) {text : String}
    (found : Behaviour.callbackText? v = some text) : Escape.Guarded text := by
  cases v with
  | callback f =>
    obtain rfl := Option.some.inj found
    exact (Callback.sealed_expression h).guarded
  | string s =>
    simp only [Behaviour.callbackText?] at found
    split at found
    · cases found
    · obtain rfl := Option.some.inj found
      exact h
  | _ => cases found

theorem AttrValue.Guarded.callback {v : AttrValue} (h : v.Guarded) {f : Callback}
    (found : Behaviour.callback? v = some f) : f.Guarded := by
  cases v with
  | callback g =>
    obtain rfl := Option.some.inj found
    exact h
  | string s =>
    obtain rfl := Option.some.inj found
    exact guarded_ofSource h
  | _ => cases found

theorem Attributes.Guarded.behaviourAt {attrs : Attributes} (h : attrs.Guarded) {id key : String}
    {b : Behaviour} (found : attrs.behaviourAt id key = some b) : b.Guarded := by
  obtain ⟨value, awaited, found⟩ := Option.bind_eq_some_iff.1 found
  unfold Behaviour.of? at found
  split at found
  · next client =>
    obtain ⟨f, called, rfl⟩ := Option.map_eq_some_iff.1 found
    exact (h key value (.inl client) awaited).callback called
  · split at found
    · next reactive =>
      obtain ⟨text, called, rfl⟩ := Option.map_eq_some_iff.1 found
      exact (h key value (.inr (.inl reactive)) awaited).callbackText called
    · split at found
      · next event =>
        obtain ⟨text, called, rfl⟩ := Option.map_eq_some_iff.1 found
        exact (h key value (.inr (.inr event)) awaited).callbackText called
      · cases found

theorem Attributes.Guarded.of_agree {a b : Attributes} (h : a.Guarded) (agree : b.Agree a) :
    b.Guarded :=
  fun key value code awaited => h key value code (agree key ▸ awaited)

/-- Awaiting values on the way changes none of the code, so every step adds a
    statement without `</`. -/
theorem foldl_markupStep_guarded (who : Identity) (keys : List String) {st : MarkupProgress}
    (h : st.attrs.Guarded) : ∃ sources : List String,
      (keys.foldl (markupStep Registry.standard who) st).scripts
          = st.scripts ++ sources.map .inline ∧ ∀ s ∈ sources, Escape.Guarded s := by
  induction keys generalizing st with
  | nil => exact ⟨[], by simp, by simp⟩
  | cons key keys ih =>
    have scripts := congrArg MarkupProgress.scripts (markupStep_standard who st key)
    obtain ⟨sources, later, guarded⟩ := ih (h.of_agree (agree_markupStep who st key))
    let here := (st.attrs.behaviourAt who.id key).toList.map (·.statement (.byId who.id))
    refine ⟨here ++ sources, ?_, ?_⟩
    · rw [List.foldl_cons, later, scripts, List.map_append, List.map_map, List.append_assoc]
      rfl
    · intro s hs
      rcases List.mem_append.1 hs with now | later
      · obtain ⟨b, found, rfl⟩ := List.mem_map.1 now
        exact Behaviour.guarded_statement (h.behaviourAt (Option.mem_toList.1 found)) _
      · exact guarded s later

/-- **Data cannot close a script.**  If no code among the attributes of an element
    has a `</`, then its script has none, whatever its id and the other attributes
    are. -/
theorem script_guarded {attrs : Attributes} (h : attrs.Guarded) (fresh : String) :
    (Registry.standard.markup fresh attrs).scripts = [] ∨
      ∃ source, (Registry.standard.markup fresh attrs).scripts = [scriptElement source] ∧
        Escape.Guarded source := by
  have resolved : (MarkupProgress.mk (attrs.resolve "id") "" [] false).attrs.Guarded :=
    h.of_agree (Attributes.agree_resolve attrs "id")
  obtain ⟨sources, scripts, guarded⟩ := foldl_markupStep_guarded (attrs.who fresh)
    (attrs.resolve "id").writtenKeys resolved
  have merged : (Registry.standard.markup fresh attrs).scripts
      = (mergedSource sources).toList.map scriptElement := by
    rw [← mergeScripts_inline]
    exact congrArg mergeScripts scripts
  rw [merged, mergedSource]
  split
  · exact .inl rfl
  · exact .inr ⟨_, rfl, guarded_intercalate (by decide) guarded⟩

/-- An id and a title that close a script, and a callback that is given the title. -/
def closingData : Attributes :=
  ⟨[("id", .string "</script>"), ("title", .string "</script><script>"),
    ("client", .pending (.string "(element, title) => element.title = title"))]⟩

theorem closingData_script : closingData.Guarded ∧
    ∃ source, (Registry.standard.markup "a" closingData).scripts = [scriptElement source] ∧
      Escape.Guarded source := by
  have guarded : closingData.Guarded := by
    apply Attributes.guarded_of_entries
    decide
  refine ⟨guarded, ?_⟩
  rcases script_guarded guarded "a" with none | one
  · have some_script : (Registry.standard.markup "a" closingData).scripts.isEmpty = false := by
      decide +kernel
    rw [none] at some_script
    cases some_script
  · exact one

end PageTree
