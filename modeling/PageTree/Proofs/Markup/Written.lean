/-
  PageTree/Proofs/Markup/Written.lean
  ===================================
  **Markup is the writing down of content.**

  Two trees with the same content have the same markup, since the markup can be
  written down from the content alone: `Content.written` does so.  In tidied
  content a text is never followed by another, so what is written next to a text
  is a tag.

    * `markupOf_eq_written`: the markup of a legible tree;
    * `Content.separated_tidy`: no two texts stand side by side.
-/
import PageTree.Proofs.Markup.RoundTrip

namespace PageTree

open Escape

namespace Content

mutual

/-- The markup of a piece of content. -/
def written : Content → List Char
  | text s => s.toList.flatMap contentChar
  | element tag attrs children =>
    if Node.isVoidTag tag then ("<" ++ tag ++ attributesMarkup attrs ++ "/>").toList
    else ("<" ++ tag ++ attributesMarkup attrs ++ ">").toList ++ writtenAll children
      ++ ("</" ++ tag ++ ">").toList

def writtenAll : List Content → List Char
  | [] => []
  | c :: cs => written c ++ writtenAll cs

end

theorem writtenAll_append (cs ds : List Content) :
    writtenAll (cs ++ ds) = writtenAll cs ++ writtenAll ds := by
  induction cs with
  | nil => rfl
  | cons c cs ih => rw [List.cons_append, writtenAll, ih, writtenAll, List.append_assoc]

theorem writtenAll_singleton (c : Content) : writtenAll [c] = written c := by
  rw [writtenAll, writtenAll, List.append_nil]

theorem writtenAll_finish (d : Draft) :
    writtenAll d.finish = writtenAll d.done ++ d.pending.toList.flatMap contentChar := by
  unfold Draft.finish
  split
  · next h =>
    have none : d.pending.toList = [] := by simpa using h
    rw [none, List.flatMap_nil, List.append_nil]
  · rw [writtenAll_append, writtenAll_singleton, written]

theorem writtenAll_finish_add (d : Draft) (c : Content) :
    writtenAll (d.add c).finish = writtenAll d.finish ++ written c := by
  rw [writtenAll_finish]
  cases c with
  | text s =>
    rw [Draft.add, writtenAll_finish, written, String.toList_append, List.flatMap_append,
      List.append_assoc]
  | element tag attrs children =>
    rw [Draft.add, writtenAll_append, writtenAll_singleton]
    exact List.append_nil _

/-- Joining texts does not change what is written. -/
theorem writtenAll_tidy (cs : List Content) : writtenAll (tidy cs) = writtenAll cs := by
  have fold : ∀ d : Draft, writtenAll (cs.foldl Draft.add d).finish
      = writtenAll d.finish ++ writtenAll cs := by
    induction cs with
    | nil => exact fun d => (List.append_nil _).symm
    | cons c cs ih =>
      intro d
      rw [List.foldl_cons, ih, writtenAll_finish_add, writtenAll, List.append_assoc]
  exact fold {}

/-! ### Separated texts -/

def isText : Content → Bool
  | text _ => true
  | element .. => false

/-- No text is followed by a text. -/
def Separated (cs : List Content) : Prop :=
  List.IsChain (fun c d => (isText c && isText d) = false) cs

theorem separated_concat {cs : List Content} {c : Content} (h : Separated cs)
    (last : ∀ d ∈ cs.getLast?, (isText d && isText c) = false) : Separated (cs ++ [c]) :=
  List.isChain_append.2 ⟨h, List.isChain_singleton c, fun d mem e head => by
    obtain rfl : c = e := by simpa using head
    exact last d mem⟩

/-- The finished pieces of a draft are separated and end with no text. -/
structure Parted (d : Draft) : Prop where
  separated : Separated d.done
  last : ∀ c ∈ d.done.getLast?, isText c = false

theorem Parted.finish {d : Draft} (h : Parted d) : Separated d.finish := by
  unfold Draft.finish
  split
  · exact h.separated
  · exact separated_concat h.separated fun c mem => by rw [h.last c mem, Bool.false_and]

theorem Parted.add {d : Draft} (h : Parted d) (c : Content) : Parted (d.add c) := by
  cases c with
  | text s => exact ⟨h.separated, h.last⟩
  | element tag attrs children =>
    refine ⟨separated_concat h.finish fun c _ => Bool.and_false _, fun c mem => ?_⟩
    rw [Draft.add, List.getLast?_concat] at mem
    obtain rfl := Option.mem_some.1 mem
    rfl

theorem separated_tidy (cs : List Content) : Separated (tidy cs) := by
  have fold : ∀ d : Draft, Parted d → Parted (cs.foldl Draft.add d) := by
    induction cs with
    | nil => exact fun d h => h
    | cons c cs ih => exact fun d h => ih (d.add c) (h.add c)
  exact (fold {} ⟨List.isChain_nil, nofun⟩).finish

end Content

/-! ### The markup of a tree -/

namespace MarkupWriter

theorem join_textFragments (s : String) : String.join (textFragments s) = s := by
  unfold textFragments
  split
  · next h =>
    obtain rfl : s = "" := by simpa using h
    rfl
  · simp

theorem written_text (s : String) :
    Content.writtenAll [.text s] = (String.join (textFragments (Escape.content s))).toList := by
  rw [join_textFragments, Content.writtenAll_singleton, Content.written, Escape.content,
    String.toList_ofList]

theorem join_fragmentsOfList {w : MarkupWriter} {scripts : List Node → Nat → List String × Nat}
    {ns : List Node}
    (h : ∀ n ∈ ns, ∀ k, (String.join (fragments w scripts n k).1).toList
      = Content.writtenAll n.content) (k : Nat) :
    (String.join (fragmentsOfList w scripts ns k).1).toList
      = Content.writtenAll (Node.contentOfList ns) := by
  induction ns generalizing k with
  | nil => rfl
  | cons n ns ih =>
    rw [fragmentsOfList, Node.contentOfList, Content.writtenAll_append, String.join_append,
      String.toList_append, h n List.mem_cons_self,
      ih fun m mem => h m (List.mem_cons_of_mem n mem)]

/-- The fragments of a legible tree write down its content. -/
theorem join_fragments {w : MarkupWriter} (hw : w.registry = .standard)
    {scripts : List Node → Nat → List String × Nat} (hscripts : ∀ k, scripts [] k = ([], k))
    {n : Node} (h : n.Legible) (k : Nat) :
    (String.join (fragments w scripts n k).1).toList = Content.writtenAll n.content := by
  induction h generalizing k with
  | text s => rw [fragments, Node.content, text_resolve_content, written_text]
  | number x => rw [fragments, Node.content, written_text, content_number]
  | bool b =>
    rw [fragments, Node.content, Content.writtenAll_singleton, Content.written]
    cases b <;> simp [contentChar]
  | null => rfl
  | undefined => rfl
  | @element tag attrs children htag hattrs _ ih =>
    obtain ⟨hhtml, hnoScripts, hlock⟩ := Registry.markup_plain hattrs.toPlain (w.ids k)
    rw [fragments, Node.content, hw, Content.writtenAll_singleton, Content.written]
    dsimp only
    rw [hhtml, hnoScripts, hlock]
    by_cases hvoid : Node.isVoidTag tag
    · rw [if_pos hvoid, if_pos hvoid, hscripts]
      simp
    · rw [if_neg hvoid, if_neg hvoid, if_neg hvoid, hscripts, Content.writtenAll_tidy]
      simp [String.join_append, join_fragmentsOfList ih]
  | component _ ih =>
    rw [fragments, Node.content]
    exact ih k
  | array _ ih =>
    rw [fragments, Node.content]
    exact join_fragmentsOfList ih k
  | pending _ ih =>
    rw [fragments, Node.content]
    exact ih k

end MarkupWriter

/-- **The markup of a legible tree is its content written down.** -/
theorem markupOf_eq_written {n : Node} (h : n.Legible) {s : MarkupSettings}
    (hs : s.minify = false) (ids : Nat → String) (k : Nat) :
    (markupOf ⟨.standard, ids⟩ s n k).1.toList
      = Content.writtenAll (Content.tidy n.content) := by
  have reads : Reads (MarkupWriter.write ⟨.standard, ids⟩ n k).1 n.content :=
    MarkupWriter.reads_fragments rfl (fun _ => rfl) h k
  have markup : (markupOf ⟨.standard, ids⟩ s n k).1
      = String.join (MarkupWriter.write ⟨.standard, ids⟩ n k).1 := by
    unfold markupOf markupText
    dsimp only
    rw [hs, assemble_of_no_marker reads.unmarked]
    rfl
  rw [markup, Content.writtenAll_tidy]
  exact MarkupWriter.join_fragments rfl (fun _ => rfl) h k

end PageTree
