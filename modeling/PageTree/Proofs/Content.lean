/-
  PageTree/Proofs/Content.lean
  ============================
  **What a page tree shows.**

  The content of a page is a forest of texts and elements.  Arrays, pending
  nodes and components leave no trace of their own, adjacent texts are one
  text, elements without content have no children, and an attribute is either
  bare or has a text.  `Node.content` is the content a page tree stands for,
  whichever way it is written.
-/
import Mathlib
import PageTree.Handler.Basic

namespace PageTree

/-- A piece of content. -/
inductive Content where
  | text (s : String)
  /-- An element; an attribute without a text is bare. -/
  | element (tag : String) (attrs : List (String × Option String)) (children : List Content)

/-- Content under construction: the finished pieces, and the text that the next
    piece may still continue. -/
structure Draft where
  done : List Content := []
  pending : String := ""

namespace Draft

/-- The content once no text follows any more; an empty text is none. -/
def finish (d : Draft) : List Content :=
  if d.pending.isEmpty then d.done else d.done ++ [.text d.pending]

/-- Adds a piece; a text continues the one before it. -/
def add (d : Draft) : Content → Draft
  | .text s => { d with pending := d.pending ++ s }
  | .element tag attrs children => { done := d.finish ++ [.element tag attrs children] }

theorem add_empty (d : Draft) : d.add (.text "") = d := by
  simp [add]

theorem add_text_add_text (d : Draft) (s t : String) :
    (d.add (.text s)).add (.text t) = d.add (.text (s ++ t)) := by
  simp [add, String.append_assoc]

end Draft

namespace Content

/-- The pieces with adjacent texts joined and empty texts left out. -/
def tidy (cs : List Content) : List Content := (cs.foldl Draft.add {}).finish

mutual

/-- The content as a live document holds it: a bare attribute has the empty
    text. -/
def filled : Content → Content
  | text s => text s
  | element tag attrs children =>
    element tag (attrs.map fun (key, value) => (key, some (value.getD ""))) (filledAll children)

def filledAll : List Content → List Content
  | [] => []
  | c :: cs => c.filled :: filledAll cs

end

/-- Content in which void elements have no children. -/
inductive Proper : Content → Prop where
  | text (s : String) : Proper (text s)
  | element {tag : String} {attrs : List (String × Option String)} {children : List Content}
      (hvoid : Node.isVoidTag tag = true → children = []) (h : ∀ c ∈ children, Proper c) :
      Proper (element tag attrs children)

theorem forall_mem_finish {P : Content → Prop} (htext : ∀ s, P (.text s)) {d : Draft}
    (h : ∀ c ∈ d.done, P c) : ∀ c ∈ d.finish, P c := by
  intro c hc
  unfold Draft.finish at hc
  split at hc
  · exact h c hc
  · rcases List.mem_append.1 hc with hc | hc
    · exact h c hc
    · rw [List.mem_singleton.1 hc]
      exact htext _

/-- What holds of every text and of all pieces holds of the tidied pieces. -/
theorem forall_mem_tidy {P : Content → Prop} (htext : ∀ s, P (.text s)) {cs : List Content}
    (h : ∀ c ∈ cs, P c) : ∀ c ∈ tidy cs, P c := by
  have hfold : ∀ d : Draft, (∀ c ∈ d.done, P c) → ∀ c ∈ (cs.foldl Draft.add d).done, P c := by
    induction cs with
    | nil => exact fun d hd => hd
    | cons c cs ih =>
      intro d hd
      refine ih (fun e he => h e (List.mem_cons_of_mem c he)) (d.add c) ?_
      have hc : P c := h c List.mem_cons_self
      cases c with
      | text s => exact hd
      | element tag attrs children =>
        intro e he
        rcases List.mem_append.1 he with he | he
        · exact forall_mem_finish htext hd e he
        · rw [List.mem_singleton.1 he]
          exact hc
  exact forall_mem_finish htext (hfold {} fun c hc => absurd hc List.not_mem_nil)

theorem proper_of_mem_tidy {cs : List Content} (h : ∀ c ∈ cs, Proper c) :
    ∀ c ∈ tidy cs, Proper c := forall_mem_tidy .text h

theorem filledAll_append (cs ds : List Content) :
    filledAll (cs ++ ds) = filledAll cs ++ filledAll ds := by
  induction cs with
  | nil => rfl
  | cons c cs ih => rw [List.cons_append, filledAll, filledAll, ih, List.cons_append]

/-- Filling in bare attributes does not touch the texts. -/
theorem finish_foldl_filledAll (cs : List Content) (d e : Draft)
    (hdone : e.done = filledAll d.done) (hpending : e.pending = d.pending) :
    ((filledAll cs).foldl Draft.add e).finish = filledAll (cs.foldl Draft.add d).finish := by
  have hfinish : ∀ d e : Draft, e.done = filledAll d.done → e.pending = d.pending →
      e.finish = filledAll d.finish := by
    intro d e hdone hpending
    unfold Draft.finish
    rw [hpending, hdone]
    split
    · rfl
    · rw [filledAll_append]; rfl
  induction cs generalizing d e with
  | nil => exact hfinish d e hdone hpending
  | cons c cs ih =>
    rw [filledAll, List.foldl_cons, List.foldl_cons]
    cases c with
    | text s =>
      refine ih _ _ ?_ ?_
      · exact hdone
      · simp only [filled, Draft.add, hpending]
    | element tag attrs children =>
      refine ih _ _ ?_ rfl
      simp only [filled, Draft.add]
      rw [hfinish d e hdone hpending, filledAll_append]
      rfl

theorem tidy_filledAll (cs : List Content) : tidy (filledAll cs) = filledAll (tidy cs) :=
  finish_foldl_filledAll cs {} {} rfl rfl

end Content

/-! ### The content of page trees -/

theorem forall_mem_of_all {α : Type} {p : α → Prop} [DecidablePred p] {xs : List α}
    (h : xs.all (fun x => decide (p x)) = true) : ∀ x ∈ xs, p x := fun x hx =>
  of_decide_eq_true (List.all_eq_true.1 h x hx)

/-- What holds of all characters of some texts can be checked on the texts. -/
theorem forall_mem_toList_of_all {p : Char → Prop} [DecidablePred p] {ss : List String}
    (h : ss.all (fun s => s.toList.all fun c => decide (p c)) = true) :
    ∀ s ∈ ss, ∀ c ∈ s.toList, p c := fun s hs =>
  forall_mem_of_all (List.all_eq_true.1 h s hs)

namespace Escape

/-- The text that escaped text stands for: the character references that
    escaping writes are resolved, everything else stands for itself. -/
def resolve : List Char → List Char
  | '&' :: 'a' :: 'm' :: 'p' :: ';' :: cs => '&' :: resolve cs
  | '&' :: 'l' :: 't' :: ';' :: cs => '<' :: resolve cs
  | '&' :: 'g' :: 't' :: ';' :: cs => '>' :: resolve cs
  | '&' :: 'q' :: 'u' :: 'o' :: 't' :: ';' :: cs => '"' :: resolve cs
  | '&' :: '#' :: 'x' :: '2' :: '7' :: ';' :: cs => '\'' :: resolve cs
  | c :: cs => c :: resolve cs
  | [] => []

theorem resolve_cons {c : Char} (h : c ≠ '&') (cs : List Char) :
    resolve (c :: cs) = c :: resolve cs := by
  rw [resolve.eq_def]
  split <;> simp_all

theorem resolve_contentChar (c : Char) (cs : List Char) :
    resolve (contentChar c ++ cs) = c :: resolve cs := by
  by_cases h₁ : c = '&'
  · subst h₁; rfl
  by_cases h₂ : c = '<'
  · subst h₂; rfl
  by_cases h₃ : c = '>'
  · subst h₃; rfl
  by_cases h₄ : c = '"'
  · subst h₄; rfl
  by_cases h₅ : c = '\''
  · subst h₅; rfl
  simp [contentChar, h₁, h₂, h₃, h₄, h₅, resolve_cons h₁]

theorem resolve_attributeChar (c : Char) (cs : List Char) :
    resolve (attributeChar c ++ cs) = c :: resolve cs := by
  by_cases h₁ : c = '&'
  · subst h₁; rfl
  by_cases h₂ : c = '"'
  · subst h₂; rfl
  by_cases h₃ : c = '<'
  · subst h₃; rfl
  by_cases h₄ : c = '>'
  · subst h₄; rfl
  simp [attributeChar, h₁, h₂, h₃, h₄, resolve_cons h₁]

/-- Resolving undoes the escaping of content. -/
theorem resolve_content (s : List Char) : resolve (s.flatMap contentChar) = s := by
  induction s with
  | nil => rfl
  | cons c cs ih => rw [List.flatMap_cons, resolve_contentChar, ih]

/-- Resolving undoes the escaping of attribute values. -/
theorem resolve_attributeValue (s : List Char) : resolve (s.flatMap attributeChar) = s := by
  induction s with
  | nil => rfl
  | cons c cs ih => rw [List.flatMap_cons, resolve_attributeChar, ih]

end Escape

/-- The attribute that a key and an awaited value stand for, if there is one. -/
def shownAttribute (key : String) (value : AttrValue) : Option (String × Option String) :=
  if key = "className" then
    if value.isOmitted then none else some ("class", some value.text)
  else
    match value with
    | .bool true => some (key, none)
    | v => if v.isOmitted then none else some (key, some v.text)

/-- The attribute that an entry of an element stands for. -/
def Attributes.shownEntry (entry : String × AttrValue) : Option (String × Option String) :=
  if reserved.contains entry.1 then none else shownAttribute entry.1 entry.2.settle

/-- The attributes an element shows, in the order of their insertion. -/
def Attributes.shown (attrs : Attributes) : List (String × Option String) :=
  attrs.entries.filterMap shownEntry

/-- The key under which an attribute is shown. -/
def shownKey (key : String) : String := if key = "className" then "class" else key

theorem shownAttribute_key {key : String} {v : AttrValue} {a : String × Option String}
    (h : shownAttribute key v = some a) : a.1 = shownKey key := by
  unfold shownAttribute at h
  unfold shownKey
  split at h
  · next hkey =>
    rw [if_pos hkey]
    split at h
    · exact absurd h (by simp)
    · rw [← Option.some.inj h]
  · next hkey =>
    rw [if_neg hkey]
    split at h
    · rw [← Option.some.inj h]
    · split at h
      · exact absurd h (by simp)
      · rw [← Option.some.inj h]

theorem Attributes.shownEntry_key {entry : String × AttrValue} {a : String × Option String}
    (h : shownEntry entry = some a) : a.1 = shownKey entry.1 := by
  unfold shownEntry at h
  split at h
  · exact absurd h (by simp)
  · exact shownAttribute_key h

namespace Node

mutual

/-- The content of a page tree.  A text is content that has been escaped
    already. -/
def content : Node → List Content
  | .pending n => content n
  | .array items => contentOfList items
  | .component _ _ _ result => content result
  | .failure _ _ _ _ => []
  | .element tag attrs children =>
    [.element tag attrs.shown
      (if isVoidTag tag then [] else Content.tidy (contentOfList children))]
  | .text s => [.text (String.ofList (Escape.resolve s.toList))]
  | .number x => [.text (Number.text .script x)]
  | .bool b => [.text (if b then "true" else "false")]
  | .null => []
  | .undefined => []

def contentOfList : List Node → List Content
  | [] => []
  | n :: ns => content n ++ contentOfList ns

end

mutual

/-- The content of a page tree is proper. -/
theorem proper_content (n : Node) : ∀ c ∈ n.content, Content.Proper c := by
  intro c hc
  cases n with
  | pending n => exact proper_content n c (by rwa [content] at hc)
  | array items => exact proper_contentOfList items c (by rwa [content] at hc)
  | component name attrs children result => exact proper_content result c (by rwa [content] at hc)
  | failure name attrs children message => exact absurd hc List.not_mem_nil
  | element tag attrs children =>
    rw [content, List.mem_singleton] at hc
    rw [hc]
    by_cases hvoid : isVoidTag tag
    · rw [if_pos hvoid]
      exact .element (fun _ => rfl) fun d hd => absurd hd List.not_mem_nil
    · rw [if_neg hvoid]
      exact .element (fun h => absurd h hvoid)
        (Content.proper_of_mem_tidy (proper_contentOfList children))
  | text s =>
    rw [content, List.mem_singleton] at hc
    rw [hc]
    exact .text _
  | number x =>
    rw [content, List.mem_singleton] at hc
    rw [hc]
    exact .text _
  | bool b =>
    rw [content, List.mem_singleton] at hc
    rw [hc]
    exact .text _
  | null => exact absurd hc List.not_mem_nil
  | undefined => exact absurd hc List.not_mem_nil

theorem proper_contentOfList (ns : List Node) : ∀ c ∈ contentOfList ns, Content.Proper c := by
  intro c hc
  cases ns with
  | nil => exact absurd hc List.not_mem_nil
  | cons n ns =>
    rw [contentOfList] at hc
    rcases List.mem_append.1 hc with hc | hc
    · exact proper_content n c hc
    · exact proper_contentOfList ns c hc

end

end Node

end PageTree
