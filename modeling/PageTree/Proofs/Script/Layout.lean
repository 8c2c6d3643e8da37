/-
  PageTree/Proofs/Script/Layout.lean
  ==================================
  **The layout of generated code.**

  Of a page tree the walk reaches a forest of texts, failed components and tag
  elements: arrays, components and what is pending give way to what they hold, and
  an element whose handlers take its children over, or whose tag has no content,
  has nothing inside.  The code goes through this forest from front to back.  The
  elements are declared under the numbers 0, 1, 2 and so on, each of them once,
  then come the statements of its handlers, then it is appended to the element
  around it.

    * `CodeWriter.reach`, `Reached.visits`: the forest, and the way through it;
    * `CodeWriter.walk_eq_visits`: the code is what the visits say;
    * `CodeWriter.numbers_visits`: the elements are numbered in the order of the way;
    * `code_layout`: the whole code.
-/
import PageTree.Proofs.Places
import PageTree.Proofs.Script.Building

namespace PageTree

/-! ### What the walk reaches -/

/-- A part of a page tree that the walk reaches. -/
inductive Reached where
  | text (s : String)
  | failure (name message : String)
  /-- A tag element; so many variables and ids had been taken before it. -/
  | element (tag : String) (attrs : Attributes) (count : CodeCount) (inside : List Reached)

namespace CodeWriter

variable (w : CodeWriter)

mutual

/-- What the walk reaches of a node, and the variables and ids taken after it. -/
def reach : Node → CodeCount → List Reached × CodeCount
  | .pending n, k => reach n k
  | .array items, k => reachList items k
  | .component _ _ _ result, k => reach result k
  | .failure name _ _ message, k => ([.failure name message], k)
  | .element tag attrs children, k =>
    let c := w.registry.code (w.ids k.ids) (w.variableName k.vars) attrs
    let (inside, after) :=
      if c.lock || Node.isVoidTag tag then ([], entered c.who k)
      else reachList children (entered c.who k)
    ([.element tag attrs k inside], after)
  | .text s, k => ([.text s], k)
  | .number x, k => ([.text (Number.text .script x)], k)
  | .bool b, k => ([.text (if b then "true" else "false")], k)
  | .null, k => ([], k)
  | .undefined, k => ([], k)

def reachList : List Node → CodeCount → List Reached × CodeCount
  | [], k => ([], k)
  | n :: ns, k =>
    let (first, k) := reach n k
    let (rest, k) := reachList ns k
    (first ++ rest, k)

end

end CodeWriter

/-- A step on the way through what is reached; `around` is the number of the nearest
    element around it, if there is one. -/
inductive Visit where
  | text (around : Option Nat) (s : String)
  | failure (around : Option Nat) (name message : String)
  | element (around : Option Nat) (tag : String) (attrs : Attributes) (count : CodeCount)

namespace Visit

def around : Visit → Option Nat
  | text around _ => around
  | failure around _ _ => around
  | element around _ _ _ => around

/-- The number of the element that is visited. -/
def number? : Visit → Option Nat
  | element _ _ _ count => some count.vars
  | _ => none

end Visit

namespace Reached

mutual

/-- The visits to a part and to what is inside of it, from front to back. -/
def visits (around : Option Nat) : Reached → List Visit
  | text s => [.text around s]
  | failure name message => [.failure around name message]
  | element tag attrs count inside =>
    .element around tag attrs count :: visitsOf (some count.vars) inside

def visitsOf (around : Option Nat) : List Reached → List Visit
  | [] => []
  | r :: rs => visits around r ++ visitsOf around rs

end

theorem visitsOf_singleton (around : Option Nat) (r : Reached) :
    visitsOf around [r] = visits around r := by
  rw [visitsOf, visitsOf, List.append_nil]

theorem visitsOf_append (around : Option Nat) (rs ss : List Reached) :
    visitsOf around (rs ++ ss) = visitsOf around rs ++ visitsOf around ss := by
  induction rs with
  | nil => rfl
  | cons r rs ih => rw [List.cons_append, visitsOf, visitsOf, ih, List.append_assoc]

end Reached

/-! ### The statements of the visits -/

namespace CodeWriter

variable (w : CodeWriter) (root : String)

/-- The name of an element with a number, or of the root. -/
def nameOf : Option Nat → String
  | none => root
  | some n => w.variableName n

/-- The statements of a visit.  An element is created, its handlers have their
    statements, and it is appended to the element around it. -/
def statementsAt : Visit → List Statement
  | .text around s => textStatements (w.nameOf root around) s
  | .failure around name message =>
    [.appendComment (w.nameOf root around) (Escape.comment (Node.failureText name message))]
  | .element around tag attrs count =>
    let var := w.variableName count.vars
    .create var tag :: (w.registry.code (w.ids count.ids) var attrs).statements
      ++ [.append (w.nameOf root around) var]

variable {w root}

theorem nameOf_injective (free : ∀ i, root ≠ w.variableName i) :
    Function.Injective (w.nameOf root) := by
  intro a b same
  cases a with
  | none =>
    cases b with
    | none => rfl
    | some j => exact absurd same (free j)
  | some i =>
    cases b with
    | none => exact absurd same.symm (free i)
    | some j => exact congrArg some (w.variableName_injective same)

theorem textStatements_bool (parent : String) (b : Bool) :
    textStatements parent (if b then "true" else "false")
      = [.appendText parent (if b then "true" else "false")] := by
  cases b <;> rfl

mutual

/-- The statements of a node are those of the visits to what is reached of it. -/
theorem walk_eq_visits (around : Option Nat) (n : Node) (k : CodeCount) :
    w.walk (w.nameOf root around) n k
      = ((Reached.visitsOf around (w.reach n k).1).flatMap (w.statementsAt root),
          (w.reach n k).2) := by
  cases n with
  | pending n =>
    rw [walk, reach]
    exact walk_eq_visits around n k
  | array items =>
    rw [walk, reach]
    exact walkList_eq_visits around items k
  | component name attrs children result =>
    rw [walk, reach]
    exact walk_eq_visits around result k
  | failure name attrs children message =>
    rw [walk, reach, Reached.visitsOf_singleton]
    rfl
  | element tag attrs children =>
    rw [walk, reach, ← entered]
    generalize made : w.registry.code (w.ids k.ids) (w.variableName k.vars) attrs = c
    cases closed : c.lock || Node.isVoidTag tag with
    | true => simp [Reached.visits, Reached.visitsOf, statementsAt, made]
    | false =>
      have inside := walkList_eq_visits (some k.vars) children (entered c.who k)
      rw [nameOf] at inside
      simp [Reached.visits, Reached.visitsOf, statementsAt, made, inside]
  | text s =>
    rw [walk, reach, Reached.visitsOf_singleton]
    simp [Reached.visits, statementsAt]
  | number x =>
    rw [walk, reach, Reached.visitsOf_singleton]
    simp [Reached.visits, statementsAt]
  | bool b =>
    rw [walk, reach, Reached.visitsOf_singleton, ← textStatements_bool]
    simp [Reached.visits, statementsAt]
  | null => rfl
  | undefined => rfl

theorem walkList_eq_visits (around : Option Nat) (ns : List Node) (k : CodeCount) :
    w.walkList (w.nameOf root around) ns k
      = ((Reached.visitsOf around (w.reachList ns k).1).flatMap (w.statementsAt root),
          (w.reachList ns k).2) := by
  cases ns with
  | nil => rfl
  | cons n ns =>
    have first := walk_eq_visits around n k
    have rest := walkList_eq_visits around ns (w.reach n k).2
    rw [walkList, reachList, first]
    dsimp only
    rw [rest, Reached.visitsOf_append, List.flatMap_append]

end

mutual

/-- The numbers of the elements run on from the variables that had been taken. -/
theorem numbers_visits (around : Option Nat) (n : Node) (k : CodeCount) :
    k.vars ≤ (w.reach n k).2.vars ∧
      (Reached.visitsOf around (w.reach n k).1).filterMap Visit.number?
        = List.range' k.vars ((w.reach n k).2.vars - k.vars) := by
  cases n with
  | pending n =>
    rw [reach]
    exact numbers_visits around n k
  | array items =>
    rw [reach]
    exact numbers_visitsOf around items k
  | component name attrs children result =>
    rw [reach]
    exact numbers_visits around result k
  | element tag attrs children =>
    rw [reach]
    generalize w.registry.code (w.ids k.ids) (w.variableName k.vars) attrs = c
    have next : (entered c.who k).vars = k.vars + 1 := rfl
    cases closed : c.lock || Node.isVoidTag tag with
    | true => simp [Reached.visits, Reached.visitsOf, Visit.number?, next]
    | false =>
      obtain ⟨grows, inside⟩ := numbers_visitsOf (some k.vars) children (entered c.who k)
      rw [next] at grows inside
      have split : (w.reachList children (entered c.who k)).2.vars - k.vars
          = (w.reachList children (entered c.who k)).2.vars - (k.vars + 1) + 1 := by
        omega
      simp only [Bool.false_eq_true, if_false, Reached.visitsOf_singleton, Reached.visits,
        Visit.number?, List.filterMap_cons, inside, split, List.range'_succ, and_true]
      omega
  | failure name attrs children message =>
    simp [reach, Reached.visits, Reached.visitsOf, Visit.number?]
  | text s => simp [reach, Reached.visits, Reached.visitsOf, Visit.number?]
  | number x => simp [reach, Reached.visits, Reached.visitsOf, Visit.number?]
  | bool b => simp [reach, Reached.visits, Reached.visitsOf, Visit.number?]
  | null => simp [reach, Reached.visitsOf]
  | undefined => simp [reach, Reached.visitsOf]

theorem numbers_visitsOf (around : Option Nat) (ns : List Node) (k : CodeCount) :
    k.vars ≤ (w.reachList ns k).2.vars ∧
      (Reached.visitsOf around (w.reachList ns k).1).filterMap Visit.number?
        = List.range' k.vars ((w.reachList ns k).2.vars - k.vars) := by
  cases ns with
  | nil => simp [reachList, Reached.visitsOf]
  | cons n ns =>
    obtain ⟨grows, first⟩ := numbers_visits around n k
    obtain ⟨grows', rest⟩ := numbers_visitsOf around ns (w.reach n k).2
    rw [reachList]
    dsimp only
    rw [Reached.visitsOf_append, List.filterMap_append, first, rest]
    have split : (w.reachList ns (w.reach n k).2).2.vars - k.vars
        = ((w.reach n k).2.vars - k.vars)
          + ((w.reachList ns (w.reach n k).2).2.vars - (w.reach n k).2.vars) := by
      omega
    refine ⟨grows.trans grows', ?_⟩
    rw [split, ← List.range'_append_1, Nat.add_sub_cancel' grows]

end

end CodeWriter

/-! ### What is around a visit -/

/-- On the way the element around a visit has been visited before, unless it is the one
    around all of them. -/
def Visit.Enclosed (outermost : Option Nat) (vs : List Visit) : Prop :=
  ∀ front v back i, vs = front ++ v :: back → v.around = some i →
    outermost = some i ∨ i ∈ front.filterMap Visit.number?

namespace Visit.Enclosed

variable {outermost : Option Nat} {vs us : List Visit}

theorem nil : Enclosed outermost [] := by
  intro front v back i split
  simp at split

theorem single {v : Visit} (same : v.around = outermost) : Enclosed outermost [v] := by
  intro front u back i split around
  obtain ⟨rfl, rfl, rfl⟩ : front = [] ∧ v = u ∧ back = [] := by
    cases front <;> simp_all
  exact .inl (same ▸ around)

theorem append (h : Enclosed outermost vs) (h' : Enclosed outermost us) :
    Enclosed outermost (vs ++ us) := by
  intro front v back i split around
  rcases List.append_eq_append_iff.1 split with ⟨front', rfl, rest⟩ | ⟨back', rfl, rest⟩
  · rw [List.filterMap_append, List.mem_append]
    exact (h' front' v back i rest around).imp_right .inr
  · cases back' with
    | nil =>
      have first : us = [] ++ v :: back := rest.symm
      exact (h' [] v back i first around).imp_right fun mem => absurd mem List.not_mem_nil
    | cons u back' =>
      obtain ⟨rfl, -⟩ := List.cons.inj rest
      exact h front v back' i rfl around

/-- An element is around what is inside of it. -/
theorem cons {tag : String} {attrs : Attributes} {count : CodeCount}
    (inside : Enclosed (some count.vars) vs) :
    Enclosed outermost (.element outermost tag attrs count :: vs) := by
  intro front v back i split around
  cases front with
  | nil =>
    obtain ⟨rfl, -⟩ := List.cons.inj split
    exact .inl around
  | cons u front =>
    obtain ⟨rfl, rest⟩ := List.cons.inj split
    right
    rw [List.filterMap_cons_some (show Visit.number? (.element _ _ _ _) = some count.vars from rfl),
      List.mem_cons]
    rcases inside front v back i rest around with own | earlier
    · exact .inl (Option.some.inj own).symm
    · exact .inr earlier

end Visit.Enclosed

namespace Reached

mutual

theorem enclosed_visits (around : Option Nat) (r : Reached) :
    Visit.Enclosed around (visits around r) := by
  cases r with
  | text s => exact .single rfl
  | failure name message => exact .single rfl
  | element tag attrs count inside => exact (enclosed_visitsOf (some count.vars) inside).cons

theorem enclosed_visitsOf (around : Option Nat) (rs : List Reached) :
    Visit.Enclosed around (visitsOf around rs) := by
  cases rs with
  | nil => exact .nil
  | cons r rs => exact (enclosed_visits around r).append (enclosed_visitsOf around rs)

end

end Reached

/-! ### The whole code -/

/-- **The layout of generated code** that is not shortened or compacted and whose root
    has the name of no variable.  The code has the statements of the visits to what the
    walk reaches; of these, the elements are numbered from 0 on in the order of the way
    and have different names; an element is declared before it is appended to; and what
    stands at a place that the walk does not come to has no part in the code. -/
theorem code_layout (registry : Registry) (ids : Nat → String) {s : CodeSettings}
    (named : s.minify = false) (whole : s.compact = false)
    (free : ∀ i : Nat, s.rootName ≠ s.stem ++ toString i) (n : Node) (k : Nat) :
    let w : CodeWriter := ⟨registry, ids, s.stem⟩
    let visits := Reached.visitsOf none (w.reach n { ids := k }).1
    let numbers := visits.filterMap Visit.number?
    (codeOf registry ids s n k).1
      = codeText s.root (visits.flatMap (w.statementsAt s.rootName)) ∧
    numbers = List.range numbers.length ∧
    Function.Injective (w.nameOf s.rootName) ∧
    (∀ front v back i, visits = front ++ v :: back → v.around = some i →
      i ∈ front.filterMap Visit.number?) ∧
    ∀ place m m', n = Place.fill m place → ¬ w.Reaches place s.rootName { ids := k } →
      codeOf registry ids s (place.fill m') k = codeOf registry ids s n k := by
  intro w visits numbers
  refine ⟨?_, ?_, CodeWriter.nameOf_injective free, ?_, ?_⟩
  · have walked : w.walk s.rootName n { ids := k }
        = (visits.flatMap (w.statementsAt s.rootName), (w.reach n { ids := k }).2) :=
      CodeWriter.walk_eq_visits none n { ids := k }
    unfold codeOf statementsOf CodeSettings.finish
    dsimp only
    rw [walked, named, whole]
    rfl
  · have range : numbers = List.range' 0 ((w.reach n { ids := k }).2.vars - 0) :=
      (CodeWriter.numbers_visits none n { ids := k }).2
    rw [← List.range_eq_range'] at range
    rw [range, List.length_range]
  · intro front v back i split around
    rcases Reached.enclosed_visitsOf none _ front v back i split around with none | earlier
    · cases none
    · exact earlier
  · rintro place m m' rfl unreached
    rw [codeOf, codeOf, statementsOf, statementsOf, CodeWriter.walk_fill_unreached unreached m' m]

/-- With the default settings the root has the name of no variable. -/
theorem root_ne_variable (i : Nat) :
    ({} : CodeSettings).rootName ≠ ({} : CodeSettings).stem ++ toString i := by
  intro same
  have first := congrArg (·.toList.head?) same
  simp only [String.toList_append] at first
  exact absurd (Option.some.inj first) (by decide)

/-- A list in a component, with a void element, an element whose callback takes its
    children over, and a component that failed. -/
def indexSample : Node :=
  .array
    [.component "Index" ∅ []
      (.element "ul" ∅ [.element "li" ∅ [.text "a"], .pending (.element "hr" ∅ [.text "never"])]),
    .failure "Footer" ∅ [] "no data",
    .element "p" ⟨[("client", .string "e => e.remove()")]⟩ [.element "b" ∅ []]]

theorem indexSample_layout :
    let w : CodeWriter := ⟨.standard, fun _ => "x", "e"⟩
    let visits := Reached.visitsOf none (w.reach indexSample {}).1
    (codeOf .standard (fun _ => "x") {} indexSample 0).1
      = codeText (.element "root" "div") (visits.flatMap (w.statementsAt "root")) ∧
    visits.filterMap Visit.number? = [0, 1, 2, 3] ∧
    visits.map Visit.around = [none, some 0, some 1, some 0, none, none] := by
  intro w visits
  have numbers : visits.filterMap Visit.number? = [0, 1, 2, 3] := by decide +kernel
  obtain ⟨code, -⟩ :=
    code_layout .standard (fun _ => "x") (s := {}) rfl rfl root_ne_variable indexSample 0
  exact ⟨code, numbers, by decide +kernel⟩

end PageTree
