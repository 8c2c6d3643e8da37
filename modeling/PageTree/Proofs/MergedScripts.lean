/-
  PageTree/Proofs/MergedScripts.lean
  ==================================
  **Scripts merged one after another.**

  The inline scripts of an element share one script element.  Its place is settled
  when the first of them comes, while nodes are still being collected; it is put
  there, with the sources of all of them, when the last script has been seen.

    * `SlotInBounds.take`, `slotInBounds_collect`: the place is always one among
      the nodes collected so far;
    * `finish?_collect`: what comes of it in the end;
    * `scripts_merged`: no node is lost or moved.
-/
import PageTree.Proofs.Handled

namespace PageTree

/-! ### One script after another -/

/-- What has been collected of the scripts seen so far. -/
structure ScriptMerge where
  nodes : List Node := []
  sources : List String := []
  /-- How many nodes there were when the first source came. -/
  slot : Option Nat := none

namespace ScriptMerge

/-- Sees one script more. -/
def take (m : ScriptMerge) : Script → ScriptMerge
  | .inline s => { m with sources := m.sources ++ [s], slot := m.slot.or (some m.nodes.length) }
  | .node n => { m with nodes := m.nodes ++ [n] }

def collect (scripts : List Script) : ScriptMerge := scripts.foldl take {}

/-- The nodes, with the element of all sources put in its place.  There is no such
    list if the place is beyond the last node. -/
def finish? (m : ScriptMerge) : Option (List Node) :=
  match m.slot with
  | none => some m.nodes
  | some slot =>
    if slot ≤ m.nodes.length then
      some (m.nodes.insertIdx slot (scriptElement (String.intercalate "\n" m.sources)))
    else none

/-! ### The place of the element -/

/-- The place of the element is one among the nodes or right behind them. -/
def SlotInBounds (m : ScriptMerge) : Prop := ∀ slot ∈ m.slot, slot ≤ m.nodes.length

theorem SlotInBounds.take {m : ScriptMerge} (h : m.SlotInBounds) (script : Script) :
    (m.take script).SlotInBounds := by
  intro slot here
  cases script with
  | inline s =>
    cases known : m.slot with
    | none =>
      rw [ScriptMerge.take, known] at here
      exact (Option.some.inj here).ge
    | some n =>
      rw [ScriptMerge.take, known] at here
      exact h slot (known.trans here)
  | node n =>
    have before := h slot here
    rw [ScriptMerge.take, List.length_append]
    omega

theorem slotInBounds_collect (scripts : List Script) : (collect scripts).SlotInBounds := by
  induction scripts using List.reverseRecOn with
  | nil => exact fun _ here => nomatch here
  | append_singleton seen script ih =>
    rw [collect, List.foldl_append]
    exact ih.take script

/-! ### All scripts -/

/-- Once there is a place for the element, it stays. -/
theorem foldl_take_of_slot (scripts : List Script) (m : ScriptMerge) {n : Nat}
    (known : m.slot = some n) :
    scripts.foldl take m
      = { nodes := m.nodes ++ scriptNodes scripts, sources := m.sources ++ inlineSources scripts,
          slot := some n } := by
  induction scripts generalizing m with
  | nil => simp [scriptNodes, inlineSources, ← known]
  | cons script scripts ih =>
    rw [List.foldl_cons]
    cases script with
    | inline s =>
      rw [ih (m.take (.inline s)) (by rw [take, known]; rfl)]
      simp [take, scriptNodes, inlineSources]
    | node d =>
      rw [ih (m.take (.node d)) known]
      simp [take, scriptNodes, inlineSources]

theorem finish?_foldl_take (nodes : List Node) (scripts : List Script) :
    (scripts.foldl take { nodes }).finish? = some (nodes ++ mergeScripts scripts) := by
  induction scripts generalizing nodes with
  | nil => simp [finish?, mergeScripts]
  | cons script scripts ih =>
    cases script with
    | node n =>
      have onward := ih (nodes ++ [n])
      rw [List.append_assoc, List.singleton_append] at onward
      exact onward
    | inline s =>
      have rest := foldl_take_of_slot scripts (take { nodes } (.inline s)) rfl
      have put (element : Node) :
          (nodes ++ scriptNodes scripts).insertIdx nodes.length element
            = nodes ++ element :: scriptNodes scripts :=
        List.modifyTailIdx_add (List.cons element) 0 nodes (scriptNodes scripts)
      rw [List.foldl_cons, rest, finish?]
      simp [take, mergeScripts, scriptElement, put]

theorem finish?_collect (scripts : List Script) :
    (collect scripts).finish? = some (mergeScripts scripts) :=
  finish?_foldl_take [] scripts

end ScriptMerge

/-! ### Nothing lost, nothing moved -/

theorem scriptNodes_append (scripts scripts' : List Script) :
    scriptNodes (scripts ++ scripts') = scriptNodes scripts ++ scriptNodes scripts' :=
  List.filterMap_append

theorem inlineSources_append (scripts scripts' : List Script) :
    inlineSources (scripts ++ scripts') = inlineSources scripts ++ inlineSources scripts' :=
  List.filterMap_append

theorem inlineSources_eq_nil {scripts : List Script} (h : ∀ s, Script.inline s ∉ scripts) :
    inlineSources scripts = [] := by
  rw [inlineSources, List.filterMap_eq_nil_iff]
  rintro (s | n) mem
  · exact absurd mem (h s)
  · rfl

/-- Nodes alone are what they were, and are followed by what comes of the rest. -/
theorem mergeScripts_append {scripts : List Script} (h : ∀ s, Script.inline s ∉ scripts)
    (rest : List Script) :
    mergeScripts (scripts ++ rest) = scriptNodes scripts ++ mergeScripts rest := by
  induction scripts with
  | nil => rfl
  | cons script scripts ih =>
    have onward := ih fun s mem => h s (List.mem_cons_of_mem script mem)
    cases script with
    | inline s => exact absurd List.mem_cons_self (h s)
    | node n => exact congrArg (n :: ·) onward

/-- What scripts come to as nodes, all sources in one element. -/
structure Merged (scripts : List Script) (nodes : List Node) : Prop where
  /-- Without a source there is nothing but the nodes, in their order. -/
  plain : (∀ s, Script.inline s ∉ scripts) → nodes = scriptNodes scripts
  /-- Otherwise one element with the sources, in their order, stands among the nodes,
      behind those that came before the first source. -/
  shared : ∀ before s after, scripts = before ++ .inline s :: after →
    (∀ s', Script.inline s' ∉ before) →
    ∃ front back, scriptNodes scripts = front ++ back ∧
      front.length = (scriptNodes before).length ∧
      nodes = front ++ scriptElement (String.intercalate "\n" (inlineSources scripts)) :: back

/-- **Merging scripts** loses no node and moves none: whatever has been seen, the place
    of the element is one among the nodes collected by then, so that it can be put there
    in the end, and only this element is new. -/
theorem scripts_merged (scripts : List Script) :
    (ScriptMerge.collect scripts).SlotInBounds ∧
      (ScriptMerge.collect scripts).finish? = some (mergeScripts scripts) ∧
      Merged scripts (mergeScripts scripts) := by
  refine ⟨ScriptMerge.slotInBounds_collect scripts, ScriptMerge.finish?_collect scripts, ?_, ?_⟩
  · intro alone
    have all := mergeScripts_append alone []
    rwa [List.append_nil, mergeScripts, List.append_nil] at all
  · rintro before s after rfl alone
    refine ⟨scriptNodes before, scriptNodes after, scriptNodes_append _ _, rfl, ?_⟩
    rw [mergeScripts_append alone, inlineSources_append, inlineSources_eq_nil alone]
    rfl

example (a b : Node) (s t : String) :
    mergeScripts [.node a, .inline s, .node b, .inline t]
      = [a, scriptElement (String.intercalate "\n" [s, t]), b] := rfl

end PageTree
