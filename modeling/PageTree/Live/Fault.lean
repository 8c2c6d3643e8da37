/-
  PageTree/Live/Fault.lean
  ========================
  **What can go wrong in the client.**
-/

namespace PageTree.Live

/-- The causes of failure. -/
inductive Fault where
  /-- A hook was called while no component was rendering. -/
  | hookOutsidePass (hook : String)
  /-- A hook position held another kind of value than the hook asked for. -/
  | hookChanged (component : String) (index : Nat)
  | noElement (id : String)
  | noContext (id : String)
  /-- A context holds another kind of value. -/
  | contextKind (id : String)
  | noRouter (id : String)
  | render (reason : String)
deriving DecidableEq, Repr

namespace Fault

def name : Fault → String
  | hookOutsidePass _ => "InvalidHookCall"
  | hookChanged _ _ => "HookTypeMismatch"
  | noElement _ => "ElementNotFound"
  | noContext _ => "UnknownContext"
  | contextKind _ => "ContextTypeMismatch"
  | noRouter _ => "UnknownRouter"
  | render _ => "Render"

def message : Fault → String
  | hookOutsidePass hook => "`" ++ hook ++ "` called outside of a component render pass"
  | hookChanged component index =>
    "hook #" ++ toString index ++ " of component `" ++ component ++ "` changed type between renders"
  | noElement id => "element `" ++ id ++ "` not found"
  | noContext id => "context `" ++ id ++ "` does not exist"
  | contextKind id => "context `" ++ id ++ "` holds a value of a different type"
  | noRouter id => "router `" ++ id ++ "` does not exist"
  | render reason => "render failed: " ++ reason

end Fault

end PageTree.Live
