/-
  PageTree/Callback/Basic.lean
  ============================
  **Callbacks that run in the browser.**

  A callback is a list of parameters, a body of statements and a flag for
  asynchronous ones.  It is written as a function expression of the script
  language.
-/

namespace PageTree

/-- A function that is carried on an attribute and runs in the browser. -/
structure Callback where
  params : List String
  body : String
  isAsync : Bool
deriving DecidableEq, Repr, Inhabited

/-- The callback as a function expression. -/
def Callback.expression (f : Callback) : String :=
  (if f.isAsync then "async " else "") ++ "function(" ++ String.intercalate "," f.params
    ++ ")\x7b" ++ f.body ++ "\x7d"

end PageTree
