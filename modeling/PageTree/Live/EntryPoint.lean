/-
  PageTree/Live/EntryPoint.lean
  =============================
  **The names generated scripts call the client by.**
-/

namespace PageTree.Live.EntryPoint

/-- The global object that holds the entry points. -/
def globalObject : String := "duplex"

/-- The entry points, in the order they are installed. -/
def all : List String :=
  ["reactiveComponent", "useState", "useEffect", "useRef", "createContext", "useContext",
    "deleteContext", "createRouter", "navigate", "__getComponentState"]

def qualified (entry : String) : String := globalObject ++ "." ++ entry

end PageTree.Live.EntryPoint
