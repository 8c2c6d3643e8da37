/-
  PageTree/Handler/Standard.lean
  ==============================
  **The standard handlers.**

  `className` sets the class, `client` relocates a callback and takes over the
  children, `reactive` mounts a component, and every key that begins with `on`
  listens to an event.
-/
import PageTree.Handler.Basic

namespace PageTree

namespace Handler

open Behaviour

/-- A strategy that leaves the attributes alone. -/
def keeping {α : Type} (f : ElementView → α) (v : ElementView) : α × Attributes := (f v, v.attrs)

/-- The output of a behaviour as an inline script. -/
def inlineBehaviour (v : ElementView) (b : Behaviour) (lock : Bool) : MarkupOutput :=
  { scripts := [.inline (b.statement (.byId v.id))], lock := lock }

def className : Handler where
  key := .exact "className"
  markup := some (keeping fun v =>
    if v.value.isOmitted then {}
    else { html := " class=\"" ++ Escape.attributeValue v.value.text ++ "\"" })
  code := some fun var => keeping fun v =>
    if v.value.isOmitted then {} else { statements := [.setClass var v.value.text] }

/-- The relocated callback of a value. -/
def relocation? (v : ElementView) : Option Behaviour :=
  (callback? v.value).map fun f => .relocate f (v.attrs.toJson v.key).compact

/-- A callback that is called with the element. -/
def client : Handler where
  key := .exact "client"
  readsSiblings := true
  markup := some (keeping fun v =>
    match relocation? v with
    | some b => inlineBehaviour v b true
    | none => {})
  code := some fun var => keeping fun v =>
    match relocation? v with
    | some b => { statements := [.attach var b], lock := true }
    | none => {}

/-- A component that renders into the element. -/
def reactive : Handler where
  key := .exact "reactive"
  markup := some (keeping fun v =>
    match callbackText? v.value with
    | some f => inlineBehaviour v (.reactive v.id f) false
    | none => {})
  code := some fun var => keeping fun v =>
    match callbackText? v.value with
    | some f =>
      { statements := (if v.explicitId then [] else [.setId var v.id])
          ++ [.attachLater var (.reactive v.id f)] }
    | none => {}

def events : Handler where
  key := .startingWith "on"
  markup := some (keeping fun v =>
    match callbackText? v.value with
    | some f => inlineBehaviour v (.listen (eventOf v.key) f) false
    | none => {})
  code := some fun var => keeping fun v =>
    match callbackText? v.value with
    | some f => { statements := [.attach var (.listen (eventOf v.key) f)] }
    | none => {}

end Handler

def Registry.standard : Registry :=
  [Handler.className, Handler.client, Handler.reactive, Handler.events]

end PageTree
