/-
  PageTree/Proofs/Live/Consistency.lean
  =====================================
  **Elements show what their components answer.**

  In a run of operations nobody reads the document back: an element shows what was
  written into it when its component was last told of a change.  That is still
  what its component would answer now.  A body that is a view looks at its states
  and at the contexts only, whoever changes one of them tells the component, and
  no other component writes into the element.  If the body fails, the element
  goes on showing what the body answered before.

    * `Operation.served`: every operation is carried out.
    * `Run.consistent`: what holds after each operation of a run.
    * `mounted_shows_answer`: elements and components agree.
-/
import PageTree.Proofs.Live.Departures
import PageTree.Proofs.Live.Roots

namespace PageTree.Live

variable {P : Callbacks} {μ : Type}

/-! ### Operations -/

/-- What is done to mounted components from outside. -/
inductive Operation (P : Callbacks) where
  | mount (id : String) (body : P.Body)
  | unmount (number : Nat)
  | set (s : Setter) (v : Value)
  | update (s : Setter) (next : Value → Value)
  | setContext (h : ContextHandle) (v : Value)
  | updateContext (h : ContextHandle) (next : Value → Value)

def Operation.routine : Operation P → Routine P μ Unit
  | mount id body => do
    let _ ← Routine.request (.mount id body)
    return ()
  | unmount n => Routine.request (.unmount n)
  | set s v => do
    let _ ← Routine.request (.write s v)
    return ()
  | update s next => do
    let _ ← Routine.update s next
    return ()
  | setContext h v => do
    let _ ← Routine.request (.writeContext h v)
    return ()
  | updateContext h next => do
    let _ ← Routine.updateContext h next
    return ()

theorem serveOutside_eq_some {β : Type} {calls : Calls P μ} {r : Request P β} {a : β}
    {w w' : World P μ} (served : calls.serve none r w = some (a, w'))
    (kept : w'.client.abandoned = false) : calls.serveOutside r w = some (a, w') := by
  refine Act.bind_eq_some.2 ⟨a, w', served, ?_⟩
  have settled : w'.client.settle = w'.client := by
    simp [Client.settle, kept]
  rw [Act.change_bind, settled]
  rfl

/-- Whatever the operation, it is carried out, and everything is ready for the
    next one. -/
theorem Operation.served {p : Program P μ} {view : String → P.Body → View μ}
    (draws : p.Draws view) (depth : Nat) {c : Client P} (ready : Ready c) (memory : μ)
    (op : Operation P) :
    ∃ c' memory' ws, p.run (depth + 1) op.routine ⟨c, memory⟩ = some ((), ⟨c', memory'⟩) ∧
      Served view c c' ws := by
  have answers {β : Type} {r : Request P β} {a : β} {c' : Client P} {memory' : μ}
      {ws : List (String × String)}
      (answered : (p.invoke (depth + 1)).serve none r ⟨c, memory⟩ = some (a, ⟨c', memory'⟩))
      (served : Served view c c' ws) :
      (p.invoke (depth + 1)).serveOutside r ⟨c, memory⟩ = some (a, ⟨c', memory'⟩) :=
    serveOutside_eq_some answered served.ready.kept
  cases op with
  | mount id body =>
    obtain ⟨a, c', memory', ws, mounted, served⟩ := mount_served draws depth ready memory id body
    have answer := answers (r := .mount id body) mounted served
    exact ⟨c', memory', ws, Act.bind_eq_some.2 ⟨a, _, answer, rfl⟩, served⟩
  | unmount n =>
    obtain ⟨c', unmounted, served⟩ := unmount_served ready (p.invoke (depth + 1)) memory n
    have answer := answers (r := .unmount n) unmounted served
    exact ⟨c', memory, [], Act.bind_eq_some.2 ⟨(), _, answer, rfl⟩, served⟩
  | set s v =>
    obtain ⟨b, c', memory', ws, written, served⟩ := write_served draws depth ready memory s v
    have answer := answers (r := .write s v) written served
    exact ⟨c', memory', ws, Act.bind_eq_some.2 ⟨b, _, answer, rfl⟩, served⟩
  | update s next =>
    have read := answers (r := .read s) (a := c.read s) rfl (.refl ready)
    cases found : c.read s with
    | none =>
      rw [found] at read
      exact ⟨c, memory, [], Act.bind_eq_some.2 ⟨none, _, read, rfl⟩, .refl ready⟩
    | some before =>
      rw [found] at read
      obtain ⟨b, c', memory', ws, written, served⟩ :=
        write_served draws depth ready memory s (next before)
      have answer := answers (r := .write s (next before)) written served
      refine ⟨c', memory', ws, Act.bind_eq_some.2 ⟨some before, _, read, ?_⟩, served⟩
      exact Act.bind_eq_some.2 ⟨b, _, answer, rfl⟩
  | setContext h v =>
    obtain ⟨a, c', memory', ws, written, served⟩ :=
      writeContext_served draws depth ready memory h v
    have answer := answers (r := .writeContext h v) written served
    exact ⟨c', memory', ws, Act.bind_eq_some.2 ⟨a, _, answer, rfl⟩, served⟩
  | updateContext h next =>
    have read := answers (r := .readContext h) (a := c.contextValue h.id h.kind) rfl (.refl ready)
    cases found : c.contextValue h.id h.kind with
    | error e =>
      rw [found] at read
      exact ⟨c, memory, [], Act.bind_eq_some.2 ⟨.error e, _, read, rfl⟩, .refl ready⟩
    | ok before =>
      rw [found] at read
      obtain ⟨a, c', memory', ws, written, served⟩ :=
        writeContext_served draws depth ready memory h (next before)
      have answer := answers (r := .writeContext h (next before)) written served
      refine ⟨c', memory', ws, Act.bind_eq_some.2 ⟨.ok before, _, read, ?_⟩, served⟩
      exact Act.bind_eq_some.2 ⟨a, _, answer, rfl⟩

/-! ### What components answer now -/

namespace Program

/-- What the callback of an instance answers if it is called now. -/
def answer (p : Program P μ) (depth : Nat) (w : World P μ) (n : Nat) :
    Option (Except Fault String) :=
  (w.client.instance? n).bind fun i =>
    ((p.invoke (depth + 1)).runPass i.element i.body w).map (·.1)

/-- The markup that the callback of an instance answers now, unless it fails. -/
def markup (p : Program P μ) (depth : Nat) (w : World P μ) (n : Nat) : Option String :=
  (p.answer depth w n).bind (·.toOption)

/-- The markup that the callback of an instance answered when it last did not
    fail, given what the world was like at earlier moments, the latest first. -/
def lastMarkup (p : Program P μ) (depth n : Nat) (earlier : List (World P μ)) : Option String :=
  earlier.findSome? fun w => p.markup depth w n

variable {p : Program P μ} {view : String → P.Body → View μ} (draws : p.Draws view) (depth : Nat)
  {w : World P μ} {n : Nat} {i : Instance P} (alive : Alive w.client n i)

include draws alive

theorem answer_of_draws : p.answer depth w n = some (i.answer view w.client) := by
  obtain ⟨c', memory', answered, _⟩ :=
    runPass_of_draws draws depth w.client w.memory i.element i.body
  rw [answer, alive.1, Option.bind_some, answered]
  rfl

theorem markup_of_draws : p.markup depth w n = (i.answer view w.client).toOption := by
  rw [markup, answer_of_draws draws depth alive, Option.bind_some]

end Program

/-! ### Runs -/

/-- The client when there are elements and contexts, and nothing is mounted. -/
def Client.opened (elements : List (String × String)) (contexts : List (String × Value)) :
    Client P :=
  contexts.foldl (fun c (id, v) => (c.createContext id v).2)
    (Client.new (Document.ofElements elements))

/-- Of the components that are mounted after an operation, none is nested in
    another one, and their markup assigns no ids of elements that were there
    before, but for those nested in their own element. -/
structure Proper (p : Program P μ) (depth : Nat) (w w' : World P μ) : Prop where
  apart : ∀ x ∈ w'.client.mounted.keys, ∀ y ∈ w'.client.mounted.keys, x ≠ y →
    ¬ w.client.document.Within x y
  fresh : ∀ e ∈ w'.client.mounted.entries, ∀ html ∈ p.markup depth w' e.2,
    ∀ id ∈ Markup.assignedIds html, id ≠ e.1 → w.client.document.has id = true →
      w.client.document.Within id e.1

instance (p : Program P μ) (depth : Nat) (w w' : World P μ) : Decidable (Proper p depth w w') :=
  decidable_of_iff (_ ∧ _) ⟨fun ⟨apart, fresh⟩ => ⟨apart, fresh⟩, fun h => ⟨h.apart, h.fresh⟩⟩

/-- One operation after another, and what the world was like before each, the
    latest first. -/
inductive Run (p : Program P μ) (depth : Nat) : List (World P μ) → World P μ → Prop
  | start (elements : List (String × String)) (contexts : List (String × Value)) (memory : μ) :
      Run p depth [] ⟨Client.opened elements contexts, memory⟩
  | step {earlier w w'} (way : Run p depth earlier w) (op : Operation P)
      (answered : p.run (depth + 1) op.routine w = some ((), w'))
      (proper : Proper p depth w w') : Run p depth (w :: earlier) w'

theorem ready_opened (elements : List (String × String)) (contexts : List (String × Value)) :
    Ready (Client.opened elements contexts : Client P) ∧
      (Client.opened elements contexts : Client P).document = Document.ofElements elements ∧
      (Client.opened elements contexts : Client P).instances = [] := by
  let Opened (c : Client P) : Prop :=
    Ready c ∧ c.document = Document.ofElements elements ∧ c.instances = []
  have new : Opened (Client.new (Document.ofElements elements)) := by
    refine ⟨⟨placed_new _, ⟨List.nodup_nil, ?_⟩, rfl, ?_, ?_, ?_⟩, rfl, rfl⟩
    · intro id r found
      cases found
    · intro id k l listed
      cases listed
    · intro n i found
      cases found
    · intro id n stored
      cases stored
  rw [Client.opened]
  refine List.foldlRecOn (motive := Opened) contexts _ new ?_
  rintro c ⟨ready, document, instances⟩ e _
  exact ⟨ready.congr rfl rfl rfl rfl rfl rfl ⟨ready.keys, ready.plain⟩, document, instances⟩

/-! ### Consistency -/

/-- The element of an instance shows what its body answers, or else what it
    answered last. -/
def Shows (p : Program P μ) (depth : Nat) (view : String → P.Body → View μ)
    (earlier : List (World P μ)) (w : World P μ) (n : Nat) (i : Instance P) : Prop :=
  ∃ html, w.client.document.html? i.element = some html ∧
    (∀ current, i.answer view w.client = .ok current → html = current) ∧
    ∀ fault, i.answer view w.client = .error fault → p.lastMarkup depth n earlier = some html

/-- What holds after each operation of a run. -/
structure Consistent (p : Program P μ) (depth : Nat) (view : String → P.Body → View μ)
    (earlier : List (World P μ)) (w : World P μ) : Prop where
  ready : Ready w.client
  rooted : w.client.document.Rooted
  shows : ∀ n i, Alive w.client n i → Shows p depth view earlier w n i

section

variable {p : Program P μ} {view : String → P.Body → View μ} {depth : Nat}
  {earlier : List (World P μ)} {w w' : World P μ}

theorem Shows.present {n : Nat} {i : Instance P} (shows : Shows p depth view earlier w n i) :
    w.client.document.has i.element = true := by
  obtain ⟨html, shown, _⟩ := shows
  obtain ⟨e, found, _⟩ := Option.map_eq_some_iff.1 shown
  exact Document.has_iff.2 ⟨e, found⟩

/-- What an element shows is the last markup of its component. -/
theorem Shows.last (draws : p.Draws view) {n : Nat} {i : Instance P}
    (alive : Alive w.client n i) (shows : Shows p depth view earlier w n i) :
    p.lastMarkup depth n (w :: earlier) = w.client.document.html? i.element := by
  obtain ⟨html, shown, now, before⟩ := shows
  have markup := Program.markup_of_draws draws depth alive
  rw [Program.lastMarkup, List.findSome?_cons, markup, shown]
  cases answered : i.answer view w.client with
  | ok current => exact congrArg some (now current answered).symm
  | error fault => exact before fault answered

/-- The elements that components are mounted on. -/
def Client.Hosts (c : Client P) (x : String) : Prop := ∃ n i, Alive c n i ∧ i.element = x

/-- The components mounted after a proper operation stand apart before it. -/
theorem Consistent.separate (consistent : Consistent p depth view earlier w)
    {ws : List (String × String)} (served : Served view w.client w'.client ws)
    (proper : Proper p depth w w') : w.client.document.Separate w'.client.Hosts := by
  have listed {x : String} (hx : w'.client.Hosts x) : x ∈ w'.client.mounted.keys := by
    obtain ⟨n, i, alive, rfl⟩ := hx
    have stored := served.ready.inTable n i alive
    exact List.mem_map.2 ⟨_, OrderedMap.mem_of_get? stored, rfl⟩
  constructor
  · rintro x ⟨n, i, alive, rfl⟩
    cases served.fates n i alive with
    | kept before => exact (consistent.shows n i before).present
    | redrawn before => exact (consistent.shows n i before).present
    | new present => exact present
  · intro x y hx hy within
    by_cases same : x = y
    · subst same
      exact consistent.rooted.acyclic x within
    · exact proper.apart x (listed hx) y (listed hy) same within

/-- What a proper operation writes is clear of all mounted components. -/
theorem Consistent.clear (draws : p.Draws view) (consistent : Consistent p depth view earlier w)
    {ws : List (String × String)} (served : Served view w.client w'.client ws)
    (proper : Proper p depth w w') {u : String × String} (written : u ∈ ws) {x : String}
    (hx : w'.client.Hosts x) : w.client.document.Clear u x := by
  have separate := consistent.separate served proper
  obtain ⟨n, i, alive, element, answered⟩ := served.writes u written
  refine separate.clear consistent.rooted ⟨n, i, alive, element⟩ ?_ hx
  have stored := served.ready.inTable n i alive
  rw [element] at stored
  apply proper.fresh (u.1, n) (OrderedMap.mem_of_get? stored)
  rw [Program.markup_of_draws draws depth alive, answered]
  rfl

/-- The document after a proper operation: an element shows what was written into
    it, or else what it showed. -/
theorem Consistent.written (draws : p.Draws view) (consistent : Consistent p depth view earlier w)
    {ws : List (String × String)} (served : Served view w.client w'.client ws)
    (proper : Proper p depth w w') :
    w'.client.document.Rooted ∧ ∀ x html, w'.client.Hosts x →
      (∀ u ∈ ws, u.1 = x → u.2 = html) →
        w'.client.document.html? x
          = if x ∈ ws.map (·.1) then some html else w.client.document.html? x := by
  have separate := consistent.separate served proper
  have owns : ∀ u ∈ ws, w'.client.Hosts u.1 := by
    intro u hu
    obtain ⟨n, i, alive, element, _⟩ := served.writes u hu
    exact ⟨n, i, alive, element⟩
  have clear : ∀ u ∈ ws, ∀ x, w'.client.Hosts x → w.client.document.Clear u x :=
    fun u hu x hx => consistent.clear draws served proper hu hx
  rw [served.document]
  exact (separate.writeAll ws consistent.rooted owns clear).2

section

variable (draws : p.Draws view) (consistent : Consistent p depth view earlier w)
  {ws : List (String × String)} (served : Served view w.client w'.client ws)
  (proper : Proper p depth w w') {n : Nat} {i : Instance P} (alive : Alive w'.client n i)

include draws consistent served proper alive

/-- If the body answers, its element shows the answer: it was written, or else the
    body answers what the element showed before. -/
theorem Consistent.html?_of_ok {current : String}
    (answered : i.answer view w'.client = .ok current) :
    w'.client.document.html? i.element = some current := by
  have shown := (consistent.written draws served proper).2 i.element current ⟨n, i, alive, rfl⟩
    fun u hu own => by
      have written := served.answer_of_written alive hu own
      exact Except.ok.inj (written.symm.trans answered)
  rw [shown]
  split
  · rfl
  · next unwritten =>
    have absent : (i.element, current) ∉ ws := fun h => unwritten (List.mem_map.2 ⟨_, h, rfl⟩)
    cases served.fates n i alive with
    | kept before same =>
      obtain ⟨old, was, now, _⟩ := consistent.shows n i before
      rw [was, now current (same.symm.trans answered)]
    | redrawn _ written => exact absurd (written current answered) absent
    | new _ answered' written =>
      obtain rfl := Except.ok.inj (answered.symm.trans answered')
      exact absurd written absent

/-- If the body fails, nothing was written into its element, and the component was
    there before. -/
theorem Consistent.html?_of_error {fault : Fault}
    (answered : i.answer view w'.client = .error fault) :
    Alive w.client n i ∧
      w'.client.document.html? i.element = w.client.document.html? i.element := by
  have unwritten (u : String × String) (hu : u ∈ ws) : u.1 ≠ i.element := by
    intro own
    rw [served.answer_of_written alive hu own] at answered
    cases answered
  have shown := (consistent.written draws served proper).2 i.element "" ⟨n, i, alive, rfl⟩
    fun u hu own => absurd own (unwritten u hu)
  have absent : i.element ∉ ws.map (·.1) := by
    intro listed
    obtain ⟨u, hu, own⟩ := List.mem_map.1 listed
    exact unwritten u hu own
  rw [if_neg absent] at shown
  refine ⟨?_, shown⟩
  cases served.fates n i alive with
  | kept before => exact before
  | redrawn before => exact before
  | new _ answered' =>
    rw [answered'] at answered
    cases answered

end

/-- A proper operation leaves elements and components in agreement. -/
theorem Consistent.step (draws : p.Draws view) (consistent : Consistent p depth view earlier w)
    {ws : List (String × String)} (served : Served view w.client w'.client ws)
    (proper : Proper p depth w w') : Consistent p depth view (w :: earlier) w' := by
  refine ⟨served.ready, (consistent.written draws served proper).1, ?_⟩
  intro n i alive
  cases answered : i.answer view w'.client with
  | ok current =>
    refine ⟨current, consistent.html?_of_ok draws served proper alive answered, ?_, ?_⟩
    · intro other answered'
      exact Except.ok.inj (answered.symm.trans answered')
    · intro fault failed
      rw [answered] at failed
      cases failed
  | error fault =>
    obtain ⟨before, same⟩ := consistent.html?_of_error draws served proper alive answered
    have shows := consistent.shows n i before
    have last := shows.last draws before
    obtain ⟨html, was, _⟩ := shows
    refine ⟨html, same.trans was, ?_, fun _ _ => last.trans was⟩
    intro current answered'
    rw [answered] at answered'
    cases answered'

theorem Run.consistent (draws : p.Draws view) (run : Run p depth earlier w) :
    Consistent p depth view earlier w := by
  induction run with
  | start elements contexts memory =>
    obtain ⟨ready, document, instances⟩ := ready_opened (P := P) elements contexts
    refine ⟨ready, ?_, ?_⟩
    · rw [show World.client _ = _ from rfl, document]
      exact Document.rooted_ofElements elements
    · rintro n i ⟨found, _⟩
      rw [Client.instance?, instances] at found
      cases found
  | @step earlier w w' way op answered proper ih =>
    obtain ⟨c', memory', ws, carried, served⟩ := op.served draws depth ih.ready w.memory
    obtain rfl : w' = ⟨c', memory'⟩ :=
      congrArg Prod.snd (Option.some.inj (answered.symm.trans carried))
    exact ih.step draws served proper

/-- After every operation of a run each operation can be carried out, the table
    lists the components that are mounted, and the element of each shows what its
    callback answers now or, when that fails, the markup of its last successful
    render. -/
theorem mounted_shows_answer (draws : p.Draws view) (run : Run p depth earlier w) :
    (∀ op : Operation P, ∃ w', p.run (depth + 1) op.routine w = some ((), w')) ∧
      (∀ id n, w.client.mounted.get? id = some n ↔
        ∃ i, Alive w.client n i ∧ i.element = id) ∧
      ∀ id n, w.client.mounted.get? id = some n →
        ∃ result html, p.answer depth w n = some result ∧
          w.client.document.html? id = some html ∧
          (∀ current, result = .ok current → html = current) ∧
          ∀ fault, result = .error fault → p.lastMarkup depth n earlier = some html := by
  have consistent := run.consistent draws
  refine ⟨fun op => ?_, fun id n => ⟨?_, ?_⟩, ?_⟩
  · obtain ⟨c', memory', _, carried, _⟩ := op.served draws depth consistent.ready w.memory
    exact ⟨_, carried⟩
  · exact consistent.ready.occupied id n
  · rintro ⟨i, alive, rfl⟩
    exact consistent.ready.inTable n i alive
  · intro id n stored
    obtain ⟨i, alive, rfl⟩ := consistent.ready.occupied id n stored
    obtain ⟨html, shown, now, before⟩ := consistent.shows n i alive
    exact ⟨_, html, Program.answer_of_draws draws depth alive, shown, now, before⟩

end

/-! ### A run -/

/-- Components without effects or listeners. -/
abbrev lamps : Callbacks where
  Body := Unit
  Effect := Unit
  Cleanup := Unit
  Listener := Unit
  View := Unit

/-- Shows the context, unless the state is 13. -/
def lampView : View Unit :=
  .state false (.int 0) fun s => .context true "light" .text fun t =>
    .shows <| match s, t with
      | .ok (.int n, _), .ok (.text light) =>
        if n = 13 then .error (.render "broken") else .ok light
      | _, _ => .error (.render "no light")

def lampProgram : Program lamps Unit where
  render _ _ := lampView.routine
  effect _ := return none
  cleanup _ := return ()
  listener _ := return ()
  view _ _ := return ""

def lampStep (w : World lamps Unit) (op : Operation lamps) : World lamps Unit :=
  ((lampProgram.run 1 op.routine w).getD ((), w)).2

/-- Two lamps are mounted, then one breaks, and then the light changes. -/
def lampOperations : List (Operation lamps) :=
  [.mount "a" (), .mount "b" (), .set ⟨"a", 0, .int⟩ (.int 13),
    .setContext ⟨"light", .text⟩ (.text "bright")]

/-- The world after the first operations. -/
def lampWorld (k : Nat) : World lamps Unit :=
  (lampOperations.take k).foldl lampStep
    ⟨Client.opened [("a", ""), ("b", "")] [("light", .text "dim")], ()⟩

theorem run_lampStep (w : World lamps Unit) (op : Operation lamps)
    (answers : (lampProgram.run 1 op.routine w).isSome = true) :
    lampProgram.run 1 op.routine w = some ((), lampStep w op) :=
  (Option.getD_of_ne_none (Option.isSome_iff_ne_none.1 answers) _).symm

theorem run_lamps :
    Run lampProgram 0 [lampWorld 3, lampWorld 2, lampWorld 1, lampWorld 0] (lampWorld 4) := by
  have start : Run lampProgram 0 [] (lampWorld 0) := .start _ _ ()
  have one : Run lampProgram 0 _ (lampWorld 1) :=
    .step start (.mount "a" ()) (run_lampStep _ _ (by decide +kernel)) (by decide +kernel)
  have two : Run lampProgram 0 _ (lampWorld 2) :=
    .step one (.mount "b" ()) (run_lampStep _ _ (by decide +kernel)) (by decide +kernel)
  have broken : Run lampProgram 0 _ (lampWorld 3) :=
    .step two (.set ⟨"a", 0, .int⟩ (.int 13)) (run_lampStep _ _ (by decide +kernel))
      (by decide +kernel)
  exact .step broken (.setContext ⟨"light", .text⟩ (.text "bright"))
    (run_lampStep _ _ (by decide +kernel)) (by decide +kernel)

/-- The broken lamp shows what it showed before, the other one the new light. -/
theorem lamps_show_light :
    lampProgram.Draws (fun _ _ => lampView) ∧
      Run lampProgram 0 [lampWorld 3, lampWorld 2, lampWorld 1, lampWorld 0] (lampWorld 4) ∧
      (∃ result html, lampProgram.answer 0 (lampWorld 4) 0 = some result ∧
        (lampWorld 4).client.document.html? "a" = some html ∧
        (∀ current, result = .ok current → html = current) ∧
        ∀ fault, result = .error fault →
          lampProgram.lastMarkup 0 0 [lampWorld 3, lampWorld 2, lampWorld 1, lampWorld 0]
            = some html) ∧
      (lampWorld 4).client.document.html? "a" = some "dim" ∧
      (lampWorld 4).client.document.html? "b" = some "bright" := by
  have draws : lampProgram.Draws (fun _ _ => lampView) := fun _ _ => rfl
  have law := mounted_shows_answer draws run_lamps
  exact ⟨draws, run_lamps, law.2.2 "a" 0 (by decide +kernel), by decide +kernel,
    by decide +kernel⟩

end PageTree.Live
