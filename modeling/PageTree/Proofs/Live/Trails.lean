/-
  PageTree/Proofs/Live/Trails.lean
  ================================
  **The states a client can reach.**

  A trail is a way from one state of the client to a later one, on which every
  small change is one that a service makes, with what services pass to it.  The
  tables are tidy at every state on a trail from the beginning.

    * `Trail.of_run`: every run follows a trail.
    * `Trail.tidy`: no key is used twice, and whoever renders an instance again is
      registered under its element.
-/
import PageTree.Proofs.Live.Instances
import PageTree.Proofs.Live.Writes

namespace PageTree.Live

variable {P : Callbacks} {μ α : Type}

/-! ### Trails -/

inductive Trail : Client P → Client P → Prop
  | refl (c) : Trail c c
  | step {c c' c''} (way : Trail c c') (step : Step c' c'') : Trail c c''
  | beginPass {c c'} (way : Trail c c') (id) : Trail c (c'.beginPass id).2
  | endPass {c c'} (way : Trail c c') (previous) : Trail c (c'.endPass previous)
  | take {c c' take} (way : Trail c c') (taken : Take take) : Trail c (take c').2
  | note {c c'} (way : Trail c c') (e) : Trail c (c'.note e)
  | settle {c c'} (way : Trail c c') : Trail c c'.settle

namespace Trail

theorem trans {c c' c'' : Client P} (h : Trail c c') (h' : Trail c' c'') : Trail c c'' := by
  induction h' with
  | refl => exact h
  | step _ step ih => exact .step ih step
  | beginPass _ id ih => exact .beginPass ih id
  | endPass _ previous ih => exact .endPass ih previous
  | take _ taken ih => exact .take ih taken
  | note _ e ih => exact .note ih e
  | settle _ ih => exact .settle ih

theorem path {c c' : Client P} (h : Trail c c') : Path c c' := by
  induction h with
  | refl => exact .refl _
  | step _ step ih => exact .change ih step.change
  | beginPass _ id ih => exact .beginPass ih id
  | endPass _ previous ih => exact .endPass ih previous
  | take _ taken ih => exact .take ih taken
  | note _ e ih => exact .note ih e
  | settle _ ih => exact .settle ih

end Trail

theorem trail_composes : Composes (Trail (P := P)) where
  refl := .refl
  trans := Trail.trans

theorem trail_regime : Regime (P := P) (fun _ => True) (fun _ _ => True) Trail := by
  apply trail_composes.regime
  · intro c c' step
    exact .step (.refl c) step
  · intro μ calls callbacks
    apply trail_composes.moves_runPass
    · intro c id
      exact .beginPass (.refl c) id
    · intro c previous
      exact .endPass (.refl c) previous
    · exact callbacks.render
  · intro μ calls callbacks take taken
    apply trail_composes.moves_undoAll
    · intro c
      exact .take (.refl c) taken
    · intro c d
      exact .note (.refl c) _
    · exact callbacks.cleanup

theorem Trail.of_run {p : Program P μ} {depth : Nat} {m : Routine P μ α} {w w' : World P μ} {a : α}
    (h : p.run depth m w = some (a, w')) : Trail w.client w'.client :=
  trail_regime.run (fun c => .settle (.refl c)) p.sends_all (fun _ _ _ _ _ _ => trivial)
    m.sends_all h

/-! ### Listeners along a trail -/

theorem Step.subscribed {c c' : Client P} (h : Step c c') (wired : Wired c)
    (subscribed : Subscribed c) : Subscribed c' := by
  have ages : Ages c c' := h.change.shift.ages
  cases h with
  | turn h =>
    apply subscribed.of_fewer ages
    intro id l n hl
    rcases h.aside with aside | ⟨m, rfl⟩ | ⟨other, l', rfl⟩
    · rwa [Client.listenersOf, aside.listeners] at hl
    · exact hl
    · rw [listenersOf_subscribe] at hl
      split at hl
      · simpa using hl
      · exact hl
  | unsubscribe other m =>
    apply subscribed.of_fewer ages
    intro id l n hl
    rw [listenersOf_unsubscribe wired.listenerKeys] at hl
    split at hl
    · exact List.mem_of_mem_filter hl
    · exact hl
  | beginRender n =>
    apply subscribed.of_fewer ages
    intro id l m hl
    rcases beginRender_eq c n with same | begun
    · rwa [same] at hl
    · rwa [begun] at hl
  | addInstance id body => exact subscribed.addInstance id body
  | endSubscription n =>
    apply subscribed.of_fewer ages
    intro id l m hl
    rcases endSubscription_eq c n with same | ⟨i, l', _, _, ended⟩
    · rwa [same] at hl
    · rw [ended] at hl
      have hl : (l, .rerender m) ∈ (c.unsubscribe i.element l').2.listenersOf id := hl
      rw [listenersOf_unsubscribe wired.listenerKeys] at hl
      split at hl
      · exact List.mem_of_mem_filter hl
      · exact hl
  | _ => exact subscribed.of_fewer ages fun _ _ _ hl => hl

theorem Take.subscribed {take : Client P → List (Due P) × Client P} (h : Take take)
    {c : Client P} (wired : Wired c) (subscribed : Subscribed c) : Subscribed (take c).2 := by
  have ages : Ages c (take c).2 := (Shift.of_take h c).ages
  apply subscribed.of_fewer ages
  intro id l n hl
  cases h with
  | takeCleanup e => exact hl
  | settleEffect e k =>
    simp only [Client.settleEffect] at hl
    split at hl <;> exact hl
  | forget other =>
    have hl : (l, .rerender n) ∈ ((c.listeners.erase other).get? id).getD [] := hl
    rw [get?_erase wired.listenerKeys] at hl
    split at hl
    · cases hl
    · exact hl
  | detach m i =>
    simp only [Client.listenersOf, (listeners_detach c m i).1] at hl
    exact hl
  | clear => cases hl

/-! ### The document along a trail -/

theorem DocumentStep.nodup_run {d : Document} (nodup : d.elements.keys.Nodup)
    (step : DocumentStep) : (step.run d).2.elements.keys.Nodup := by
  cases step with
  | insert id html => exact Document.nodup_write (OrderedMap.nodup_keys_insert nodup id {}) (id, html)
  | remove id => exact (Document.foldl_erase nodup _).1
  | setHtml id html => exact Document.nodup_write nodup (id, html)
  | _ => exact nodup

theorem nodup_ofElements (elements : List (String × String)) :
    (Document.ofElements elements).elements.keys.Nodup := by
  rw [Document.ofElements]
  refine List.foldlRecOn (motive := fun d : Document => d.elements.keys.Nodup) elements _
    List.nodup_nil ?_
  intro d nodup e _
  exact DocumentStep.nodup_run nodup (.insert e.1 e.2)

theorem Turn.document_eq {c c' : Client P} (h : Turn c c') :
    c'.document = c.document ∨ ∃ step : DocumentStep, c'.document = (step.run c.document).2 := by
  cases h.kind with
  | inward h => exact .inl h.document
  | routers h =>
    obtain ⟨_, rfl⟩ := h.rest
    exact .inl rfl
  | document step => exact .inr ⟨step, rfl⟩
  | _ => exact .inl rfl

theorem Step.nodup_elements {c c' : Client P} (h : Step c c')
    (nodup : c.document.elements.keys.Nodup) : c'.document.elements.keys.Nodup := by
  cases h with
  | turn h =>
    rcases h.document_eq with same | ⟨step, same⟩
    · rwa [same]
    · rw [same]
      exact step.nodup_run nodup
  | beginRender n =>
    rcases beginRender_eq c n with same | begun
    · rwa [same]
    · rwa [begun]
  | endSubscription n =>
    rcases endSubscription_eq c n with same | ⟨i, l, _, _, ended⟩
    · rwa [same]
    · rwa [ended]
  | _ => exact nodup

theorem Take.document_eq {take : Client P → List (Due P) × Client P} (h : Take take)
    (c : Client P) : (take c).2.document = c.document := by
  cases h with
  | settleEffect e k =>
    simp only [Client.settleEffect]
    split <;> rfl
  | detach n i =>
    simp only [Client.detach]
    split <;> rfl
  | _ => rfl

/-! ### Tidy tables -/

/-- No key is used twice, and whoever renders an instance again is registered
    under its element. -/
structure Tidy (c : Client P) : Prop where
  listenerKeys : c.listeners.keys.Nodup
  elementKeys : c.document.elements.keys.Nodup
  subscribed : Subscribed c

theorem Trail.tidy {elements : List (String × String)} {c : Client P}
    (h : Trail (Client.new (Document.ofElements elements)) c) : Tidy c := by
  refine ⟨(h.path.wired (wired_new _)).listenerKeys, ?_, ?_⟩
  · induction h with
    | refl => exact nodup_ofElements elements
    | step _ step ih => exact step.nodup_elements ih
    | take _ taken ih => rwa [taken.document_eq]
    | settle _ ih =>
      unfold Client.settle
      split <;> exact ih
    | _ => assumption
  · induction h with
    | refl => exact fun _ _ _ hl => nomatch hl
    | step way step ih => exact step.subscribed (way.path.wired (wired_new _)) ih
    | take way taken ih => exact taken.subscribed (way.path.wired (wired_new _)) ih
    | settle _ ih =>
      unfold Client.settle
      split
      · exact fun _ _ _ hl => nomatch hl
      · exact ih
    | _ => assumption

end PageTree.Live
