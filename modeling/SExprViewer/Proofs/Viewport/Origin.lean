import SExprViewer.Proofs.Viewport.Document
import SExprViewer.Proofs.Viewport.Shown

/-! # Where the shown diagram comes from

What is shown was built from the last text that was read, if there has been no reset since
(`Reached`).  Its shape tells (`Reached.showsAs`), whatever else was done to it. -/
set_option autoImplicit false

namespace SExprViewer

variable {K : Type}

/-- What a diagram is built from. -/
structure Origin (K : Type) where
  measure : TextMeasure K
  layout : LayoutSettings K
  expr : Expr

theorem Diagram.map_modifyPlacement {β : Type} {f : Node K → β}
    (hf : ∀ n p, f { n with placement := p } = f n) (g : Placement K → Placement K) (path : Path)
    (d : Diagram K) : (modifyPlacement g path d).map f = d.map f := by
  refine Tree.map_modifyAt (fun t => ?_) path d
  obtain ⟨n, cs⟩ := t
  rw [Tree.modifyRoot, Tree.map_node, Tree.map_node, hf]

variable [Scalar K]

def Origin.shape (o : Origin K) : Diagram K :=
  (Diagram.build o.measure o.layout o.expr .first).1.shape

namespace Viewport

/-- What the diagram comes from after an operation: from the text that has been read, from nothing
after a reset, and else from what it came from before. -/
def originAfter (v : Viewport K) (origin : Option (Origin K)) : Operation K → Option (Origin K)
  | .setText measure text =>
    match (v.setText measure text).1, Expr.parse v.settings.parse text with
    | .ok true, .ok e => some ⟨measure, v.settings.layout, e⟩
    | _, _ => origin
  | .reset => none
  | _ => origin

/-- The viewports that a new one becomes by operations, and by nodes that are moved from outside,
with what their diagrams come from. -/
inductive Reached : Viewport K → Option (Origin K) → Prop
  | new (canvas : Size K) (settings : Settings K) : Reached (new canvas settings) none
  | apply {v : Viewport K} {origin : Option (Origin K)} (h : Reached v origin) (op : Operation K) :
      Reached (v.apply op) (v.originAfter origin op)
  | move {v : Viewport K} {origin : Option (Origin K)} (h : Reached v origin) (path : Path)
      (f : Placement K → Placement K) :
      Reached (v.modifyDiagram (Diagram.modifyPlacement f path)) origin

section ShowsAs
variable {β : Type} {f : Node K → β}

theorem showsAs_invariant (hf : Node.Lasting f) (image : Option (Tree β)) :
    Invariant Operation.LeavesReading (ShowsAs f image) where
  camera _ _ _ h := h.of_eq rfl rfl
  status _ _ _ _ h := h.of_eq rfl rfl
  loop _ _ _ _ h := h.of_eq rfl rfl
  step _ elapsed h := h.step hf elapsed
  arrange _ h := h.arrange hf
  hover _ p h := h.hover hf p
  click _ p h := h.click hf p
  reset _ hreset _ := hreset.elim
  setText _ _ _ hread _ := hread.elim
  setSettings _ _ _ h := h.of_eq rfl rfl

theorem showsAs_display (hf : Node.Lasting f) {v : Viewport K} {shown : Option (Diagram K)}
    (h : v.Showing shown) (measure : TextMeasure K) (e : Expr) : (v.display measure e).ShowsAs f
      (some ((Diagram.build measure v.settings.layout e v.nextId).1.map f)) :=
  ⟨_, (displays_display h measure e).showing, congrArg some (map_placed _ hf.moveTo hf.glideTo _)⟩

end ShowsAs

theorem showsAs_apply {v : Viewport K} {origin : Option (Origin K)}
    (h : v.ShowsAs Node.shape (origin.map Origin.shape)) (op : Operation K) :
    (v.apply op).ShowsAs Node.shape ((v.originAfter origin op).map Origin.shape) := by
  -- only a reading and a reset put up something else
  cases op with
  | setText measure text =>
      change (v.setText measure text).2.ShowsAs _ _
      rcases setText_cases v measure text with ⟨_, heq⟩ | ⟨_, err, _, heq⟩ | ⟨_, e, hparse, heq⟩
      · rw [originAfter, heq]
        exact h
      · rw [originAfter, heq]
        exact h.of_eq rfl rfl
      · rw [originAfter, heq, hparse]
        obtain ⟨shown, hshowing, _⟩ := h
        rw [Option.map_some, Origin.shape, ← Diagram.shape_build e v.nextId .first]
        exact showsAs_display Node.lasting_shape
          (v := { v with document := ⟨some text, none⟩ }) (hshowing.of_eq rfl rfl) measure e
  | reset =>
      obtain ⟨shown, hshowing, _⟩ := h
      exact ⟨none, hshowing.dropDiagram.of_eq rfl rfl, rfl⟩
  | _ => exact (showsAs_invariant Node.lasting_shape _).apply trivial h

theorem Reached.showsAs {v : Viewport K} {origin : Option (Origin K)} (h : Reached v origin) :
    v.ShowsAs Node.shape (origin.map Origin.shape) := by
  induction h with
  | new canvas settings => exact ⟨none, showing_new canvas settings, rfl⟩
  | apply _ op ih => exact showsAs_apply ih op
  | move _ path f ih =>
      exact ih.modifyDiagram (Diagram.map_modifyPlacement (fun _ _ => rfl) f path)
        (Diagram.map_modifyPlacement (fun _ _ => rfl) f path)

theorem Reached.setText {v : Viewport K} {origin : Option (Origin K)} (h : Reached v origin)
    {text : String} {e : Expr} (hnew : v.document.text ≠ some text)
    (hparse : Expr.parse v.settings.parse text = .ok e) (measure : TextMeasure K) :
    Reached (v.setText measure text).2 (some ⟨measure, v.settings.layout, e⟩) := by
  have happly := h.apply (.setText measure text)
  rw [originAfter, setText_of_parse hnew hparse, hparse] at happly
  exact happly

theorem Reached.applyAll (ops : List (Operation K)) : ∀ {v : Viewport K}
    {origin : Option (Origin K)}, Reached v origin → (∀ op ∈ ops, op.LeavesReading) →
      Reached (v.applyAll ops) origin := by
  induction ops with
  | nil => intro v origin h _; exact h
  | cons op ops ih =>
      intro v origin h hops
      have horigin : v.originAfter origin op = origin := by
        have hop := hops op List.mem_cons_self
        cases op <;> first | rfl | exact hop.elim
      exact ih (horigin ▸ h.apply op) fun op' hop' => hops op' (List.mem_cons_of_mem _ hop')

/-- While there is an origin there is a diagram, of the shape that its origin gives it. -/
theorem Reached.exists_diagram {v : Viewport K} {o : Origin K} (h : Reached v (some o)) :
    ∃ d, v.Showing (some d) ∧ d.shape = o.shape := by
  obtain ⟨shown, hshowing, hshape⟩ := h.showsAs
  obtain ⟨d, rfl, hd⟩ := Option.map_eq_some_iff.mp hshape
  exact ⟨d, hshowing, hd⟩

theorem Reached.showing_none {v : Viewport K} (h : Reached v none) : v.Showing none := by
  obtain ⟨shown, hshowing, hshape⟩ := h.showsAs
  exact Option.map_eq_none_iff.mp hshape ▸ hshowing

end Viewport

end SExprViewer
