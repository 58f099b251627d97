import SExprViewer.Proofs.Stage.Texts
import SExprViewer.Proofs.Viewport.Origin

/-! # What the stage of a viewport holds

The stage of a viewport holds the diagram that the viewport knows and nothing else, through any
order of readings and resets, and a frame draws the labels of this diagram (`stage_current`). -/
set_option autoImplicit false

namespace SExprViewer.Viewport

variable {K : Type} [Scalar K]

def labels (v : Viewport K) : List String := v.diagram?.elim [] Diagram.labels

theorem Showing.labels_actors {v : Viewport K} {shown : Option (Diagram K)} (h : v.Showing shown)
    (elapsed : K) : (v.stage.actors.map (Actor.step elapsed)).flatMap Actor.labels = v.labels := by
  rw [labels, h.diagram?, h.actors]
  cases shown with
  | none => rfl
  | some d =>
      have hshape : (d.step elapsed).shape = d.shape := Diagram.map_step (fun _ => rfl) d
      change (d.step elapsed).labels ++ [] = d.labels
      rw [List.append_nil, ← Diagram.labels_shape, hshape, Diagram.labels_shape]

theorem Showing.texts_frame {v : Viewport K} {shown : Option (Diagram K)} (h : v.Showing shown)
    (hrunning : v.stage.running = true) {σ : Type} (host : FrameHost σ) (t : K) (w : σ) :
    ∃ s program, v.stage.frame? host t w = some (s, (host.request w).2, program) ∧
      ∀ list : DisplayList K, (list.run program).texts = list.texts ++ v.labels := by
  rw [Stage.frame?, if_pos hrunning]
  refine ⟨_, _, rfl, fun list => ?_⟩
  rw [DisplayList.texts_run, Stage.texts_picture]
  exact congrArg _ (h.labels_actors _)

/-- Whatever a viewport has gone through, the diagram of the last text that was read is all that
is on its stage, and is the one it knows; if none has been read since it was made or reset, the
stage is empty.  Every frame draws the labels of this diagram, and no other text. -/
theorem stage_current {v : Viewport K} {origin : Option (Origin K)} (h : Reached v origin) :
    (∀ o, origin = some o → ∃ d, v.stage.actors = [.diagram d] ∧ v.diagram? = some d ∧
      d.shape = o.shape) ∧
    (origin = none → v.stage.actors = [] ∧ v.diagram? = none) ∧
    ∀ (σ : Type) (host : FrameHost σ) (t : K) (w : σ), v.stage.running = true →
      ∃ s program, v.stage.frame? host t w = some (s, (host.request w).2, program) ∧
        ∀ list : DisplayList K, (list.run program).texts = list.texts ++ v.labels := by
  refine ⟨?_, ?_, fun σ host t w hrunning => ?_⟩
  · rintro o rfl
    obtain ⟨d, hshowing, hshape⟩ := h.exists_diagram
    exact ⟨d, hshowing.actors, hshowing.diagram?, hshape⟩
  · rintro rfl
    exact ⟨h.showing_none.actors, h.showing_none.diagram?⟩
  · obtain ⟨shown, hshowing, _⟩ := h.showsAs
    exact hshowing.texts_frame hrunning host t w

/-- Read again with another text. -/
theorem stage_current_reread :
    let measure : TextMeasure Float := fun _ => 6
    let new : Viewport Float := new ⟨800, 600⟩ .standard
    let first := (new.setText measure "()").2
    let v := (first.setText measure "('a')").2.startLoop 1 0
    Reached v (some ⟨measure, .standard, .list [.atom (.text "a")]⟩) ∧
      (∃ d, v.stage.actors = [.diagram d] ∧ v.diagram? = some d) ∧ v.stage.running = true ∧
      ∃ s w program, v.stage.frame? FrameQueue.host 16 .empty = some (s, w, program) ∧
        (DisplayList.empty.run program).texts = ["a"] := by
  intro measure new first v
  have hsettings : first.settings = .standard := settings_setText ..
  have hread : Reached v (some ⟨measure, .standard, .list [.atom (.text "a")]⟩) := by
    have hnew : Reached new none := .new _ _
    have htext : first.document.text ≠ some "('a')" := by
      rw [text_setText]
      decide
    have hparse : Expr.parse first.settings.parse "('a')" = .ok (.list [.atom (.text "a")]) := by
      rw [hsettings]
      exact parse_label
    have hagain := (hnew.setText nofun parse_empty measure).setText htext hparse measure
    rw [hsettings] at hagain
    exact hagain.apply (.startLoop 1 0)
  obtain ⟨hcurrent, -, hframe⟩ := stage_current hread
  obtain ⟨d, hactors, hd, hshape⟩ := hcurrent _ rfl
  obtain ⟨s, program, hprogram, htexts⟩ := hframe _ FrameQueue.host 16 .empty rfl
  have hlabels : v.labels = ["a"] := by
    rw [labels, hd, Option.elim_some, ← Diagram.labels_shape, hshape]
    rfl
  refine ⟨hread, ⟨d, hactors, hd⟩, rfl, s, _, program, hprogram, ?_⟩
  rw [htexts, hlabels]
  rfl

end SExprViewer.Viewport
