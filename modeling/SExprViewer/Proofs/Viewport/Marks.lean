import SExprViewer.Proofs.Diagram.Hit
import SExprViewer.Proofs.Viewport.Operation

/-! # Marks and the paths that tell them

The viewport remembers by path what is active and what is selected, and the nodes carry marks of
their own.  The two agree in every run (`marks_applyAll`): a node is marked as active exactly
when it is at the remembered path or below, as selected exactly when it is at that path itself,
and without a diagram no path is remembered.  Both kinds of mark are moved in the same way, so
one lemma does for both (`Tells.remark`). -/
set_option autoImplicit false

namespace SExprViewer

namespace Diagram

variable {K : Type}

/-- A mark is on the nodes that a remembered path reaches, and this path leads to a node. -/
structure Tells (mark : Node K → Bool) (reaches : Path → Path → Prop) (path : Option Path)
    (d : Diagram K) : Prop where
  mark_iff : ∀ q n, d.valueAt? q = some n → (mark n = true ↔ ∃ p, path = some p ∧ reaches p q)
  leads : ∀ p, path = some p → (d.at? p).isSome = true

variable {mark : Node K → Bool} {reaches : Path → Path → Prop}

theorem Tells.of_map_eq {path : Option Path} {d d' : Diagram K} (h : Tells mark reaches path d')
    (hmap : d.map mark = d'.map mark) : Tells mark reaches path d where
  mark_iff q n hn := by
    have hvalue := Tree.valueAt?_map mark d q
    rw [hmap, Tree.valueAt?_map, hn] at hvalue
    obtain ⟨n', hn', heq⟩ := Option.map_eq_some_iff.mp hvalue
    rw [← heq]
    exact h.mark_iff q n' hn'
  leads p hp := by
    have hat := congrArg (fun t => (Tree.at? t p).isSome) hmap
    simp only [Tree.at?_map, Option.isSome_map] at hat
    rw [hat]
    exact h.leads p hp

/-- Setting a mark at a path sets it where the path reaches, and nowhere else. -/
structure Sets (mark : Node K → Bool) (reaches : Path → Path → Prop)
    (assign : Bool → Path → Diagram K → Diagram K) : Prop where
  reached : ∀ {b p q}, reaches p q → ∀ d n, (assign b p d).valueAt? q = some n → mark n = b
  missed : ∀ {b p q}, ¬ reaches p q → ∀ d, (assign b p d).valueAt? q = d.valueAt? q
  isSome_at? : ∀ b p d q, ((assign b p d).at? q).isSome = (d.at? q).isSome

variable {assign : Bool → Path → Diagram K → Diagram K}

theorem Tells.erase (hassign : Sets mark reaches assign) {p : Path} {d : Diagram K}
    (h : Tells mark reaches (some p) d) : Tells mark reaches none (assign false p d) where
  mark_iff q n hn := by
    by_cases hq : reaches p q
    · simp [hassign.reached hq d n hn]
    · rw [hassign.missed hq] at hn
      rw [h.mark_iff q n hn]
      simp [hq]
  leads p hp := by cases hp

theorem Tells.put (hassign : Sets mark reaches assign) {p : Path} {d : Diagram K}
    (h : Tells mark reaches none d) (hp : (d.at? p).isSome = true) :
    Tells mark reaches (some p) (assign true p d) where
  mark_iff q n hn := by
    by_cases hq : reaches p q
    · simp [hassign.reached hq d n hn, hq]
    · rw [hassign.missed hq] at hn
      rw [h.mark_iff q n hn]
      simp [hq]
  leads q hq := by
    cases hq
    rw [hassign.isSome_at?]
    exact hp

/-- A mark that is moved from one path to another follows. -/
theorem Tells.remark (hassign : Sets mark reaches assign) {before after : Option Path}
    {d : Diagram K} (h : Tells mark reaches before d)
    (hafter : ∀ p, after = some p → (d.at? p).isSome = true) :
    Tells mark reaches after (Viewport.remark assign before after d) := by
  -- the old path may lead above the new one or below, so nothing is put before all is taken off
  have hnone : Tells mark reaches none (Viewport.remark assign before none d) := by
    cases before with
    | none => exact h
    | some p => exact h.erase hassign
  cases after with
  | none => exact hnone
  | some q =>
      refine hnone.put hassign ?_
      have hq := hafter q rfl
      cases before with
      | none => exact hq
      | some p =>
          change ((assign false p d).at? q).isSome = true
          rw [hassign.isSome_at?]
          exact hq

/-! ## The two kinds of mark -/

theorem isSome_at?_of_map_eq {d d' : Diagram K} (h : d.map Node.id = d'.map Node.id) (q : Path) :
    (d.at? q).isSome = (d'.at? q).isSome := by
  have hat := congrArg (fun t => (Tree.at? t q).isSome) h
  simpa only [Tree.at?_map, Option.isSome_map] using hat

theorem sets_active : Sets (K := K) Node.active (· <+: ·) setActive where
  reached {b p q} hq d n hn := by
    rw [setActive, Tree.valueAt?_modifyAt_map, if_pos hq] at hn
    obtain ⟨m, _, rfl⟩ := Option.map_eq_some_iff.mp hn
    rfl
  missed {b p q} hq d := by rw [setActive, Tree.valueAt?_modifyAt_map, if_neg hq]
  isSome_at? b p d := isSome_at?_of_map_eq (map_setActive (fun _ _ => rfl) b p d)

theorem sets_selected : Sets (K := K) Node.selected (· = ·) setSelected where
  reached {b p q} hq d n hn := by
    rw [setSelected, Tree.valueAt?_modifyAt_modifyRoot, if_pos hq.symm] at hn
    obtain ⟨m, _, rfl⟩ := Option.map_eq_some_iff.mp hn
    rfl
  missed {b p q} hq d := by
    rw [setSelected, Tree.valueAt?_modifyAt_modifyRoot, if_neg (Ne.symm hq)]
  isSome_at? b p d := isSome_at?_of_map_eq (map_setSelected (fun _ _ => rfl) b p d)

theorem tells_none {d : Diagram K} (h : d.All fun n => mark n = false) :
    Tells mark reaches none d where
  mark_iff q n hn := by simp [h q n hn]
  leads p hp := by cases hp

end Diagram

namespace Viewport

open Diagram (Tells)

variable {K : Type}

/-- The marks of what is shown are those that two paths tell. -/
def MarksAgree (active selected : Option Path) : Option (Diagram K) → Prop
  | none => active = none ∧ selected = none
  | some d => Tells Node.active (· <+: ·) active d ∧ Tells Node.selected (· = ·) selected d

theorem MarksAgree.map {active selected : Option Path} {shown : Option (Diagram K)}
    (h : MarksAgree active selected shown) {f : Diagram K → Diagram K}
    (hactive : ∀ d, (f d).map Node.active = d.map Node.active)
    (hselected : ∀ d, (f d).map Node.selected = d.map Node.selected) :
    MarksAgree active selected (shown.map f) := by
  cases shown with
  | none => exact h
  | some d => exact ⟨h.1.of_map_eq (hactive d), h.2.of_map_eq (hselected d)⟩

def Agreeing (v : Viewport K) : Prop :=
  ∃ shown, v.Showing shown ∧ MarksAgree v.active v.selected shown

theorem Agreeing.of_eq {v v' : Viewport K} (h : v.Agreeing) (hroot : v'.root = v.root)
    (hactors : v'.stage.actors = v.stage.actors) (hactive : v'.active = v.active)
    (hselected : v'.selected = v.selected) : v'.Agreeing := by
  obtain ⟨shown, hshowing, hmarks⟩ := h
  refine ⟨shown, hshowing.of_eq hroot hactors, ?_⟩
  rw [hactive, hselected]
  exact hmarks

variable [Scalar K]

theorem Agreeing.arrange {v : Viewport K} (h : v.Agreeing) : v.arrange.Agreeing := by
  obtain ⟨shown, hshowing, hmarks⟩ := h
  refine ⟨_, hshowing.arrange, ?_⟩
  unfold Viewport.arrange
  rw [modifyDiagram_active, modifyDiagram_selected]
  exact hmarks.map (map_placed _ (fun _ _ => rfl) (fun _ _ _ => rfl))
    (map_placed _ (fun _ _ => rfl) (fun _ _ _ => rfl))

theorem Agreeing.step {v : Viewport K} (h : v.Agreeing) (elapsed : K) :
    Agreeing { v with stage := v.stage.step elapsed } := by
  obtain ⟨shown, hshowing, hmarks⟩ := h
  exact ⟨_, hshowing.step elapsed,
    hmarks.map (Diagram.map_step fun _ => rfl) (Diagram.map_step fun _ => rfl)⟩

theorem isSome_at?_of_hit? {v : Viewport K} {d : Diagram K} (h : v.diagram? = some d)
    (p : Point K) : ∀ path, v.hit? p = some path → (d.at? path).isSome = true := by
  intro path hpath
  rw [hit?_eq h] at hpath
  exact Diagram.isSome_at?_of_coversAt path _ d (Diagram.covers_of_hit? path _ d hpath)

theorem Agreeing.hover {v : Viewport K} (h : v.Agreeing) (p : Point K) :
    (v.hover p).2.Agreeing := by
  obtain ⟨shown, hshowing, hmarks⟩ := h
  rcases hover_cases v p with ⟨_, heq⟩ | ⟨hne, heq⟩
  · rw [heq]
    exact ⟨shown, hshowing, hmarks⟩
  · rw [heq]
    have hv : Showing { v with active := v.hit? p } shown := hshowing.of_eq rfl rfl
    refine ⟨_, hv.modifyDiagram (map_remark (Diagram.map_setActive fun _ _ => rfl) _ _), ?_⟩
    rw [modifyDiagram_active, modifyDiagram_selected]
    cases shown with
    | none =>
        -- without a diagram nothing is hit, and nothing was active
        rw [hmarks.1, hit?, hshowing.diagram?] at hne
        exact absurd rfl hne
    | some d =>
        refine ⟨hmarks.1.remark Diagram.sets_active (isSome_at?_of_hit? hshowing.diagram? p), ?_⟩
        exact hmarks.2.of_map_eq
          (map_remark (Diagram.map_setActive fun _ _ => rfl) _ _ d)

theorem Agreeing.click {v : Viewport K} (h : v.Agreeing) (p : Point K) :
    (v.click p).2.Agreeing := by
  obtain ⟨shown, hshowing, hmarks⟩ := h
  rcases click_cases v p with ⟨_, heq⟩ | ⟨hne, heq⟩
  · rw [heq]
    exact ⟨shown, hshowing, hmarks⟩
  · rw [heq]
    have hv : Showing { v with selected := v.hit? p } shown := hshowing.of_eq rfl rfl
    refine ⟨_, hv.modifyDiagram (map_remark (Diagram.map_setSelected fun _ _ => rfl) _ _), ?_⟩
    rw [modifyDiagram_active, modifyDiagram_selected]
    cases shown with
    | none =>
        rw [hmarks.2, hit?, hshowing.diagram?] at hne
        exact absurd rfl hne
    | some d =>
        refine ⟨?_, hmarks.2.remark Diagram.sets_selected (isSome_at?_of_hit? hshowing.diagram? p)⟩
        exact hmarks.1.of_map_eq
          (map_remark (Diagram.map_setSelected fun _ _ => rfl) _ _ d)

theorem Agreeing.setText {v : Viewport K} (h : v.Agreeing) (measure : TextMeasure K)
    (text : String) : (v.setText measure text).2.Agreeing := by
  obtain ⟨shown, hshowing, hmarks⟩ := h
  rcases setText_cases v measure text with ⟨_, heq⟩ | ⟨_, err, _, heq⟩ | ⟨_, e, _, heq⟩
  · rw [heq]
    exact ⟨shown, hshowing, hmarks⟩
  · rw [heq]
    exact ⟨shown, hshowing.of_eq rfl rfl, hmarks⟩
  · rw [heq]
    have hdisplays := displays_display (v := { v with document := ⟨some text, none⟩ })
      (hshowing.of_eq rfl rfl) measure e
    refine ⟨_, hdisplays.showing, ?_⟩
    rw [hdisplays.active, hdisplays.selected]
    have hbuilt : MarksAgree none none
        (some (Diagram.build measure v.settings.layout e v.nextId).1) :=
      ⟨Diagram.tells_none (Diagram.all_build (fun _ _ _ => rfl) e v.nextId),
        Diagram.tells_none (Diagram.all_build (fun _ _ _ => rfl) e v.nextId)⟩
    exact hbuilt.map (f := placed v.settings.layout)
      (map_placed _ (fun _ _ => rfl) (fun _ _ _ => rfl))
      (map_placed _ (fun _ _ => rfl) (fun _ _ _ => rfl))

theorem agreeing_invariant : Invariant (fun _ => True) (Agreeing (K := K)) where
  camera v f _ h := h.of_eq rfl rfl rfl rfl
  status v _ _ _ h := h.of_eq rfl rfl rfl rfl
  loop v _ _ _ h := h.of_eq rfl rfl rfl rfl
  step v elapsed h := h.step elapsed
  arrange v h := h.arrange
  hover v p h := h.hover p
  click v p h := h.click p
  reset v _ h := by
    obtain ⟨shown, hshowing, _⟩ := h
    exact ⟨none, hshowing.dropDiagram.of_eq rfl rfl, rfl, rfl⟩
  setText v measure text _ h := h.setText measure text
  setSettings v settings _ h := h.of_eq rfl rfl rfl rfl

/-- Whatever was done to a viewport, a node is marked as active when the active path leads to
it or above it, and as selected when the selected path leads to it; both paths lead to nodes
of what is shown. -/
theorem marks_applyAll (canvas : Size K) (settings : Settings K) (ops : List (Operation K)) :
    let v := (new canvas settings).applyAll ops
    (∀ d, v.diagram? = some d →
      (∀ q n, d.valueAt? q = some n →
        (n.active = true ↔ ∃ p, v.active = some p ∧ p <+: q) ∧
        (n.selected = true ↔ v.selected = some q)) ∧
      (∀ p, v.active = some p → (d.at? p).isSome = true) ∧
      (∀ p, v.selected = some p → (d.at? p).isSome = true)) ∧
    (v.diagram? = none → v.active = none ∧ v.selected = none) := by
  intro v
  have hnew : Agreeing (new canvas settings) := ⟨none, showing_new canvas settings, rfl, rfl⟩
  obtain ⟨shown, hshowing, hmarks⟩ : v.Agreeing :=
    agreeing_invariant.run ops _ (fun _ _ => trivial) hnew
  rw [hshowing.diagram?]
  cases shown with
  | none => exact ⟨fun d hd => absurd hd nofun, fun _ => hmarks⟩
  | some d =>
      refine ⟨fun d' hd' => ?_, fun hnone => absurd hnone nofun⟩
      cases hd'
      obtain ⟨hactive, hselected⟩ := hmarks
      refine ⟨fun q n hn => ⟨hactive.mark_iff q n hn, ?_⟩, hactive.leads, hselected.leads⟩
      rw [hselected.mark_iff q n hn]
      simp

end Viewport

end SExprViewer
