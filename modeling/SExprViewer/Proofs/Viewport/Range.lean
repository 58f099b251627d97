import SExprViewer.Proofs.Number.Product
import SExprViewer.Proofs.Viewport.Scale

/-! # The range of the scale

A viewport checks the factors that it is asked to zoom by, but not what they make of the scale.
On doubles the scale is lost, to zero or infinity, by a zoom with a product out of range, and in
no other way; further zooms do not bring it back (`scale_lost_iff`). -/
set_option autoImplicit false

namespace SExprViewer.Viewport

/-! ## Doubles -/

theorem isScale_iff_positive {x : Float} : isScale x = true ↔ ∃ m e, PositiveDouble x m e := by
  have hpositive : (0 < x) ↔
      Float.Model.UnpackedFloat.lt (.zero .positive) x.toModel.unpack = true := by
    change decide ((0 : Float).toModel < x.toModel) = true ↔ _
    rw [decide_eq_true_eq]
    exact Iff.rfl
  have hfinite : Scalar.isFinite x = x.toModel.unpack.isFinite := rfl
  rw [isScale, Bool.and_eq_true, decide_eq_true_eq, hpositive, hfinite]
  constructor
  · rintro ⟨hx, hlt⟩
    cases hunpack : x.toModel.unpack with
    | infinity sign =>
        rw [hunpack] at hx
        cases hx
    | notANumber =>
        rw [hunpack] at hx
        cases hx
    | zero sign =>
        rw [hunpack] at hlt
        cases hlt
    | finite sign m e h =>
        cases sign with
        | negative =>
            rw [hunpack] at hlt
            cases hlt
        | positive => exact ⟨m, e, .of_unpack hunpack⟩
  · rintro ⟨m, e, hx⟩
    rw [hx.unpack]
    exact ⟨rfl, rfl⟩

/-- A finite positive scale, or one of the two values of a lost one. -/
def ProperOrLost (scale : Float) : Prop := isScale scale = true ∨ scale = 0 ∨ scale = Float.inf

theorem mul_proper {scale factor : Float} (hscale : isScale scale = true)
    (hfactor : isScale factor = true) : ProperOrLost (scale * factor) ∧
      (isScale (scale * factor) = true ↔ InRange (magnitude scale * magnitude factor)) := by
  obtain ⟨m, d, hm⟩ := isScale_iff_positive.mp hscale
  obtain ⟨n, e, hn⟩ := isScale_iff_positive.mp hfactor
  obtain ⟨hbelow, habove, hin⟩ := mul_positive hm hn
  by_cases hrange : InRange (magnitude scale * magnitude factor)
  · have hproper := isScale_iff_positive.mpr (hin hrange)
    exact ⟨.inl hproper, iff_of_true hproper hrange⟩
  · rcases not_and_or.mp hrange with hlow | hhigh
    · have hzero := hbelow (not_lt.mp hlow)
      refine ⟨.inr (.inl hzero), iff_of_false ?_ hrange⟩
      rw [hzero]
      decide
    · have hinf := habove (not_lt.mp hhigh)
      refine ⟨.inr (.inr hinf), iff_of_false ?_ hrange⟩
      rw [hinf]
      decide

theorem mul_lost {scale factor : Float} (hlost : scale = 0 ∨ scale = Float.inf)
    (hfactor : isScale factor = true) : scale * factor = scale := by
  obtain ⟨n, e, hn⟩ := isScale_iff_positive.mp hfactor
  rcases hlost with rfl | rfl
  · exact hn.zero_mul
  · exact hn.inf_mul

theorem scaleClosed_properOrLost : ScaleClosed ProperOrLost where
  one := .inl (by decide)
  fit _ hscale := .inl hscale
  zoom scale factor hfactor hscale := by
    rcases hscale with hproper | hlost
    · exact (mul_proper hproper hfactor).1
    · rw [mul_lost hlost hfactor]
      exact .inr hlost

/-- The scale is multiplied by the accepted factor; or no factor is accepted, and the scale is left
as it is or set to another one. -/
theorem scale_meet_cases (v : Viewport Float) {event : Event Float}
    (hevent : event.LeavesCamera) :
    (∃ factor, v.zoomFactor? event = some factor ∧ isScale factor = true ∧
      (v.meet event).camera.scale = v.camera.scale * factor) ∨
    ((∀ factor, v.zoomFactor? event = some factor → isScale factor = false) ∧
      ((v.meet event).camera.scale = v.camera.scale ∨
        isScale (v.meet event).camera.scale = true)) := by
  have hmeet := zoomsOrResets_meet v hevent
  unfold ZoomsOrResets at hmeet
  cases hfactor : v.zoomFactor? event with
  | some factor =>
      rw [hfactor] at hmeet
      replace hmeet : (v.meet event).camera.scale = _ :=
        (congrArg Camera.scale hmeet).trans (scale_zoom v factor)
      cases haccepted : isScale factor with
      | true => exact .inl ⟨factor, rfl, haccepted, hmeet.trans (if_pos haccepted)⟩
      | false =>
          refine .inr ⟨fun _ heq => by cases heq; exact haccepted, .inl (hmeet.trans ?_)⟩
          rw [haccepted]
          rfl
  | none =>
      rw [hfactor] at hmeet
      refine .inr ⟨nofun, ?_⟩
      rcases hmeet with hsame | hone | hset
      · exact .inl hsame
      · refine .inr ?_
        rw [hone]
        decide
      · exact .inr hset

/-! ## Histories -/

section History
variable (canvas : Size Float) (settings : Settings Float)

/-- The scale is finite and positive, and so is the factor that is asked for, but the exact product
is not in the range of doubles. -/
def LosesScale (before : List (Event Float)) (event : Event Float) : Prop :=
  let v := (new canvas settings).meetAll before
  ∃ factor, v.zoomFactor? event = some factor ∧ isScale v.camera.scale = true ∧
    isScale factor = true ∧ ¬ InRange (magnitude v.camera.scale * magnitude factor)

def KeepsScale (before : List (Event Float)) (event : Event Float) : Prop :=
  let v := (new canvas settings).meetAll before
  (v.meet event).camera.scale = v.camera.scale

variable {canvas settings}

theorem lost_meet {before : List (Event Float)} {event : Event Float}
    (hevent : event.LeavesCamera)
    (h : ProperOrLost ((new canvas settings).meetAll before).camera.scale) :
    let v := (new canvas settings).meetAll before
    isScale (v.meet event).camera.scale = false ↔ LosesScale canvas settings before event ∨
      (isScale v.camera.scale = false ∧ KeepsScale canvas settings before event) := by
  intro v
  unfold LosesScale KeepsScale
  change ProperOrLost v.camera.scale at h
  rcases scale_meet_cases v hevent with ⟨factor, hfactor, haccepted, hscale⟩ | ⟨hnone, hscale⟩
  · rcases h with hproper | hlost
    · have hrange := (mul_proper hproper haccepted).2
      rw [hscale, ← Bool.not_eq_true, hrange]
      constructor
      · exact fun hout => .inl ⟨factor, hfactor, hproper, haccepted, hout⟩
      · rintro (⟨factor', hfactor', _, _, hout⟩ | ⟨hlost, _⟩)
        · cases hfactor.symm.trans hfactor'
          exact hout
        · cases hproper.symm.trans hlost
    · have hkept : (v.meet event).camera.scale = v.camera.scale :=
        hscale.trans (mul_lost hlost haccepted)
      have hfalse : isScale v.camera.scale = false := by
        rcases hlost with hzero | hinf
        · rw [hzero]
          decide
        · rw [hinf]
          decide
      rw [hkept]
      exact iff_of_true hfalse (.inr ⟨hfalse, hkept⟩)
  · have hloses : ¬ LosesScale canvas settings before event := by
      rintro ⟨factor, hfactor, _, haccepted, _⟩
      cases haccepted.symm.trans (hnone factor hfactor)
    rcases hscale with hkept | hset
    · rw [hkept]
      constructor
      · exact fun hlost => .inr ⟨hlost, hkept⟩
      · exact fun hsince => (hsince.resolve_left hloses).1
    · rw [hset]
      refine iff_of_false nofun ?_
      rintro (hlost | ⟨hlost, hkept⟩)
      · exact hloses hlost
      · rw [← hkept] at hlost
        cases hset.symm.trans hlost

theorem lost_meetAll (history : List (Event Float)) : (∀ event ∈ history, event.LeavesCamera) →
    (isScale ((new canvas settings).meetAll history).camera.scale = false ↔
      Since (LosesScale canvas settings) (KeepsScale canvas settings) history) := by
  induction history using List.reverseRecOn with
  | nil =>
      intro _
      refine iff_of_false ?_ not_since_nil
      change isScale (1 : Float) ≠ false
      decide
  | append_singleton history event ih =>
      intro hleaves
      rw [List.forall_mem_append] at hleaves
      have hevent := hleaves.2 event (List.mem_singleton_self event)
      have hscale := scaleClosed_properOrLost.meetAll canvas settings history hleaves.1
      rw [meetAll_concat, since_concat, ← ih hleaves.1]
      exact lost_meet hevent hscale

/-- On doubles the scale is finite and positive, or it is lost and zero or infinite: in every
history that leaves the camera to the viewport, whatever its settings and the factors it was asked
to zoom by.  It is lost if some accepted factor had a product with the scale that is out of the
range of doubles, and nothing has set the scale since; a reset of the camera sets it. -/
theorem scale_lost_iff (canvas : Size Float) (settings : Settings Float)
    {history : List (Event Float)} (h : ∀ event ∈ history, event.LeavesCamera) :
    let v := (new canvas settings).meetAll history
    (isScale v.camera.scale = true ∨ v.camera.scale = 0 ∨ v.camera.scale = Float.inf) ∧
    (isScale v.camera.scale = false ↔
      Since (LosesScale canvas settings) (KeepsScale canvas settings) history) ∧
    isScale v.refit.camera.scale = true ∧ isScale v.reset.camera.scale = true := by
  intro v
  have hone : isScale (1 : Float) = true := by decide
  refine ⟨scaleClosed_properOrLost.meetAll canvas settings history h, lost_meetAll history h, ?_,
    hone⟩
  -- a fit sets a scale or leaves the one that the camera was cleared to
  rcases resets_refit v 1 with hsame | hsame | hset
  · rwa [hsame]
  · rwa [hsame]
  · exact hset

end History

/-- Two zooms, the first in range and the second not. -/
theorem scale_lost_iff_twice :
    let history : List (Event Float) := [.operation (.zoom 1e200), .operation (.zoom 1e200)]
    let v := (new ⟨800, 600⟩ .standard).meetAll history
    (∀ event ∈ history, event.LeavesCamera) ∧ isScale v.camera.scale = false ∧
      Since (LosesScale ⟨800, 600⟩ .standard) (KeepsScale ⟨800, 600⟩ .standard) history := by
  intro history v
  have hleaves : ∀ event ∈ history, event.LeavesCamera := by
    simp [history, Event.LeavesCamera]
  have hlost : isScale v.camera.scale = false := by decide +kernel
  exact ⟨hleaves, hlost, (scale_lost_iff ⟨800, 600⟩ .standard hleaves).2.1.mp hlost⟩

/-- Accepted factors that make the scale infinite, or zero, and a camera that cannot be undone. -/
theorem scale_lost_zoom :
    let v : Viewport Float := new ⟨800, 600⟩ .standard
    let near := v.applyAll [.zoom 1e200, .zoom 1e200]
    let far := v.applyAll [.zoom 1e-200, .zoom 1e-200]
    isScale (1e200 : Float) = true ∧ near.camera.scale = Float.inf ∧
      (near.camera.toWorld ⟨400, 300⟩).x = Float.nan ∧
      isScale (1e-200 : Float) = true ∧ far.camera.scale = 0 ∧
      far.camera.affine.determinant = 0 := by
  decide +kernel

end SExprViewer.Viewport
