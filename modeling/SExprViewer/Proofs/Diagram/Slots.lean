import SExprViewer.Proofs.Diagram.RowWidth
import SExprViewer.Proofs.Diagram.Mirror
import SExprViewer.Proofs.Diagram.Painting

/-! # Slots

Painting draws every segment of a body in a slot of its own (`forall₂_drawnIn`).  The slots stand
side by side with the gap of segments between them, and together they are as wide as the body was
measured (`getLast?_row`).  So they do not overlap, and leave the same margin on both sides of the
box (`segments_centered`). -/
set_option autoImplicit false

namespace SExprViewer

open Scalar (ofNat)

/-- What a segment takes up of a body from left to right. -/
structure Slot (K : Type) where
  left : K
  right : K

namespace Slot

variable {K : Type} [Scalar K]

/-- Slots of these widths with a gap behind each of them, the first from `x` on. -/
def row (gap x : K) : List K → List (Slot K)
  | [] => []
  | w :: rest => ⟨x, x + w⟩ :: row gap (x + (w + gap)) rest

def middle (s : Slot K) : K := (s.left + s.right) / ofNat 2

end Slot

def Node.slots {K : Type} [Scalar K] (n : Node K) : List (Slot K) :=
  Slot.row n.segmentSpacing (Diagram.bodyStart n)
    (n.body.map (Diagram.segmentWidth n.connectorSize))

namespace Diagram

variable {K : Type} [ExactScalar K]

/-! ## What is drawn in a slot -/

/-- A program draws a segment of a node in a slot.  A label takes up its stored width from the
left end of its text on; the dot of a link fills the slot from side to side, and the line to the
child begins in its middle. -/
inductive DrawnIn (theme : Theme K) (d : Diagram K) :
    Segment K → Slot K → List (Instruction K) → Prop
  | label (text : String) (width : K) (slot : Slot K) (hwidth : slot.right = slot.left + width) :
      DrawnIn theme d (.label text width) slot
        [.fillText text ⟨slot.left, theme.textBaseline⟩ theme.text]
  | link {k : Nat} {child : Diagram K} (slot : Slot K) (hchild : d.children[k]? = some child)
      (hwidth : slot.right = slot.left + d.value.connectorSize) :
      DrawnIn theme d (.link k) slot
        [.strokeOutline
            (Outline.segment ⟨slot.middle, d.value.connectorSize / ofNat 4⟩ (topCenter child.value))
            (if d.value.active then theme.linkActive else theme.link) theme.lineWidth,
          .fillOutline
            (Outline.circle ⟨slot.middle, d.value.connectorSize / ofNat 4⟩
              ((slot.right - slot.left) / ofNat 2))
            theme.connector]

theorem middle_eq (x w : K) : Slot.middle ⟨x, x + w⟩ = x + w / ofNat 2 := by
  simp only [Slot.middle, ExactScalar.ofNat_eq_cast, Nat.cast_ofNat]
  ring

theorem exists_drawnIn (theme : Theme K) {n : Node K} {cs : List (Diagram K)} {s : Segment K}
    (hlink : ∀ k, s.link? = some k → k < cs.length) (x : K) (rest : List (Segment K)) :
    ∃ program, DrawnIn theme (.node n cs) s ⟨x, x + segmentWidth n.connectorSize s⟩ program ∧
      paintSegments theme n cs x (s :: rest) = program ++ paintSegments theme n cs
        (x + (segmentWidth n.connectorSize s + n.segmentSpacing)) rest := by
  cases s with
  | label text width => exact ⟨_, .label text width _ rfl, rfl⟩
  | link k =>
      have hchild := List.getElem?_eq_getElem (hlink k rfl)
      refine ⟨_, .link _ hchild rfl, ?_⟩
      rw [paintSegments, hchild]
      simp only [paintLink, segmentWidth, middle_eq, add_sub_cancel_left]
      rfl

theorem forall₂_drawnIn (theme : Theme K) {n : Node K} {cs : List (Diagram K)}
    (body : List (Segment K)) : ∀ x : K,
      (∀ k ∈ body.filterMap Segment.link?, k < cs.length) →
      let slots := Slot.row n.segmentSpacing x (body.map (segmentWidth n.connectorSize))
      ∃ programs, paintSegments theme n cs x body = programs.flatten ∧
        slots.length = body.length ∧
        List.Forall₂ (fun p program => DrawnIn theme (.node n cs) p.1 p.2 program)
          (body.zip slots) programs := by
  induction body with
  | nil => exact fun x _ => ⟨[], rfl, rfl, .nil⟩
  | cons s rest ih =>
      intro x hlinks
      have hs : ∀ k, s.link? = some k → k < cs.length := fun k hk =>
        hlinks k (List.mem_filterMap.mpr ⟨s, List.mem_cons_self, hk⟩)
      have hrest : ∀ k ∈ rest.filterMap Segment.link?, k < cs.length := by
        intro k hk
        obtain ⟨t, ht, htk⟩ := List.mem_filterMap.mp hk
        exact hlinks k (List.mem_filterMap.mpr ⟨t, List.mem_cons_of_mem s ht, htk⟩)
      obtain ⟨program, hdrawn, hpaint⟩ := exists_drawnIn theme hs x rest
      obtain ⟨programs, hprograms, hlength, hall⟩ :=
        ih (x + (segmentWidth n.connectorSize s + n.segmentSpacing)) hrest
      refine ⟨program :: programs, ?_, congrArg Nat.succ hlength, .cons hdrawn hall⟩
      rw [hpaint, hprograms, List.flatten_cons]

/-! ## Slots side by side -/

section Row
variable {gap : K}

theorem isChain_row (gap : K) (ws : List K) : ∀ x : K,
    (Slot.row gap x ws).IsChain fun s t => s.right + gap = t.left := by
  induction ws with
  | nil => intro x; exact .nil
  | cons w rest ih =>
      intro x
      cases rest with
      | nil => exact .singleton _
      | cons v rest => exact .cons_cons (add_assoc x w gap) (ih _)

theorem head?_row (gap x : K) (ws : List K) : ∀ s ∈ (Slot.row gap x ws).head?, s.left = x := by
  cases ws with
  | nil => nofun
  | cons w rest =>
      intro s hs
      cases hs
      rfl

theorem getLast?_row (gap : K) (ws : List K) : ∀ x : K,
    ∀ s ∈ (Slot.row gap x ws).getLast?, s.right = x + rowWidth gap ws := by
  induction ws with
  | nil => nofun
  | cons w rest ih =>
      intro x s hs
      cases rest with
      | nil =>
          cases hs
          rw [rowWidth_singleton]
          rfl
      | cons v rest =>
          have hlast := ih (x + (w + gap)) s (by simpa [Slot.row] using hs)
          rw [hlast, rowWidth_cons_cons]
          ring

theorem within_row (hgap : 0 ≤ gap) {ws : List K} (hws : ∀ w ∈ ws, 0 ≤ w) : ∀ x : K,
    ∀ s ∈ Slot.row gap x ws, x ≤ s.left ∧ s.left ≤ s.right ∧ s.right ≤ x + rowWidth gap ws := by
  induction ws with
  | nil => nofun
  | cons w rest ih =>
      intro x s hs
      have hw := hws w List.mem_cons_self
      have hrest : ∀ w ∈ rest, 0 ≤ w := fun v hv => hws v (List.mem_cons_of_mem w hv)
      have hnonneg : ∀ ws : List K, (∀ w ∈ ws, 0 ≤ w) → 0 ≤ rowWidth gap ws := fun ws h =>
        (rowWidth_nil gap).symm.le.trans (rowWidth_sublist hgap (List.nil_sublist ws) h)
      cases rest with
      | nil =>
          obtain rfl := List.mem_singleton.mp hs
          rw [rowWidth_singleton]
          exact ⟨le_rfl, le_add_of_nonneg_right hw, le_rfl⟩
      | cons v rest =>
          rw [rowWidth_cons_cons]
          rcases List.mem_cons.mp hs with rfl | hs
          · have hbehind := hnonneg _ hrest
            refine ⟨le_rfl, le_add_of_nonneg_right hw, ?_⟩
            change x + w ≤ _
            linarith
          · obtain ⟨hleft, hwide, hright⟩ := ih hrest (x + (w + gap)) s hs
            exact ⟨by linarith, hwide, by linarith⟩

theorem pairwise_row (hgap : 0 ≤ gap) {ws : List K} (hws : ∀ w ∈ ws, 0 ≤ w) : ∀ x : K,
    (Slot.row gap x ws).Pairwise fun s t => s.right + gap ≤ t.left := by
  induction ws with
  | nil => intro x; exact .nil
  | cons w rest ih =>
      intro x
      have hrest : ∀ w ∈ rest, 0 ≤ w := fun v hv => hws v (List.mem_cons_of_mem w hv)
      refine .cons (fun t ht => ?_) (ih hrest _)
      exact (add_assoc x w gap).trans_le (within_row hgap hrest _ t ht).1

end Row

/-! ## The slots of a node -/

/-- The segments of a node are drawn in slots that follow each other in the middle of its box. -/
structure Centered (layout : LayoutSettings K) (d : Diagram K) : Prop where
  drawn : ∀ theme, ∃ programs,
    paintNode theme d.value d.children = paintBox theme d.value ++ programs.flatten ∧
    d.value.slots.length = d.value.body.length ∧
    List.Forall₂ (fun p program => DrawnIn theme d p.1 p.2 program)
      (d.value.body.zip d.value.slots) programs
  follow : d.value.slots.IsChain fun s t => s.right + layout.segmentSpacing = t.left
  /-- Without a gap between them two slots can share an end. -/
  apart : d.value.slots.Pairwise fun s t =>
    Disjoint (Set.Ico s.left s.right) (Set.Ico t.left t.right) ∧
    (0 < layout.segmentSpacing → Disjoint (Set.Icc s.left s.right) (Set.Icc t.left t.right))
  first : ∀ s ∈ d.value.slots.head?, s.left = d.value.width / 2 - d.value.textWidth / 2
  last : ∀ s ∈ d.value.slots.getLast?, s.right = d.value.width / 2 + d.value.textWidth / 2
  inside : ∃ margin, 0 ≤ margin ∧ layout.padding / 2 ≤ margin ∧
    d.value.width / 2 - d.value.textWidth / 2 = margin ∧
    d.value.width / 2 + d.value.textWidth / 2 = d.value.width - margin ∧
    ∀ s ∈ d.value.slots, margin ≤ s.left ∧ s.left ≤ s.right ∧ s.right ≤ d.value.width - margin

variable {layout : LayoutSettings K}

theorem bodyStart_eq (n : Node K) : bodyStart n = n.width / 2 - n.textWidth / 2 := by
  rw [bodyStart, ExactScalar.ofNat_eq_cast, Nat.cast_ofNat]

/-- What is measured as wide as its segments and no wider than its box without the padding. -/
theorem centered_of_textWidth {d : Diagram K} (hspacing : 0 ≤ layout.segmentSpacing)
    (hgap : d.value.segmentSpacing = layout.segmentSpacing)
    (htext : d.value.textWidth = rowWidth d.value.segmentSpacing
      (d.value.body.map (segmentWidth d.value.connectorSize)))
    (hwidth : d.value.textWidth + layout.padding ≤ d.value.width)
    (hwide : ∀ s ∈ d.value.body, 0 ≤ segmentWidth d.value.connectorSize s)
    (hpadding : 0 ≤ layout.padding)
    (hlinks : ∀ k ∈ d.value.body.filterMap Segment.link?, k < d.children.length) :
    Centered layout d := by
  have hws : ∀ w ∈ d.value.body.map (segmentWidth d.value.connectorSize), 0 ≤ w := by
    intro w hw
    obtain ⟨s, hs, rfl⟩ := List.mem_map.mp hw
    exact hwide s hs
  have hnonneg : 0 ≤ d.value.segmentSpacing := hspacing.trans_eq hgap.symm
  have hstart := bodyStart_eq d.value
  have hend : bodyStart d.value + rowWidth d.value.segmentSpacing
      (d.value.body.map (segmentWidth d.value.connectorSize)) =
        d.value.width / 2 + d.value.textWidth / 2 := by
    rw [← htext, hstart]
    ring
  refine
    { drawn := fun theme => ?_
      follow := hgap ▸ isChain_row _ _ _
      apart := (pairwise_row hnonneg hws _).imp fun {s t} hst => ?_
      first := fun s hs => (head?_row _ _ _ s hs).trans hstart
      last := fun s hs => (getLast?_row _ _ _ s hs).trans hend
      inside := ⟨_, ?_, ?_, rfl, by ring, fun s hs => ?_⟩ }
  · obtain ⟨n, cs⟩ := d
    obtain ⟨programs, hpaint, hdrawn⟩ := forall₂_drawnIn theme n.body (bodyStart n) hlinks
    exact ⟨programs, congrArg (paintBox theme n ++ ·) hpaint, hdrawn⟩
  · rw [hgap] at hst
    refine ⟨Set.disjoint_left.mpr fun x hx hx' => ?_, fun hpos =>
      Set.disjoint_left.mpr fun x hx hx' => ?_⟩
    · have hbefore := hx.2
      have hbehind := hx'.1
      linarith
    · have hbefore := hx.2
      have hbehind := hx'.1
      linarith
  · linarith
  · linarith
  · obtain ⟨hleft, hright, hlast⟩ := within_row hnonneg hws _ s hs
    exact ⟨hstart ▸ hleft, hright, by linarith⟩

theorem centered_build (hconnector : 0 ≤ layout.connectorSize)
    (hspacing : 0 ≤ layout.segmentSpacing) (hpadding : 0 ≤ layout.padding)
    (measure : TextMeasure K) (e : Expr) (next : ObjectId)
    (hlabels : ∀ text width,
      .label text width ∈ (build measure layout e next).1.value.body → 0 ≤ width) :
    Centered layout (build measure layout e next).1 := by
  refine centered_of_textWidth hspacing (by rw [build_eq]; rfl) ?_ ?_ (fun s hs => ?_) hpadding
    fun k hk => ?_
  · rw [build_eq]
    exact (bodyWidth_eq ..).trans (zero_add _)
  · rw [build_eq]
    exact le_max_right ..
  · cases s with
    | label text width => exact hlabels text width hs
    | link k =>
        rw [build_eq]
        exact hconnector
  · rw [(mirrors_build e next).links] at hk
    exact List.mem_range.mp hk

/-- In a diagram that is built every node draws its segments in slots that do not overlap, follow
each other with the gap of segments between them, and begin and end as far from the middle of the
box as the measured width of the body says, so that both margins are the same and at least half the
padding. -/
theorem segments_centered (hconnector : 0 ≤ layout.connectorSize)
    (hspacing : 0 ≤ layout.segmentSpacing) (hpadding : 0 ≤ layout.padding)
    (measure : TextMeasure K) (e : Expr) (next : ObjectId) {path : Path} {c : Diagram K}
    (hc : (build measure layout e next).1.at? path = some c)
    (hlabels : ∀ text width, .label text width ∈ c.value.body → 0 ≤ width) :
    Centered layout c := by
  obtain ⟨next', hat⟩ := at?_build measure layout path e next
  obtain ⟨sub, -, rfl⟩ := Option.map_eq_some_iff.mp (hat.symm.trans hc)
  exact centered_build hconnector hspacing hpadding measure sub next' hlabels

theorem segments_centered_nested :
    let layout : LayoutSettings ℝ := .standard
    let e : Expr := .list [.atom (.symbol ⟨"a"⟩), .list [.atom (.symbol ⟨"b"⟩), .list []]]
    0 ≤ layout.connectorSize ∧ 0 ≤ layout.segmentSpacing ∧ 0 ≤ layout.padding ∧
      ∃ c, (build (fun _ => 6) layout e .first).1.at? [0] = some c ∧ c.value.slots.length = 2 ∧
        (∀ text width, .label text width ∈ c.value.body → 0 ≤ width) ∧ Centered layout c := by
  intro layout e
  have hmetrics : layout.Nonnegative := LayoutSettings.standard_nonnegative
  have hsome : ((build (fun _ => 6) layout e .first).1.at? [0]).isSome := rfl
  obtain ⟨c, hc⟩ := Option.isSome_iff_exists.mp hsome
  have hlabels : ∀ text width, .label text width ∈ c.value.body → 0 ≤ width := by
    intro text width h
    have hwidth := labelsBy_build e .first [0] c.value (congrArg (Option.map Tree.value) hc) _ _ h
    rw [hwidth]
    norm_num
  have hcentered := segments_centered hmetrics.connectorSize hmetrics.segmentSpacing
    hmetrics.padding (fun _ => 6) e .first hc hlabels
  obtain ⟨_, _, hlength, _⟩ := hcentered.drawn .standard
  refine ⟨hmetrics.connectorSize, hmetrics.segmentSpacing, hmetrics.padding, c, hc, ?_, hlabels,
    hcentered⟩
  cases hc
  exact hlength

end Diagram

end SExprViewer
