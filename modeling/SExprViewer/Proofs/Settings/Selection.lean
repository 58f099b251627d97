import Mathlib.Data.List.Basic
import SExprViewer.Settings.Json
import SExprViewer.Proofs.Color.Hex
import SExprViewer.Proofs.Json.RoundTrip

/-! # Settings from some of their fields

A `Selection` keeps some members of an object that was written and puts others among them, in any
order (`Selection.Gives`).  What is read from it has the written values in the kept fields and the
standard ones in the rest (`ofJson?_of_gives`), a color as far as its bytes tell it.  This holds
of each record of the settings and of the settings with the three records in them
(`read?_selection`). -/
set_option autoImplicit false

namespace SExprViewer

theorem lookup_eq_some_of_mem {α : Type} {members : List (String × α)} {name : String} {a : α}
    (hnodup : (members.map Prod.fst).Nodup) (h : (name, a) ∈ members) :
    members.lookup name = some a := by
  obtain ⟨before, after, rfl⟩ := List.append_of_mem h
  refine List.lookup_eq_some_iff.mpr ⟨before, after, rfl, fun m hm => bne_iff_ne.mpr fun heq => ?_⟩
  rw [List.map_append, List.map_cons] at hnodup
  exact (List.nodup_middle.mp hnodup).notMem
    (List.mem_append_left _ (List.mem_map.mpr ⟨m, hm, heq.symm⟩))

namespace Json

/-- Which members of an object are kept, and what other members come among them. -/
structure Selection where
  keeps : String → Bool
  others : List (String × Json)

namespace Selection

/-- An object of the kept members of a whole one and the others, in any order. None of the others
has the name of a member of the whole one. -/
def Gives (s : Selection) (whole j : Json) : Prop :=
  ∃ fields members, whole = .object fields ∧ j = .object members ∧
    (∀ m ∈ s.others, m.1 ∉ fields.map Prod.fst) ∧
    members.Perm (fields.filter (fun m => s.keeps m.1) ++ s.others)

/-- The value of a field that is kept, and the standard one of a field that is not. -/
def pick {α : Type} (s : Selection) (name : String) (value standard : α) : α :=
  if s.keeps name then value else standard

/-- The fields that are found in a selection are the kept ones. -/
theorem Gives.fields? {s : Selection} {fields : List (String × Json)} {j : Json}
    {names : List String} (h : s.Gives (.object fields) j) (hnames : fields.map Prod.fst = names)
    (hnodup : names.Nodup) : ∃ given, j.fields? names = some given ∧
      ∀ m ∈ fields, given.lookup m.1 = if s.keeps m.1 then some m.2 else none := by
  obtain ⟨_, members, heq, rfl, hothers, hperm⟩ := h
  cases heq
  subst hnames
  have hgiven : (members.filter fun m => (fields.map Prod.fst).contains m.1).Perm
      (fields.filter fun m => s.keeps m.1) := by
    have hknown : ∀ m ∈ fields.filter (fun m => s.keeps m.1),
        (fields.map Prod.fst).contains m.1 = true := fun m hm =>
      List.contains_iff_mem.mpr (List.mem_map_of_mem (List.mem_filter.mp hm).1)
    have hunknown : ∀ m ∈ s.others, ¬ (fields.map Prod.fst).contains m.1 = true := fun m hm h =>
      hothers m hm (List.contains_iff_mem.mp h)
    have hfilter := hperm.filter fun m => (fields.map Prod.fst).contains m.1
    rwa [List.filter_append, List.filter_eq_self.mpr hknown, List.filter_eq_nil_iff.mpr hunknown,
      List.append_nil] at hfilter
  have hgivenNodup : ((members.filter fun m => (fields.map Prod.fst).contains m.1).map
      Prod.fst).Nodup :=
    (hgiven.map Prod.fst).nodup_iff.mpr (hnodup.sublist (List.filter_sublist.map _))
  refine ⟨_, if_pos hgivenNodup, fun m hm => ?_⟩
  split
  · rename_i hkeeps
    exact lookup_eq_some_of_mem hgivenNodup
      (hgiven.mem_iff.mpr (List.mem_filter.mpr ⟨hm, hkeeps⟩))
  · rename_i hkeeps
    refine List.lookup_eq_none_iff.mpr fun p hp => bne_iff_ne.mpr fun heq => hkeeps ?_
    rw [heq]
    exact (List.mem_filter.mp (hgiven.mem_iff.mp hp)).2

theorem field_eq {α : Type} {s : Selection} {given : List (String × Json)} {name : String}
    {j : Json} {read : Json → Option α} {value standard : α}
    (hgiven : given.lookup name = if s.keeps name then some j else none)
    (hread : read j = some value) :
    field given name read standard = some (s.pick name value standard) := by
  unfold field pick
  rw [hgiven]
  by_cases hkeeps : s.keeps name = true
  · simp only [if_pos hkeeps, hread]
  · simp only [if_neg hkeeps]

theorem Gives.readable {s : Selection} {whole j : Json} (h : s.Gives whole j)
    (hwhole : Readable whole) (hothers : ∀ m ∈ s.others, Readable m.2) : Readable j := by
  obtain ⟨fields, members, rfl, rfl, -, hperm⟩ := h
  cases hwhole with
  | object hfields =>
      refine .object fun m hm => ?_
      rcases List.mem_append.mp (hperm.mem_iff.mp hm) with hkept | hother
      · exact hfields m (List.mem_filter.mp hkept).1
      · exact hothers m hother

end Selection

/-- An object with another value for one of its members. -/
def withMember (j : Json) (name : String) (value : Json) : Json :=
  match j with
  | .object members => .object (members.map fun m => if m.1 = name then (name, value) else m)
  | j => j

end Json

open Json (Readable ReadsBack field)
open Json.Selection (field_eq)

theorem bind_of_eq_some {α β : Type} {read : Option α} {a : α} (h : read = some a)
    (f : α → Option β) : (read >>= f) = f a := by
  rw [h]
  rfl

section Fields
variable {s : Json.Selection} {given : List (String × Json)} {name : String}

theorem field_real {x standard : Float}
    (hgiven : given.lookup name = if s.keeps name then some (.real x) else none) :
    field given name Json.toReal? standard = some (s.pick name x standard) :=
  field_eq hgiven rfl

theorem field_natural {n standard : Nat}
    (hgiven : given.lookup name = if s.keeps name then some (.natural n) else none) :
    field given name Json.toNatural? standard = some (s.pick name n standard) :=
  field_eq hgiven rfl

theorem field_bool {b standard : Bool}
    (hgiven : given.lookup name = if s.keeps name then some (.bool b) else none) :
    field given name Json.toBool? standard = some (s.pick name b standard) :=
  field_eq hgiven rfl

theorem field_text {text standard : String}
    (hgiven : given.lookup name = if s.keeps name then some (.string text) else none) :
    field given name Json.toText? standard = some (s.pick name text standard) :=
  field_eq hgiven rfl

theorem field_color {c standard : Color}
    (hgiven : given.lookup name = if s.keeps name then some c.toJson else none) :
    field given name Color.ofJson? standard = some (s.pick name c.bytes.toColor standard) :=
  field_eq hgiven c.ofJson?_toJson

end Fields

namespace ParseSettings

/-- The values of the kept fields, and the standard ones of the others. -/
def kept (c : ParseSettings) (s : Json.Selection) : ParseSettings where
  maxDepth := s.pick "max_depth" c.maxDepth standard.maxDepth

theorem ofJson?_of_gives {c : ParseSettings} {s : Json.Selection} {j : Json}
    (h : s.Gives c.toJson j) : ofJson? j = some (c.kept s) := by
  obtain ⟨given, hfields, hgiven⟩ := h.fields? (show _ = fieldNames from rfl) (by decide)
  simp only [List.forall_mem_cons] at hgiven
  obtain ⟨hdepth, -⟩ := hgiven
  unfold ofJson?
  rw [bind_of_eq_some hfields, bind_of_eq_some (field_natural hdepth)]
  rfl

theorem readable_toJson {c : ParseSettings} (h : c.maxDepth < 2 ^ (64 : Nat)) :
    Readable c.toJson := by
  refine .object ?_
  simp only [List.forall_mem_cons]
  exact ⟨.natural h, nofun⟩

end ParseSettings

namespace LayoutSettings

/-- The values of the kept fields, and the standard ones of the others. -/
def kept (c : LayoutSettings Float) (s : Json.Selection) : LayoutSettings Float where
  minNodeWidth := s.pick "min_node_width" c.minNodeWidth standard.minNodeWidth
  minNodeHeight := s.pick "min_node_height" c.minNodeHeight standard.minNodeHeight
  connectorSize := s.pick "connector_size" c.connectorSize standard.connectorSize
  neighborSpacing := s.pick "neighbor_spacing" c.neighborSpacing standard.neighborSpacing
  childSpacing := s.pick "child_spacing" c.childSpacing standard.childSpacing
  segmentSpacing := s.pick "segment_spacing" c.segmentSpacing standard.segmentSpacing
  padding := s.pick "padding" c.padding standard.padding
  glideVelocity := s.pick "glide_velocity" c.glideVelocity standard.glideVelocity

theorem ofJson?_of_gives {c : LayoutSettings Float} {s : Json.Selection} {j : Json}
    (h : s.Gives c.toJson j) : ofJson? j = some (c.kept s) := by
  obtain ⟨given, hfields, hgiven⟩ := h.fields? (show _ = fieldNames from rfl) (by decide)
  simp only [List.forall_mem_cons] at hgiven
  obtain ⟨hwidth, hheight, hconnector, hneighbor, hchild, hsegment, hpadding, hglide, -⟩ := hgiven
  unfold ofJson?
  rw [bind_of_eq_some hfields, bind_of_eq_some (field_real hwidth),
    bind_of_eq_some (field_real hheight), bind_of_eq_some (field_real hconnector),
    bind_of_eq_some (field_real hneighbor), bind_of_eq_some (field_real hchild),
    bind_of_eq_some (field_real hsegment), bind_of_eq_some (field_real hpadding),
    bind_of_eq_some (field_real hglide)]
  rfl

def numbers (c : LayoutSettings Float) : List Float :=
  [c.minNodeWidth, c.minNodeHeight, c.connectorSize, c.neighborSpacing, c.childSpacing,
    c.segmentSpacing, c.padding, c.glideVelocity]

theorem readable_toJson {c : LayoutSettings Float} (h : ∀ x ∈ c.numbers, ReadsBack x) :
    Readable c.toJson := by
  have hreal : ∀ x ∈ c.numbers, Readable (.real x) := fun x hx => .real (h x hx)
  refine .object ?_
  simpa [numbers] using hreal

end LayoutSettings

namespace Theme

/-- The values of the kept fields, colors as their bytes tell them, and the standard ones of the
others. -/
def kept (c : Theme Float) (s : Json.Selection) : Theme Float :=
  let d : Theme Float := standard
  { background := s.pick "background" c.background.bytes.toColor d.background
    nodeFill := s.pick "node_fill" c.nodeFill.bytes.toColor d.nodeFill
    nodeStroke := s.pick "node_stroke" c.nodeStroke.bytes.toColor d.nodeStroke
    text := s.pick "text" c.text.bytes.toColor d.text
    highlight := s.pick "highlight" c.highlight.bytes.toColor d.highlight
    link := s.pick "link" c.link.bytes.toColor d.link
    linkActive := s.pick "link_active" c.linkActive.bytes.toColor d.linkActive
    connector := s.pick "connector" c.connector.bytes.toColor d.connector
    selection := s.pick "selection" c.selection.bytes.toColor d.selection
    lineWidth := s.pick "line_width" c.lineWidth d.lineWidth
    font := s.pick "font" c.font d.font
    textBaseline := s.pick "text_baseline" c.textBaseline d.textBaseline }

theorem ofJson?_of_gives {c : Theme Float} {s : Json.Selection} {j : Json}
    (h : s.Gives c.toJson j) : ofJson? j = some (c.kept s) := by
  obtain ⟨given, hfields, hgiven⟩ := h.fields? (show _ = fieldNames from rfl) (by decide)
  simp only [List.forall_mem_cons] at hgiven
  obtain ⟨hbackground, hfill, hstroke, htext, hhighlight, hlink, hactive, hconnector, hselection,
    hline, hfont, hbaseline, -⟩ := hgiven
  unfold ofJson?
  rw [bind_of_eq_some hfields, bind_of_eq_some (field_color hbackground),
    bind_of_eq_some (field_color hfill), bind_of_eq_some (field_color hstroke),
    bind_of_eq_some (field_color htext), bind_of_eq_some (field_color hhighlight),
    bind_of_eq_some (field_color hlink), bind_of_eq_some (field_color hactive),
    bind_of_eq_some (field_color hconnector), bind_of_eq_some (field_color hselection),
    bind_of_eq_some (field_real hline), bind_of_eq_some (field_text hfont),
    bind_of_eq_some (field_real hbaseline)]
  rfl

def numbers (c : Theme Float) : List Float := [c.lineWidth, c.textBaseline]

theorem readable_toJson {c : Theme Float} (h : ∀ x ∈ c.numbers, ReadsBack x) :
    Readable c.toJson := by
  have hcolor : ∀ color : Color, Readable color.toJson := fun color => .string _
  have hline : Readable (.real c.lineWidth) := .real (h _ (by simp [numbers]))
  have hbaseline : Readable (.real c.textBaseline) := .real (h _ (by simp [numbers]))
  refine .object ?_
  simp only [List.forall_mem_cons]
  exact ⟨hcolor _, hcolor _, hcolor _, hcolor _, hcolor _, hcolor _, hcolor _, hcolor _, hcolor _,
    hline, .string _, hbaseline, nofun⟩

end Theme

namespace Settings

/-- Which fields of written settings are kept, and what other members come among them, in the
settings themselves and in each of the three records. -/
structure Selection where
  top : Json.Selection
  parse : Json.Selection
  layout : Json.Selection
  theme : Json.Selection

namespace Selection

/-- What is written of settings, cut down to the kept fields, in any order and with the other
members among them. -/
def Gives (s : Selection) (c : Settings Float) (j : Json) : Prop :=
  ∃ parse layout theme, s.parse.Gives c.parse.toJson parse ∧
    s.layout.Gives c.layout.toJson layout ∧ s.theme.Gives c.theme.toJson theme ∧
    s.top.Gives (((c.toJson.withMember "parse" parse).withMember "layout" layout).withMember
      "theme" theme) j

/-- The members beside the fields. -/
def others (s : Selection) : List (String × Json) :=
  s.top.others ++ s.parse.others ++ s.layout.others ++ s.theme.others

end Selection

/-- The values of the kept fields, colors as their bytes tell them, and the standard ones of the
others. -/
def kept (c : Settings Float) (s : Selection) : Settings Float :=
  let d : Settings Float := standard
  { maxInitialScale := s.top.pick "max_initial_scale" c.maxInitialScale d.maxInitialScale
    zoomIn := s.top.pick "zoom_in" c.zoomIn d.zoomIn
    zoomOut := s.top.pick "zoom_out" c.zoomOut d.zoomOut
    scrollSpeed := s.top.pick "scroll_speed" c.scrollSpeed d.scrollSpeed
    centered := s.top.pick "centered" c.centered d.centered
    resetViewOnParse := s.top.pick "reset_view_on_parse" c.resetViewOnParse d.resetViewOnParse
    parse := s.top.pick "parse" (c.parse.kept s.parse) d.parse
    layout := s.top.pick "layout" (c.layout.kept s.layout) d.layout
    theme := s.top.pick "theme" (c.theme.kept s.theme) d.theme }

/-- The real numbers in settings. -/
def numbers (c : Settings Float) : List Float :=
  [c.maxInitialScale, c.zoomIn, c.zoomOut, c.scrollSpeed] ++ c.layout.numbers ++ c.theme.numbers

theorem withMember_toJson (c : Settings Float) (parse layout theme : Json) :
    ((c.toJson.withMember "parse" parse).withMember "layout" layout).withMember "theme" theme =
      .object [
        ("max_initial_scale", .real c.maxInitialScale),
        ("zoom_in", .real c.zoomIn),
        ("zoom_out", .real c.zoomOut),
        ("scroll_speed", .real c.scrollSpeed),
        ("centered", .bool c.centered),
        ("reset_view_on_parse", .bool c.resetViewOnParse),
        ("parse", parse),
        ("layout", layout),
        ("theme", theme)] := by
  simp [toJson, Json.withMember]

theorem ofJson?_of_gives {c : Settings Float} {s : Selection} {j : Json} (h : s.Gives c j) :
    ofJson? j = some (c.kept s) := by
  obtain ⟨parse, layout, theme, hparse, hlayout, htheme, htop⟩ := h
  rw [withMember_toJson] at htop
  obtain ⟨given, hfields, hgiven⟩ := htop.fields? (show _ = fieldNames from rfl) (by decide)
  simp only [List.forall_mem_cons] at hgiven
  obtain ⟨hscale, hin, hout, hspeed, hcentered, hreset, hparseGiven, hlayoutGiven, hthemeGiven,
    -⟩ := hgiven
  unfold ofJson?
  rw [bind_of_eq_some hfields, bind_of_eq_some (field_real hscale),
    bind_of_eq_some (field_real hin), bind_of_eq_some (field_real hout),
    bind_of_eq_some (field_real hspeed), bind_of_eq_some (field_bool hcentered),
    bind_of_eq_some (field_bool hreset),
    bind_of_eq_some (field_eq hparseGiven (ParseSettings.ofJson?_of_gives hparse)),
    bind_of_eq_some (field_eq hlayoutGiven (LayoutSettings.ofJson?_of_gives hlayout)),
    bind_of_eq_some (field_eq hthemeGiven (Theme.ofJson?_of_gives htheme))]
  rfl

theorem readable_of_gives {c : Settings Float} {s : Selection} {j : Json} (h : s.Gives c j)
    (hdepth : c.parse.maxDepth < 2 ^ (64 : Nat)) (hnumbers : ∀ x ∈ c.numbers, ReadsBack x)
    (hothers : ∀ m ∈ s.others, Readable m.2) : Readable j := by
  obtain ⟨parse, layout, theme, hparse, hlayout, htheme, htop⟩ := h
  simp only [numbers, List.forall_mem_append, List.forall_mem_cons] at hnumbers
  obtain ⟨⟨⟨hscale, hin, hout, hspeed, -⟩, hlayoutNumbers⟩, hthemeNumbers⟩ := hnumbers
  simp only [Selection.others, List.forall_mem_append] at hothers
  obtain ⟨⟨⟨htopOthers, hparseOthers⟩, hlayoutOthers⟩, hthemeOthers⟩ := hothers
  have hparseReadable := hparse.readable (ParseSettings.readable_toJson hdepth) hparseOthers
  have hlayoutReadable :=
    hlayout.readable (LayoutSettings.readable_toJson hlayoutNumbers) hlayoutOthers
  have hthemeReadable := htheme.readable (Theme.readable_toJson hthemeNumbers) hthemeOthers
  rw [withMember_toJson] at htop
  refine htop.readable (.object ?_) htopOthers
  simp only [List.forall_mem_cons]
  exact ⟨.real hscale, .real hin, .real hout, .real hspeed, .bool _, .bool _, hparseReadable,
    hlayoutReadable, hthemeReadable, nofun⟩

/-- The selection of every field and nothing else. -/
def Selection.all : Selection :=
  let every : Json.Selection := ⟨fun _ => true, []⟩
  ⟨every, every, every, every⟩

theorem gives_all (c : Settings Float) : Selection.all.Gives c c.toJson := by
  have hevery : ∀ fields, Json.Selection.Gives ⟨fun _ => true, []⟩ (.object fields)
      (.object fields) := fun fields =>
    ⟨fields, fields, rfl, rfl, nofun, by simp⟩
  refine ⟨_, _, _, hevery _, hevery _, hevery _, ?_⟩
  rw [withMember_toJson]
  exact hevery _

/-- Written again, the colors have the digits they had. -/
theorem toJson_kept_all (c : Settings Float) : (c.kept .all).toJson = c.toJson := by
  simp only [kept, Selection.all, Json.Selection.pick, if_true, toJson, ParseSettings.kept,
    LayoutSettings.kept, Theme.kept, Theme.toJson, Color.toJson_toColor]

/-- From what is written of settings, cut down to some fields, in any order and with other members
among them, the written values of these fields are read and the standard ones of the rest.  So the
text of settings that are read from a text is this text again. -/
theorem read?_selection {c : Settings Float} (hdepth : c.parse.maxDepth < 2 ^ (64 : Nat))
    (hnumbers : ∀ x ∈ c.numbers, ReadsBack x) :
    (∀ (s : Selection) (j : Json), s.Gives c j →
      ofJson? j = some (c.kept s) ∧
      (∀ text, Json.parse? text = some j → read? text = some (c.kept s)) ∧
      ((∀ m ∈ s.others, Readable m.2) → read? j.render = some (c.kept s))) ∧
    (read? c.render).map render = some c.render := by
  have hread : ∀ (s : Selection) (j : Json), s.Gives c j → ∀ text, Json.parse? text = some j →
      read? text = some (c.kept s) := by
    intro s j hgives text hparse
    rw [read?, hparse, Option.bind_some, ofJson?_of_gives hgives]
  have hrender : ∀ (s : Selection) (j : Json), s.Gives c j →
      (∀ m ∈ s.others, Readable m.2) → read? j.render = some (c.kept s) := by
    intro s j hgives hothers
    exact hread s j hgives _
      (Json.parse?_render (readable_of_gives hgives hdepth hnumbers hothers))
  refine ⟨fun s j hgives => ⟨ofJson?_of_gives hgives, hread s j hgives, hrender s j hgives⟩, ?_⟩
  have hall : read? c.render = some (c.kept .all) := hrender .all _ c.gives_all nofun
  rw [hall, Option.map_some, render, toJson_kept_all]
  rfl

/-- Settings with another zoom and another font. -/
def serif : Settings Float :=
  { standard with
    zoomIn := 1.25
    theme := { Theme.standard with font := "12px serif", textBaseline := 3.5 } }

/-- Two fields of a theme, in an object with one unknown member. -/
def serifFields : Selection where
  top := ⟨fun name => name = "zoom_in" ∨ name = "theme", [("note", .array [.null])]⟩
  parse := ⟨fun _ => false, []⟩
  layout := ⟨fun _ => false, []⟩
  theme := ⟨fun name => name = "link" ∨ name = "font", []⟩

theorem read?_selection_serif :
    serif.parse.maxDepth < 2 ^ (64 : Nat) ∧ (∀ x ∈ serif.numbers, ReadsBack x) ∧
      (∀ m ∈ serifFields.others, Readable m.2) ∧
      read? ("\x7b\"note\":[null],\"theme\":\x7b\"font\":\"12px serif\"," ++
        "\"link\":\"#00000040\"\x7d,\"zoom_in\":1.25\x7d") = some (serif.kept serifFields) := by
  have hdepth : serif.parse.maxDepth < 2 ^ (64 : Nat) := by decide +kernel
  have hnumbers : ∀ x ∈ serif.numbers, ReadsBack x := by decide +kernel
  have hothers : ∀ m ∈ serifFields.others, Readable m.2 := by
    simpa [Selection.others, serifFields] using Readable.array (by simpa using Readable.null)
  have hnone : ∀ fields, Json.Selection.Gives ⟨fun _ => false, []⟩ (.object fields)
      (.object []) := fun fields => ⟨fields, [], rfl, rfl, nofun, by simp⟩
  have htheme : serifFields.theme.Gives serif.theme.toJson
      (.object [("font", .string serif.theme.font), ("link", serif.theme.link.toJson)]) :=
    ⟨_, _, rfl, rfl, nofun, by
      simpa [serifFields] using
        List.reverse_perm [("link", serif.theme.link.toJson), ("font", .string serif.theme.font)]⟩
  have hgives : serifFields.Gives serif (.object [("note", .array [.null]),
      ("theme", .object [("font", .string serif.theme.font), ("link", serif.theme.link.toJson)]),
      ("zoom_in", .real serif.zoomIn)]) := by
    refine ⟨_, _, _, hnone _, hnone _, htheme, ?_⟩
    rw [withMember_toJson]
    refine ⟨_, _, rfl, rfl, by decide +kernel, ?_⟩
    simpa [serifFields] using List.reverse_perm [("zoom_in", Json.real serif.zoomIn),
      ("theme", .object [("font", .string serif.theme.font), ("link", serif.theme.link.toJson)]),
      ("note", .array [.null])]
  have hread := ((read?_selection hdepth hnumbers).1 serifFields _ hgives).2.2 hothers
  refine ⟨hdepth, hnumbers, hothers, ?_⟩
  rw [← hread]
  refine congrArg read? ?_
  decide +kernel

end Settings

end SExprViewer
