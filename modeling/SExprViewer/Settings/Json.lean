import SExprViewer.Settings.Basic
import SExprViewer.Color.Hex
import SExprViewer.Json.Writer
import SExprViewer.Json.Reader

/-! # Settings as JSON

Settings are written as an object with every field in order.  They are read from an object
with any of the fields, in any order, other members being passed over, or from an array of
the leading fields in order; a field that is not given keeps its standard value.  A field
given twice, of a wrong kind, or an array with too many items is refused. -/
set_option autoImplicit false

namespace SExprViewer

namespace Json

/-- The given ones of a record's fields. -/
def fields? (names : List String) : Json → Option (List (String × Json))
  | .object members =>
    let known := members.filter fun m => names.contains m.1
    if (known.map (·.1)).Nodup then some known else none
  | .array items => if items.length ≤ names.length then some (names.zip items) else none
  | _ => none

/-- A field's value, the standard one where it is not given. -/
def field {α : Type} (given : List (String × Json)) (name : String)
    (read : Json → Option α) (standard : α) : Option α :=
  match given.lookup name with
  | none => some standard
  | some j => read j

def toReal? : Json → Option Float
  | .natural n => some (Decimal.ofNat n).toFloat
  | .real x => some x
  | _ => none

def toNatural? : Json → Option Nat
  | .natural n => some n
  | _ => none

def toBool? : Json → Option Bool
  | .bool b => some b
  | _ => none

def toText? : Json → Option String
  | .string s => some s
  | _ => none

end Json

open Json (field)

namespace ParseSettings

def fieldNames : List String := ["max_depth"]

def toJson (s : ParseSettings) : Json := .object [("max_depth", .natural s.maxDepth)]

def ofJson? (j : Json) : Option ParseSettings := do
  let given ← j.fields? fieldNames
  some { maxDepth := ← field given "max_depth" Json.toNatural? standard.maxDepth }

end ParseSettings

namespace LayoutSettings

def fieldNames : List String :=
  ["min_node_width", "min_node_height", "connector_size", "neighbor_spacing",
    "child_spacing", "segment_spacing", "padding", "glide_velocity"]

def toJson (s : LayoutSettings Float) : Json := .object [
  ("min_node_width", .real s.minNodeWidth),
  ("min_node_height", .real s.minNodeHeight),
  ("connector_size", .real s.connectorSize),
  ("neighbor_spacing", .real s.neighborSpacing),
  ("child_spacing", .real s.childSpacing),
  ("segment_spacing", .real s.segmentSpacing),
  ("padding", .real s.padding),
  ("glide_velocity", .real s.glideVelocity)]

def ofJson? (j : Json) : Option (LayoutSettings Float) := do
  let given ← j.fields? fieldNames
  let real := fun name standard => field given name Json.toReal? standard
  let s : LayoutSettings Float := standard
  some {
    minNodeWidth := ← real "min_node_width" s.minNodeWidth
    minNodeHeight := ← real "min_node_height" s.minNodeHeight
    connectorSize := ← real "connector_size" s.connectorSize
    neighborSpacing := ← real "neighbor_spacing" s.neighborSpacing
    childSpacing := ← real "child_spacing" s.childSpacing
    segmentSpacing := ← real "segment_spacing" s.segmentSpacing
    padding := ← real "padding" s.padding
    glideVelocity := ← real "glide_velocity" s.glideVelocity }

end LayoutSettings

namespace Theme

def fieldNames : List String :=
  ["background", "node_fill", "node_stroke", "text", "highlight", "link", "link_active",
    "connector", "selection", "line_width", "font", "text_baseline"]

def toJson (s : Theme Float) : Json := .object [
  ("background", s.background.toJson),
  ("node_fill", s.nodeFill.toJson),
  ("node_stroke", s.nodeStroke.toJson),
  ("text", s.text.toJson),
  ("highlight", s.highlight.toJson),
  ("link", s.link.toJson),
  ("link_active", s.linkActive.toJson),
  ("connector", s.connector.toJson),
  ("selection", s.selection.toJson),
  ("line_width", .real s.lineWidth),
  ("font", .string s.font),
  ("text_baseline", .real s.textBaseline)]

def ofJson? (j : Json) : Option (Theme Float) := do
  let given ← j.fields? fieldNames
  let real := fun name standard => field given name Json.toReal? standard
  let color := fun name standard => field given name Color.ofJson? standard
  let s : Theme Float := standard
  some {
    background := ← color "background" s.background
    nodeFill := ← color "node_fill" s.nodeFill
    nodeStroke := ← color "node_stroke" s.nodeStroke
    text := ← color "text" s.text
    highlight := ← color "highlight" s.highlight
    link := ← color "link" s.link
    linkActive := ← color "link_active" s.linkActive
    connector := ← color "connector" s.connector
    selection := ← color "selection" s.selection
    lineWidth := ← real "line_width" s.lineWidth
    font := ← field given "font" Json.toText? s.font
    textBaseline := ← real "text_baseline" s.textBaseline }

end Theme

namespace Settings

def fieldNames : List String :=
  ["max_initial_scale", "zoom_in", "zoom_out", "scroll_speed", "centered",
    "reset_view_on_parse", "parse", "layout", "theme"]

def toJson (s : Settings Float) : Json := .object [
  ("max_initial_scale", .real s.maxInitialScale),
  ("zoom_in", .real s.zoomIn),
  ("zoom_out", .real s.zoomOut),
  ("scroll_speed", .real s.scrollSpeed),
  ("centered", .bool s.centered),
  ("reset_view_on_parse", .bool s.resetViewOnParse),
  ("parse", s.parse.toJson),
  ("layout", s.layout.toJson),
  ("theme", s.theme.toJson)]

def ofJson? (j : Json) : Option (Settings Float) := do
  let given ← j.fields? fieldNames
  let real := fun name standard => field given name Json.toReal? standard
  let s : Settings Float := standard
  some {
    maxInitialScale := ← real "max_initial_scale" s.maxInitialScale
    zoomIn := ← real "zoom_in" s.zoomIn
    zoomOut := ← real "zoom_out" s.zoomOut
    scrollSpeed := ← real "scroll_speed" s.scrollSpeed
    centered := ← field given "centered" Json.toBool? s.centered
    resetViewOnParse := ← field given "reset_view_on_parse" Json.toBool? s.resetViewOnParse
    parse := ← field given "parse" ParseSettings.ofJson? s.parse
    layout := ← field given "layout" LayoutSettings.ofJson? s.layout
    theme := ← field given "theme" Theme.ofJson? s.theme }

/-- Settings from a JSON text. -/
def read? (text : String) : Option (Settings Float) := (Json.parse? text).bind ofJson?

/-- Settings as a JSON text. -/
def render (s : Settings Float) : String := s.toJson.render

end Settings

end SExprViewer
