import SExprViewer.Color.Basic
import SExprViewer.Expr.Parser
import SExprViewer.Scalar

/-! # Settings

What a host can change about reading, layout, painting and viewing, and the stock
values. -/
set_option autoImplicit false

namespace SExprViewer

/-- Metrics of node boxes and the gaps between them.  Boxes never grow vertically, so that
`minNodeHeight` is the height of every node.  A node goes to its place with the speed
`glideVelocity`, in units per millisecond; 0 puts it there. -/
structure LayoutSettings (K : Type) where
  minNodeWidth : K
  minNodeHeight : K
  connectorSize : K
  neighborSpacing : K
  childSpacing : K
  segmentSpacing : K
  padding : K
  glideVelocity : K
deriving BEq, Repr

structure Theme (K : Type) where
  background : Color
  nodeFill : Color
  nodeStroke : Color
  text : Color
  highlight : Color
  link : Color
  linkActive : Color
  connector : Color
  selection : Color
  lineWidth : K
  font : String
  textBaseline : K
deriving BEq, Repr

structure Settings (K : Type) where
  maxInitialScale : K
  zoomIn : K
  zoomOut : K
  scrollSpeed : K
  centered : Bool
  resetViewOnParse : Bool
  parse : ParseSettings
  layout : LayoutSettings K
  theme : Theme K
deriving BEq, Repr

variable {K : Type} [Scalar K]

open Scalar (decimal ofNat)

def LayoutSettings.standard : LayoutSettings K where
  minNodeWidth := ofNat 25
  minNodeHeight := ofNat 25
  connectorSize := ofNat 5
  neighborSpacing := ofNat 7
  childSpacing := decimal 375 1
  segmentSpacing := ofNat 3
  padding := ofNat 10
  glideVelocity := ofNat 0

def Theme.standard : Theme K where
  background := .white
  nodeFill := .white
  nodeStroke := .black
  text := .black
  highlight := .ofBytes 100 200 100 0.4
  link := .ofBytes 0 0 0 0.25
  linkActive := .ofBytes 255 0 0 0.25
  connector := .black
  selection := .ofBytes 30 110 230 0.9
  lineWidth := ofNat 2
  font := "10px sans-serif"
  textBaseline := ofNat 4

def Settings.standard : Settings K where
  maxInitialScale := decimal 15 1
  zoomIn := decimal 11 1
  zoomOut := decimal 9 1
  scrollSpeed := ofNat 20
  centered := true
  resetViewOnParse := true
  parse := .standard
  layout := .standard
  theme := .standard

end SExprViewer
