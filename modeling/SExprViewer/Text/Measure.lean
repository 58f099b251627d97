import SExprViewer.Scalar

/-! # Text widths

A text measure gives the drawn width of a text.  Where no font is at hand every character
advances by the same amount. -/
set_option autoImplicit false

namespace SExprViewer

abbrev TextMeasure (K : Type) := String → K

variable {K : Type} [Scalar K]

def fixedAdvance (charWidth : K) : TextMeasure K := fun text =>
  Scalar.ofNat text.length * charWidth

/-- About the width of a glyph ten pixels high. -/
def standardAdvance : K := Scalar.ofNat 6

end SExprViewer
