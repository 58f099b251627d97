import SExprViewer.Number.Text

/-! # Colors

A color has four single-precision channels, nominally between 0 and 1.  Its bytes are the
channels held to that range, times 255, rounded with a half going up; NaN has the byte 0.
A style text names the bytes, and unless the alpha byte is 255 the alpha itself to three
places. -/
set_option autoImplicit false

namespace SExprViewer

structure Color where
  r : Float32
  g : Float32
  b : Float32
  a : Float32
deriving BEq, Repr

structure ColorBytes where
  r : UInt8
  g : UInt8
  b : UInt8
  a : UInt8
deriving DecidableEq, Repr

/-- Holds a channel between 0 and 1; NaN stays. -/
def holdToUnit (x : Float32) : Float32 := if x < 0 then 0 else if 1 < x then 1 else x

namespace Binary

def roundedSize (f : BinaryFormat) : Binary → Nat
  | .finite _ significand scale => roundHalfUp (significand * 2 ^ scale) (2 ^ f.unitExponent)
  | _ => 0

end Binary

/-- The nearest whole number, a half going away from zero; the sign is kept, also of zero. -/
def roundSingle (x : Float32) : Float32 :=
  match Binary.ofSingle x with
  | .finite negative significand scale =>
    let size := Float32.ofNat ((Binary.finite negative significand scale).roundedSize .single)
    if negative then -size else size
  | _ => x

def channelByte (x : Float32) : UInt8 :=
  ((Binary.ofSingle (holdToUnit x * 255)).roundedSize .single).toUInt8

def byteChannel (n : UInt8) : Float32 := Float32.ofNat n.toNat / 255

namespace ColorBytes

def toColor (c : ColorBytes) : Color :=
  ⟨byteChannel c.r, byteChannel c.g, byteChannel c.b, byteChannel c.a⟩

end ColorBytes

namespace Color

def black : Color := ⟨0, 0, 0, 1⟩
def white : Color := ⟨1, 1, 1, 1⟩
def transparent : Color := ⟨0, 0, 0, 0⟩

/-- Three bytes and an alpha, as style texts spell a color. -/
def ofBytes (r g b : UInt8) (alpha : Float32) : Color :=
  ⟨byteChannel r, byteChannel g, byteChannel b, holdToUnit alpha⟩

def bytes (c : Color) : ColorBytes :=
  ⟨channelByte c.r, channelByte c.g, channelByte c.b, channelByte c.a⟩

def roundedAlpha (c : Color) : Float32 := roundSingle (holdToUnit c.a * 1000) / 1000

def toCss (c : Color) : String :=
  let n := c.bytes
  if n.a = 255 then s!"rgb({n.r.toNat}, {n.g.toNat}, {n.b.toNat})"
  else
    s!"rgba({n.r.toNat}, {n.g.toNat}, {n.b.toNat}, "
      ++ String.ofList (plainTextSingle c.roundedAlpha) ++ ")"

/-- The bytes as channels again, each multiplied by the rounded reciprocal of 255. -/
def quantised (c : Color) : Color :=
  let channel (n : UInt8) : Float32 := Float32.ofNat n.toNat * (1 / 255)
  let n := c.bytes
  ⟨channel n.r, channel n.g, channel n.b, channel n.a⟩

end Color

end SExprViewer
