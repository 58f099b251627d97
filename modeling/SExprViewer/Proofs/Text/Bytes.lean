import Mathlib.Data.List.Basic

/-! # Texts in bytes

Offsets into a text may be counted in bytes, of which a character takes one to four.  `splitBytes?`
cuts a text at such an offset, and cannot where the offset is within a character or past the end:
it cuts where some characters end (`splitBytes?_eq_some_iff`).  This is what makes an offset one
between characters (`isValid_iff`). -/
set_option autoImplicit false

namespace SExprViewer.Text

/-- The number of bytes that some characters take. -/
def byteCount : List Char → Nat
  | [] => 0
  | c :: cs => c.utf8Size + byteCount cs

theorem byteCount_cons (c : Char) (cs : List Char) :
    byteCount (c :: cs) = c.utf8Size + byteCount cs := rfl

@[simp] theorem byteCount_append (cs cs' : List Char) :
    byteCount (cs ++ cs') = byteCount cs + byteCount cs' := by
  induction cs with
  | nil => exact (Nat.zero_add _).symm
  | cons c cs ih => rw [List.cons_append, byteCount_cons, byteCount_cons, ih, Nat.add_assoc]

theorem utf8ByteSize_ofList (cs : List Char) : (String.ofList cs).utf8ByteSize = byteCount cs := by
  induction cs with
  | nil => rfl
  | cons c cs ih =>
      have hcons : String.ofList (c :: cs) = String.singleton c ++ String.ofList cs := by
        rw [String.singleton_eq_ofList, ← String.ofList_append, List.singleton_append]
      rw [hcons, String.utf8ByteSize_append, ih, String.utf8ByteSize_singleton, byteCount_cons]

theorem utf8ByteSize_eq (text : String) : text.utf8ByteSize = byteCount text.toList := by
  rw [← utf8ByteSize_ofList, String.ofList_toList]

/-! ## Cuts -/

/-- The first `n` bytes and the rest. -/
def splitBytes? : List Char → Nat → Option (List Char × List Char)
  | [], n => if n = 0 then some ([], []) else none
  | c :: cs, n =>
    if n = 0 then some ([], c :: cs)
    else if c.utf8Size ≤ n then
      (splitBytes? cs (n - c.utf8Size)).map fun (before, after) => (c :: before, after)
    else none

theorem splitBytes?_append (before after : List Char) :
    splitBytes? (before ++ after) (byteCount before) = some (before, after) := by
  induction before with
  | nil => cases after <;> rfl
  | cons c before ih =>
      have hpos := c.utf8Size_pos
      rw [List.cons_append, splitBytes?, byteCount_cons, if_neg (by omega), if_pos (by omega),
        Nat.add_sub_cancel_left, ih]
      rfl

theorem of_splitBytes? {cs : List Char} : ∀ {n : Nat} {before after : List Char},
    splitBytes? cs n = some (before, after) → cs = before ++ after ∧ byteCount before = n := by
  induction cs with
  | nil =>
      intro n before after h
      rw [splitBytes?] at h
      split at h
      · cases h
        exact ⟨rfl, Eq.symm ‹_›⟩
      · cases h
  | cons c cs ih =>
      intro n before after h
      rw [splitBytes?] at h
      split at h
      · cases h
        exact ⟨rfl, Eq.symm ‹_›⟩
      split at h
      · obtain ⟨⟨before', after'⟩, hsplit, heq⟩ := Option.map_eq_some_iff.mp h
        cases heq
        obtain ⟨rfl, hbytes⟩ := ih hsplit
        refine ⟨rfl, ?_⟩
        rw [byteCount_cons, hbytes]
        omega
      · cases h

theorem splitBytes?_eq_some_iff {cs before after : List Char} {n : Nat} :
    splitBytes? cs n = some (before, after) ↔ cs = before ++ after ∧ byteCount before = n := by
  constructor
  · exact of_splitBytes?
  · rintro ⟨rfl, rfl⟩
    exact splitBytes?_append before after

/-- An offset is valid where some characters end. -/
theorem isValid_iff {text : String} {n : Nat} : (⟨n⟩ : String.Pos.Raw).IsValid text ↔
    ∃ before after, text.toList = before ++ after ∧ byteCount before = n := by
  rw [String.Pos.Raw.isValid_iff_exists_take_toList]
  constructor
  · rintro ⟨k, hk⟩
    exact ⟨text.toList.take k, text.toList.drop k, (List.take_append_drop ..).symm,
      (utf8ByteSize_ofList _).symm.trans hk.symm⟩
  · rintro ⟨before, after, htext, rfl⟩
    refine ⟨before.length, ?_⟩
    rw [htext, List.take_left, utf8ByteSize_ofList]

end SExprViewer.Text
