import SExprViewer.Proofs.Json.Grammar
import SExprViewer.Proofs.Json.RealText

/-! # What is written is standard JSON

Every character of a string is written as a text of it (`isCharText_escape`), so a string is written
as a string of the standard (`isString_quote`).  An array is written as the texts of its items and
an object as those of its members, in their order (`denotes_array`, `denotes_object`). -/
set_option autoImplicit false

namespace SExprViewer.Json

/-! ## Scalars -/

theorem isCharText_escape (c : Char) : IsCharText (escape c) c := by
  unfold escape
  split_ifs with hquote hback _ _ _ _ _ hcontrol
  -- The seven characters with a letter of their own.
  any_goals
    subst_vars
    exact .letter rfl
  · have hunit := hexUnit?_hexDigitLower hcontrol
    obtain ⟨hhigh, hlow⟩ := not_surrogate c
    have h := IsCharText.codePoint hunit hhigh hlow
    rwa [Char.ofNat_toNat] at h
  · exact .plain (Nat.le_of_not_lt hcontrol) hquote hback

theorem isCharsText_escape (cs : List Char) : IsCharsText (cs.flatMap escape) cs := by
  induction cs with
  | nil => exact .nil
  | cons c cs ih => exact .cons (isCharText_escape c) ih

theorem isString_quote (s : String) : IsString (quote s.toList) s :=
  ⟨s.toList.flatMap escape, isCharsText_escape s.toList, rfl⟩

theorem denotes_scalar {cs : List Char} {d : Datum} (h : IsScalar cs d) : Denotes cs d :=
  .scalar h (padded_self cs)

theorem denotes_string (s : String) : Denotes (Json.string s).write (.string s) :=
  denotes_scalar (.string (isString_quote s))

theorem denotes_natural (n : Nat) : Denotes (Json.natural n).write (.number (.ofNat n)) :=
  denotes_scalar (.number (isNumber_decimalDigits n))

theorem denotes_word {w : List Char × Datum} (h : w ∈ words) : Denotes w.1 w.2 :=
  denotes_scalar (.word h)

theorem denotes_null : Denotes Json.null.write .null :=
  denotes_word (w := (Json.null.write, .null)) List.mem_cons_self

theorem denotes_bool (b : Bool) : Denotes (Json.bool b).write (.bool b) := by
  cases b with
  | true => exact denotes_word (w := ((Json.bool true).write, .bool true)) (by simp [words, write])
  | false =>
      exact denotes_word (w := ((Json.bool false).write, .bool false)) (by simp [words, write])

/-! ## Arrays and objects -/

theorem writeItems_eq (js : List Json) : writeItems js = joined ']' (js.map write) := by
  cases js with
  | nil => rw [writeItems]; rfl
  | cons j js =>
      rw [List.map_cons, joined]
      induction js generalizing j with
      | nil => rw [writeItems]; rfl
      | cons k js ih =>
          rw [writeItems, ih k]
          · rfl
          · exact List.cons_ne_nil k js

/-- The text of a member. -/
def writeMember (m : String × Json) : List Char := quote m.1.toList ++ ':' :: m.2.write

theorem writeMember_append (m : String × Json) (rest : List Char) :
    writeMember m ++ rest = quote m.1.toList ++ ':' :: (m.2.write ++ rest) := by
  rw [writeMember, List.append_assoc]
  rfl

theorem writeMembers_eq (ms : List (String × Json)) :
    writeMembers ms = joined '\x7d' (ms.map writeMember) := by
  cases ms with
  | nil => rw [writeMembers]; rfl
  | cons m ms =>
      rw [List.map_cons, joined]
      induction ms generalizing m with
      | nil =>
          rw [writeMembers]
          exact (writeMember_append m _).symm
      | cons k ms ih =>
          rw [writeMembers, ih k]
          · exact (writeMember_append m _).symm
          · exact List.cons_ne_nil k ms

theorem denotes_array {js : List Json} {ds : List Datum}
    (h : List.Forall₂ (fun j d => Denotes j.write d) js ds) :
    Denotes (Json.array js).write (.array ds) := by
  have hitems : ∃ items : List (List Char × Datum), items.map (·.1) = js.map write ∧
      items.map (·.2) = ds ∧ ∀ i ∈ items, Denotes i.1 i.2 := by
    induction h with
    | nil => exact ⟨[], rfl, rfl, nofun⟩
    | @cons j d js ds hj _ ih =>
        obtain ⟨items, htexts, rfl, hvalid⟩ := ih
        refine ⟨(j.write, d) :: items, by rw [List.map_cons, htexts, List.map_cons], rfl, ?_⟩
        exact List.forall_mem_cons.mpr ⟨hj, hvalid⟩
  obtain ⟨items, htexts, rfl, hvalid⟩ := hitems
  refine @Denotes.array [] _ _ nofun hvalid ?_
  rw [write, writeItems_eq, ← htexts]
  exact padded_self _

theorem denotes_object {ms : List (String × Json)} {ds : List (String × Datum)}
    (h : List.Forall₂ (fun m d => m.1 = d.1 ∧ Denotes m.2.write d.2) ms ds) :
    Denotes (Json.object ms).write (.object ds) := by
  have hmembers : ∃ members : List Member, members.map Member.wholeText = ms.map writeMember ∧
      (members.map fun m => (m.name, m.value)) = ds ∧ ∀ m ∈ members, m.Valid := by
    induction h with
    | nil => exact ⟨[], rfl, rfl, nofun⟩
    | @cons m d ms ds hm _ ih =>
        obtain ⟨members, htexts, rfl, hvalid⟩ := ih
        obtain ⟨hname, hvalue⟩ := hm
        refine ⟨⟨quote m.1.toList, d.1, m.2.write, d.2⟩ :: members,
          by rw [List.map_cons, htexts, List.map_cons]; rfl, rfl, ?_⟩
        refine List.forall_mem_cons.mpr ⟨⟨⟨_, ?_, padded_self _⟩, hvalue⟩, hvalid⟩
        rw [hname]
        exact isString_quote d.1
  obtain ⟨members, htexts, rfl, hvalid⟩ := hmembers
  refine @Denotes.object [] _ _ nofun (fun m hm => (hvalid m hm).1)
    (fun m hm => (hvalid m hm).2) ?_
  rw [write, writeMembers_eq, ← htexts]
  exact padded_self _

end SExprViewer.Json
