import Mathlib.Data.List.Basic
import SExprViewer.Proofs.Json.Reading
import SExprViewer.Proofs.Json.Scalars

/-! # A value is read as it was written

What is written of a value reads back as the value (`parse?_render`), also with anything behind
it that does not go on with a number (`reads_write`).  Of the real numbers in it this is assumed
(`ReadsBack`), since the last bit of a number that is read may be off; a whole number has to fit
64 bits. -/
set_option autoImplicit false

namespace SExprViewer.Json

/-! ## Numbers -/

/-- The text of a number reads back as the number. -/
def ReadsBack (x : Float) : Prop := parse? (Json.real x).render = some (.real x)

/-- Whether a value is a given number. -/
def isReal (x : Float) : Json → Bool
  | .real y => y = x
  | _ => false

theorem readsBack_iff (x : Float) :
    ReadsBack x ↔ (parse? (Json.real x).render).any (isReal x) = true := by
  unfold ReadsBack
  cases parse? (Json.real x).render with
  | none => simp
  | some j => cases j <;> simp [isReal]

instance (x : Float) : Decidable (ReadsBack x) := decidable_of_iff' _ (readsBack_iff x)

theorem of_scalar?_real {cs rest : List Char} {x : Float}
    (h : scalar? cs = some (.real x, rest)) :
    ∃ l, literal? cs = some (l, rest) ∧ l.value = .real x := by
  unfold scalar? at h
  split at h
  · obtain ⟨p, -, heq⟩ := Option.map_eq_some_iff.mp h
    cases hstring : decodeUnits p.1 <;> simp [hstring] at heq
  · obtain ⟨p, -, heq⟩ := Option.map_eq_some_iff.mp h
    cases heq
  · obtain ⟨p, -, heq⟩ := Option.map_eq_some_iff.mp h
    cases heq
  · obtain ⟨p, -, heq⟩ := Option.map_eq_some_iff.mp h
    cases heq
  · obtain ⟨⟨l, last⟩, hliteral, heq⟩ := Option.map_eq_some_iff.mp h
    simp only [Prod.mk.injEq] at heq
    obtain ⟨hvalue, rfl⟩ := heq
    exact ⟨l, hliteral, hvalue⟩

theorem scalar?_of_literal? {cs rest : List Char} {l : Literal}
    (h : literal? cs = some (l, rest)) : scalar? cs = some (l.value, rest) := by
  unfold scalar?
  split
  · cases h
  · cases h
  · cases h
  · cases h
  · rw [h]
    rfl

theorem ofMembers_ne_real (members : List (Option String × Json)) (x : Float) :
    ofMembers members ≠ .real x := by
  unfold ofMembers
  split <;> nofun

/-- A real number is read as a literal. -/
theorem Reads.exists_literal {cs tail : List Char} {x : Float} (h : Reads cs (.real x) tail) :
    ∃ l rest, literal? (skipBlank cs) = some (l, rest) ∧ l.value = .real x ∧
      rest.length < cs.length ∧ skipBlank rest = tail := by
  obtain ⟨rest, hvalue, hrest⟩ := h
  rw [valueRest?_eq] at hvalue
  split at hvalue
  · split at hvalue
    · cases hvalue
    · obtain ⟨p, -, heq⟩ := Option.map_eq_some_iff.mp hvalue
      cases heq
  · split at hvalue
    · cases hvalue
    · obtain ⟨p, -, heq⟩ := Option.map_eq_some_iff.mp hvalue
      simp only [Prod.mk.injEq] at heq
      exact absurd heq.1 (ofMembers_ne_real p.1 x)
  · obtain ⟨hscalar, hlength⟩ := Option.filter_eq_some_iff.mp hvalue
    obtain ⟨l, hliteral, hl⟩ := of_scalar?_real hscalar
    exact ⟨l, rest, hliteral, hl, of_decide_eq_true hlength, hrest⟩

theorem Reads.append_real {cs tail : List Char} {x : Float} (h : Reads cs (.real x) [])
    (htail : Delimits tail) : Reads (cs ++ tail) (.real x) (skipBlank tail) := by
  obtain ⟨l, rest, hliteral, hvalue, hlength, hrest⟩ := h.exists_literal
  have hcs : skipBlank (cs ++ tail) = skipBlank cs ++ tail := by
    have hne : skipBlank cs ≠ [] := by
      intro hnil
      rw [hnil] at hliteral
      cases hliteral
    rw [skipBlank, List.dropWhile_append, if_neg (by rwa [List.isEmpty_iff])]
    rfl
  have htailRest : skipBlank (rest ++ tail) = skipBlank tail := by
    rw [skipBlank] at hrest
    rw [skipBlank, List.dropWhile_append, hrest]
    rfl
  rw [← hvalue, ← htailRest]
  refine reads_scalar ?_ (by simpa using hlength)
  rw [hcs]
  exact scalar?_of_literal? (literal?_append hliteral htail)

/-! ## Values -/

/-- A value that comes back from its text: whole numbers fit 64 bits, real ones are read back. -/
inductive Readable : Json → Prop
  | null : Readable .null
  | bool (b : Bool) : Readable (.bool b)
  | natural {n : Nat} (h : n < 2 ^ (64 : Nat)) : Readable (.natural n)
  | real {x : Float} (h : ReadsBack x) : Readable (.real x)
  | string (s : String) : Readable (.string s)
  | array {items : List Json} (h : ∀ j ∈ items, Readable j) : Readable (.array items)
  | object {members : List (String × Json)} (h : ∀ m ∈ members, Readable m.2) :
      Readable (.object members)

/-- A value is read from what is written of it and anything that does not go on with a number. -/
def ReadsAsWritten (j : Json) : Prop :=
  ∀ tail, Delimits tail → Reads (j.write ++ tail) j (skipBlank tail)

theorem readsAsWritten_natural {n : Nat} (hn : n < 2 ^ (64 : Nat)) :
    ReadsAsWritten (.natural n) := by
  intro tail htail
  obtain ⟨hne, hdigits⟩ := Expr.isDigits_decimalDigits n
  have hblank : skipBlank (decimalDigits n ++ tail) = decimalDigits n ++ tail := by
    cases hcs : decimalDigits n with
    | nil => exact absurd hcs hne
    | cons c cs =>
        refine skipBlank_cons ?_ _
        have hc := hdigits c (hcs ▸ List.mem_cons_self)
        by_contra h
        simp only [isBlank, Bool.not_eq_false, Bool.or_eq_true, decide_eq_true_eq] at h
        rcases h with ((rfl | rfl) | rfl) | rfl <;> cases hc
  have hscalar := scalar?_of_literal? (literal?_decimalDigits n htail)
  rw [value_decimalDigits hn, ← hblank] at hscalar
  refine reads_scalar hscalar ?_
  rw [List.length_append]
  exact Nat.lt_add_of_pos_left (List.length_pos_iff.mpr hne)

theorem quote_append (s tail : List Char) :
    quote s ++ tail = '"' :: (s.flatMap escape ++ '"' :: tail) := by
  simp [quote]

theorem readsAsWritten_string (s : String) : ReadsAsWritten (.string s) := by
  intro tail _
  change Reads (quote s.toList ++ tail) _ _
  rw [quote_append]
  refine reads_scalar ?_ (by simp; omega)
  change (units? (s.toList.flatMap escape ++ '"' :: tail)).map _ = _
  rw [units?_quote]
  simp only [Option.map_some, decodeUnits_toNat]

theorem readsItems_write {items : List Json} (hne : items ≠ [])
    (h : ∀ j ∈ items, ReadsAsWritten j) (tail : List Char) :
    ReadsItems (writeItems items ++ tail) items tail := by
  induction items with
  | nil => exact absurd rfl hne
  | cons j items ih =>
      have hj := h j List.mem_cons_self
      cases items with
      | nil =>
          have hlast := hj _ (delimits_cons (c := ']') (by decide) tail)
          rw [writeItems, List.append_assoc]
          exact readsItems_last hlast
      | cons k items =>
          have hnext :=
            hj _ (delimits_cons (c := ',') (by decide) (writeItems (k :: items) ++ tail))
          have hrest := ih (List.cons_ne_nil k items) fun i hi => h i (List.mem_cons_of_mem j hi)
          rw [writeItems, List.append_assoc]
          · exact readsItems_cons hnext hrest
          · nofun

theorem name?_quote (name : String) (rest : List Char) :
    name? (skipBlank (quote name.toList ++ ':' :: rest)) = some (some name, rest) := by
  rw [quote_append, skipBlank_cons rfl]
  simp only [name?, units?_quote, Option.bind_eq_bind, Option.bind_some, skipBlank_cons
    (show isBlank ':' = false from rfl), decodeUnits_toNat]

theorem length_lt_quote (name rest : List Char) :
    rest.length < (skipBlank (quote name ++ ':' :: rest)).length := by
  rw [quote_append, skipBlank_cons rfl]
  simp
  omega

theorem readsMembers_write {members : List (String × Json)} (hne : members ≠ [])
    (h : ∀ m ∈ members, ReadsAsWritten m.2) (tail : List Char) :
    ReadsMembers (writeMembers members ++ tail) (members.map fun m => (some m.1, m.2)) tail := by
  induction members with
  | nil => exact absurd rfl hne
  | cons m members ih =>
      obtain ⟨name, j⟩ := m
      have hj := h (name, j) List.mem_cons_self
      cases members with
      | nil =>
          have hlast := hj _ (delimits_cons (c := '\x7d') (by decide) tail)
          rw [writeMembers, List.append_assoc, List.cons_append, List.append_assoc]
          exact readsMembers_last (name?_quote name _) (length_lt_quote _ _) hlast
      | cons k members =>
          have hnext :=
            hj _ (delimits_cons (c := ',') (by decide) (writeMembers (k :: members) ++ tail))
          have hrest := ih (List.cons_ne_nil k members) fun i hi => h i (List.mem_cons_of_mem _ hi)
          rw [writeMembers, List.append_assoc, List.cons_append, List.append_assoc]
          · exact readsMembers_cons (name?_quote name _) (length_lt_quote _ _) hnext hrest
          · nofun

/-- What is written of a value reads back as the value, whatever follows. -/
theorem reads_write {j : Json} (h : Readable j) : ReadsAsWritten j := by
  induction h with
  | null => exact fun tail _ => reads_scalar rfl (by simp [write]; omega)
  | bool b => cases b <;> exact fun tail _ => reads_scalar rfl (by simp [write]; omega)
  | natural hn => exact readsAsWritten_natural hn
  | real hx =>
      intro tail htail
      have hreads := (parse?_eq_some_iff _ _).mp hx
      rw [render, String.toList_ofList] at hreads
      exact hreads.append_real htail
  | string s => exact readsAsWritten_string s
  | @array items _ ih =>
      intro tail _
      cases items with
      | nil => exact reads_array_nil (skipBlank_cons rfl _) (skipBlank_cons rfl _)
      | cons j items =>
          have hitems := readsItems_write (List.cons_ne_nil _ _) ih tail
          exact reads_array (skipBlank_cons rfl _) hitems
  | @object members _ ih =>
      intro tail _
      cases members with
      | nil => exact reads_object_nil (skipBlank_cons rfl _) (skipBlank_cons rfl _)
      | cons m members =>
          have hmembers := readsMembers_write (List.cons_ne_nil _ _) ih tail
          exact reads_object (skipBlank_cons rfl _) hmembers

theorem parse?_render {j : Json} (h : Readable j) : parse? j.render = some j := by
  rw [parse?_eq_some_iff, render, String.toList_ofList]
  have hreads := reads_write h [] nofun
  rwa [List.append_nil] at hreads

end SExprViewer.Json
