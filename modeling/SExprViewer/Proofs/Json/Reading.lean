import Mathlib.Data.List.Basic
import SExprViewer.Json.Reader

/-! # What is read, step by step

`valueRest?`, `itemsRest?` and `membersRest?` are what the reader gives, without the proof that
something of the text was used up; each is told from the others by one equation.  `Reads cs j tail`
says that `cs` begins with a text of `j`, and that `tail` is what follows it and the white space
after it.  There is one lemma for each way of going on: a scalar (`reads_scalar`), an array or an
object with its items or members (`reads_array`, `reads_object`), and the last item or member of a
list or one before others (`readsItems_cons`, `readsMembers_cons`). -/
set_option autoImplicit false

namespace SExprViewer.Json

/-! ## The reader without its proofs -/

/-- What was read and the text behind it. -/
def withRest {α : Type} {cs : List Char} (read : Option (α × Rest cs)) : Option (α × List Char) :=
  read.map fun p => (p.1, p.2.1)

def valueRest? (cs : List Char) : Option (Json × List Char) := withRest (value? cs)

def itemsRest? (cs : List Char) : Option (List Json × List Char) := withRest (items? cs)

def membersRest? (cs : List Char) : Option (List (Option String × Json) × List Char) :=
  withRest (members? cs)

theorem withRest_progress? {α : Type} (cs : List Char) (read : Option (α × List Char)) :
    withRest (progress? cs read) = read.filter fun p => p.2.length < cs.length := by
  unfold progress?
  split
  · split
    · rename_i h
      exact (if_pos (decide_eq_true h)).symm
    · rename_i h
      exact (if_neg (by simpa using h)).symm
  · rfl

theorem valueRest?_eq (cs : List Char) : valueRest? cs =
    match skipBlank cs with
    | '[' :: rest =>
      match skipBlank rest with
      | ']' :: rest' => some (.array [], rest')
      | _ => (itemsRest? rest).map fun (items, rest') => (.array items, rest')
    | '\x7b' :: rest =>
      match skipBlank rest with
      | '\x7d' :: rest' => some (.object [], rest')
      | _ => (membersRest? rest).map fun (members, rest') => (ofMembers members, rest')
    | rest => (scalar? rest).filter fun p => p.2.length < cs.length := by
  unfold valueRest?
  rw [value?]
  split
  · rename_i rest hcs
    simp only [hcs]
    split
    · rename_i hrest
      simp only [hrest]
      rfl
    · rename_i hrest
      unfold itemsRest?
      -- neither the reader nor the equation takes the branch of the closing bracket
      cases items? rest <;> dsimp only <;> split <;>
        first | rfl | exact absurd ‹_› (hrest _)
  · rename_i rest hcs
    simp only [hcs]
    split
    · rename_i hrest
      simp only [hrest]
      rfl
    · rename_i hrest
      unfold membersRest?
      cases members? rest <;> dsimp only <;> split <;>
        first | rfl | exact absurd ‹_› (hrest _)
  · rename_i hbracket hbrace
    split
    · rename_i h
      exact absurd h (hbracket _)
    · rename_i h
      exact absurd h (hbrace _)
    · exact withRest_progress? cs _

theorem itemsRest?_eq (cs : List Char) : itemsRest? cs =
    (valueRest? cs).bind fun (j, rest) =>
      match skipBlank rest with
      | ',' :: rest' => (itemsRest? rest').map fun (items, last) => (j :: items, last)
      | ']' :: rest' => some ([j], rest')
      | _ => none := by
  unfold itemsRest? valueRest?
  rw [items?]
  cases value? cs with
  | none => rfl
  | some p =>
      simp only [withRest, Option.map_some, Option.bind_some]
      split
      · rename_i rest' hrest
        simp only [hrest]
        cases items? rest' <;> rfl
      · rename_i hrest
        simp only [hrest]
        rfl
      · rename_i hcomma hbracket
        split
        · rename_i h
          exact absurd h (hcomma _)
        · rename_i h
          exact absurd h (hbracket _)
        · rfl

theorem membersRest?_eq (cs : List Char) : membersRest? cs =
    ((name? (skipBlank cs)).filter fun p => p.2.length < (skipBlank cs).length).bind
      fun (name, afterName) => (valueRest? afterName).bind fun (j, rest) =>
        match skipBlank rest with
        | ',' :: rest' =>
          (membersRest? rest').map fun (members, last) => ((name, j) :: members, last)
        | '\x7d' :: rest' => some ([(name, j)], rest')
        | _ => none := by
  rw [← withRest_progress?]
  unfold membersRest? valueRest?
  rw [members?]
  cases progress? (skipBlank cs) (name? (skipBlank cs)) with
  | none => rfl
  | some n =>
      simp only [withRest, Option.map_some, Option.bind_some]
      cases value? n.2.1 with
      | none => rfl
      | some p =>
          simp only [Option.map_some, Option.bind_some]
          split
          · rename_i rest' hrest
            simp only [hrest]
            cases members? rest' <;> rfl
          · rename_i hrest
            simp only [hrest]
            rfl
          · rename_i hcomma hbrace
            split
            · rename_i h
              exact absurd h (hcomma _)
            · rename_i h
              exact absurd h (hbrace _)
            · rfl

/-! ## Steps -/

/-- A value stands first in a text, and `tail` after it and the white space behind it. -/
def Reads (cs : List Char) (j : Json) (tail : List Char) : Prop :=
  ∃ rest, valueRest? cs = some (j, rest) ∧ skipBlank rest = tail

/-- The items of an array stand first in a text, and `tail` after the closing bracket. -/
def ReadsItems (cs : List Char) (items : List Json) (tail : List Char) : Prop :=
  itemsRest? cs = some (items, tail)

/-- The members of an object stand first in a text, and `tail` after the closing brace. -/
def ReadsMembers (cs : List Char) (members : List (Option String × Json)) (tail : List Char) :
    Prop :=
  membersRest? cs = some (members, tail)

theorem parse?_eq_some_iff (text : String) (j : Json) :
    parse? text = some j ↔ Reads text.toList j [] := by
  unfold parse? Reads valueRest? withRest
  cases value? text.toList with
  | none => simp
  | some p => by_cases h : skipBlank p.2.1 = [] <;> simp [h]

theorem skipBlank_cons {c : Char} (h : isBlank c = false) (cs : List Char) :
    skipBlank (c :: cs) = c :: cs := by
  rw [skipBlank, List.dropWhile_cons_of_neg (by simpa using h)]

section Steps
variable {cs rest tail : List Char} {j : Json}

theorem reads_scalar (hscalar : scalar? (skipBlank cs) = some (j, rest))
    (hlength : rest.length < cs.length) : Reads cs j (skipBlank rest) := by
  refine ⟨rest, ?_, rfl⟩
  rw [valueRest?_eq]
  split
  · rename_i hcs
    rw [hcs] at hscalar
    cases hscalar
  · rename_i hcs
    rw [hcs] at hscalar
    cases hscalar
  · rw [hscalar]
    exact if_pos (decide_eq_true hlength)

/-- No value begins with a closing bracket. -/
theorem Reads.ne_bracket (h : Reads cs j tail) : ∀ last, skipBlank cs ≠ ']' :: last := by
  intro last hcs
  obtain ⟨rest, hvalue, -⟩ := h
  rw [valueRest?_eq, hcs] at hvalue
  cases hvalue

theorem readsItems_last (h : Reads cs j (']' :: tail)) : ReadsItems cs [j] tail := by
  obtain ⟨rest, hvalue, hrest⟩ := h
  unfold ReadsItems
  rw [itemsRest?_eq]
  simp only [hvalue, Option.bind_some, hrest]

theorem readsItems_cons {next : List Char} {items : List Json} (h : Reads cs j (',' :: next))
    (hitems : ReadsItems next items tail) : ReadsItems cs (j :: items) tail := by
  obtain ⟨rest, hvalue, hrest⟩ := h
  unfold ReadsItems at hitems ⊢
  rw [itemsRest?_eq]
  simp only [hvalue, Option.bind_some, hrest, hitems, Option.map_some]

theorem ReadsItems.ne_bracket {items : List Json} (h : ReadsItems cs items tail) :
    ∀ last, skipBlank cs ≠ ']' :: last := by
  unfold ReadsItems at h
  rw [itemsRest?_eq] at h
  obtain ⟨⟨j, rest⟩, hvalue, -⟩ := Option.bind_eq_some_iff.mp h
  exact Reads.ne_bracket ⟨rest, hvalue, rfl⟩

theorem reads_array_nil (hcs : skipBlank cs = '[' :: rest) (hrest : skipBlank rest = ']' :: tail) :
    Reads cs (.array []) (skipBlank tail) := by
  refine ⟨tail, ?_, rfl⟩
  simp only [valueRest?_eq, hcs, hrest]

theorem reads_array {items : List Json} (hcs : skipBlank cs = '[' :: rest)
    (hitems : ReadsItems rest items tail) : Reads cs (.array items) (skipBlank tail) := by
  refine ⟨tail, ?_, rfl⟩
  simp only [valueRest?_eq, hcs]
  split
  · rename_i h
    exact absurd h (hitems.ne_bracket _)
  · unfold ReadsItems at hitems
    rw [hitems, Option.map_some]

variable {name : Option String} {afterName : List Char}

theorem filter_name? (hname : name? (skipBlank cs) = some (name, afterName))
    (hlength : afterName.length < (skipBlank cs).length) :
    ((name? (skipBlank cs)).filter fun p => p.2.length < (skipBlank cs).length) =
      some (name, afterName) := by
  rw [hname]
  exact if_pos (decide_eq_true hlength)

theorem readsMembers_last (hname : name? (skipBlank cs) = some (name, afterName))
    (hlength : afterName.length < (skipBlank cs).length) (h : Reads afterName j ('\x7d' :: tail)) :
    ReadsMembers cs [(name, j)] tail := by
  obtain ⟨rest, hvalue, hrest⟩ := h
  unfold ReadsMembers
  rw [membersRest?_eq, filter_name? hname hlength]
  simp only [Option.bind_some, hvalue, hrest]

theorem readsMembers_cons {next : List Char} {members : List (Option String × Json)}
    (hname : name? (skipBlank cs) = some (name, afterName))
    (hlength : afterName.length < (skipBlank cs).length) (h : Reads afterName j (',' :: next))
    (hmembers : ReadsMembers next members tail) : ReadsMembers cs ((name, j) :: members) tail := by
  obtain ⟨rest, hvalue, hrest⟩ := h
  unfold ReadsMembers at hmembers ⊢
  rw [membersRest?_eq, filter_name? hname hlength]
  simp only [Option.bind_some, hvalue, hrest, hmembers, Option.map_some]

theorem ReadsMembers.ne_brace {members : List (Option String × Json)}
    (h : ReadsMembers cs members tail) : ∀ last, skipBlank cs ≠ '\x7d' :: last := by
  intro last hcs
  unfold ReadsMembers at h
  rw [membersRest?_eq, hcs] at h
  cases h

theorem ofMembers_some (members : List (String × Json)) :
    ofMembers (members.map fun m => (some m.1, m.2)) = .object members := by
  have hmapM : (members.map fun m => (some m.1, m.2)).mapM
      (fun (m : Option String × Json) => m.1.map (·, m.2)) = some members := by
    induction members with
    | nil => rfl
    | cons m members ih =>
        rw [List.map_cons, List.mapM_cons, ih]
        rfl
  unfold ofMembers
  rw [hmapM]

theorem reads_object_nil (hcs : skipBlank cs = '\x7b' :: rest)
    (hrest : skipBlank rest = '\x7d' :: tail) : Reads cs (.object []) (skipBlank tail) := by
  refine ⟨tail, ?_, rfl⟩
  simp only [valueRest?_eq, hcs, hrest]

theorem reads_object {members : List (String × Json)} (hcs : skipBlank cs = '\x7b' :: rest)
    (hmembers : ReadsMembers rest (members.map fun m => (some m.1, m.2)) tail) :
    Reads cs (.object members) (skipBlank tail) := by
  refine ⟨tail, ?_, rfl⟩
  simp only [valueRest?_eq, hcs]
  split
  · rename_i h
    exact absurd h (hmembers.ne_brace _)
  · unfold ReadsMembers at hmembers
    rw [hmembers, Option.map_some, ofMembers_some]

end Steps

end SExprViewer.Json
