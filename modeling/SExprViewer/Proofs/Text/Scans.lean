import SExprViewer.Expr.Parser
import SExprViewer.Proofs.Text.Bytes
import SExprViewer.Proofs.Text.Position

/-! # Positions of byte offsets

`atByte?` finds the line and the column of a byte offset by looking at the text three times: it
counts the line feeds in front of the offset, looks for the last of them, and counts the characters
behind that one.  At an offset between two characters it finds the position that is told character
by character (`atByte?_byteCount`), so that no two such offsets have the same position
(`positions_ascend`). -/
set_option autoImplicit false

namespace SExprViewer.Position

open Text

/-- The byte offset of the last line feed. -/
def lastFeed? : List Char → Option Nat
  | [] => none
  | c :: rest =>
    match lastFeed? rest with
    | some i => some (c.utf8Size + i)
    | none => if c = '\n' then some 0 else none

/-- The position of a byte offset; past the end, that of the end.  There is none within a
character. -/
def atByte? (source : List Char) (offset : Nat) : Option Position :=
  match splitBytes? source (min offset (byteCount source)) with
  | none => none
  | some (before, _) =>
    let lineStart := match lastFeed? before with
      | some i => i + 1
      | none => 0
    match splitBytes? before lineStart with
    | none => none
    | some (_, line) => some ⟨before.count '\n' + 1, line.length + 1⟩

theorem lastFeed?_eq_none {line : List Char} (h : '\n' ∉ line) : lastFeed? line = none := by
  induction line with
  | nil => rfl
  | cons c line ih =>
      obtain ⟨hc, hline⟩ := List.ne_and_not_mem_of_not_mem_cons h
      rw [lastFeed?, ih hline]
      exact if_neg hc.symm

theorem lastFeed?_append {line : List Char} (h : '\n' ∉ line) (front : List Char) :
    lastFeed? (front ++ '\n' :: line) = some (byteCount front) := by
  induction front with
  | nil =>
      rw [List.nil_append, lastFeed?, lastFeed?_eq_none h]
      rfl
  | cons c front ih => rw [List.cons_append, lastFeed?, ih, byteCount_cons]

/-- A text has one line, or the last one begins behind its last line feed. -/
theorem last_line_cases (cs : List Char) :
    '\n' ∉ cs ∨ ∃ front line, cs = front ++ '\n' :: line ∧ '\n' ∉ line := by
  induction cs with
  | nil => exact .inl List.not_mem_nil
  | cons c cs ih =>
      rcases ih with hcs | ⟨front, line, rfl, hline⟩
      · by_cases hc : c = '\n'
        · exact .inr ⟨[], cs, by rw [hc]; rfl, hcs⟩
        · exact .inl (List.not_mem_cons_of_ne_of_not_mem (Ne.symm hc) hcs)
      · exact .inr ⟨c :: front, line, rfl, hline⟩

theorem takeWhile_reverse_line {line : List Char} (h : '\n' ∉ line) (rest : List Char)
    (hrest : ∀ c ∈ rest.head?, c = '\n') :
    ((line.reverse ++ rest).takeWhile (· != '\n')).length = line.length := by
  have hline : ∀ c ∈ line.reverse, (c != '\n') = true := by
    intro c hc
    have hne : c ≠ '\n' := fun heq => h (heq ▸ List.mem_reverse.mp hc)
    simpa using hne
  rw [List.takeWhile_append_of_pos hline]
  cases rest with
  | nil => simp
  | cons c rest =>
      cases hrest c rfl
      simp

theorem atByte?_append (before after : List Char) :
    atByte? (before ++ after) (byteCount before) = some (counted before) := by
  have hmin : min (byteCount before) (byteCount (before ++ after)) = byteCount before := by
    rw [byteCount_append]
    omega
  rw [atByte?, hmin, splitBytes?_append]
  rcases last_line_cases before with hnone | ⟨front, line, rfl, hline⟩
  · -- the only line begins with the text
    have hlength := takeWhile_reverse_line hnone [] nofun
    rw [List.append_nil] at hlength
    have hsplit : splitBytes? before 0 = some ([], before) := splitBytes?_append [] before
    simp only [lastFeed?_eq_none hnone, hsplit]
    rw [counted, hlength, Nat.add_comm 1, Nat.add_comm 1]
  · have hlength := takeWhile_reverse_line hline ('\n' :: front.reverse) (by simp)
    have hsplit : splitBytes? (front ++ '\n' :: line) (byteCount front + 1) =
        some (front ++ ['\n'], line) := by
      rw [splitBytes?_eq_some_iff]
      exact ⟨by simp, by simp; rfl⟩
    simp only [lastFeed?_append hline, hsplit]
    rw [counted, List.reverse_append, List.reverse_cons, List.append_assoc, List.singleton_append,
      hlength, Nat.add_comm 1, Nat.add_comm 1]

theorem atByte?_byteCount (source : List Char) (k : Nat) :
    atByte? source (byteCount (source.take k)) = some (ofOffset source k) := by
  have happend := atByte?_append (source.take k) (source.drop k)
  rwa [List.take_append_drop, ← ofOffset_eq] at happend

theorem atByte?_of_le {source : List Char} {offset : Nat} (h : byteCount source ≤ offset) :
    atByte? source offset = some (ofOffset source source.length) := by
  have hend := atByte?_byteCount source source.length
  rw [List.take_length] at hend
  rw [← hend, atByte?, atByte?, Nat.min_eq_right h, Nat.min_self]

theorem atByte?_before {source : String} {i j : Nat} (hi : (⟨i⟩ : String.Pos.Raw).IsValid source)
    (hj : (⟨j⟩ : String.Pos.Raw).IsValid source) (hij : i < j) :
    ∃ p q, atByte? source.toList i = some p ∧ atByte? source.toList j = some q ∧ p.Before q := by
  obtain ⟨before, after, hsource, rfl⟩ := isValid_iff.mp hi
  obtain ⟨before', after', hsource', rfl⟩ := isValid_iff.mp hj
  refine ⟨counted before, counted before', ?_, ?_, ?_⟩
  · rw [hsource, atByte?_append]
  · rw [hsource', atByte?_append]
  -- of two prefixes of one text the one with fewer bytes is a prefix of the other
  · have hprefix : before <+: source.toList := ⟨after, hsource.symm⟩
    have hprefix' : before' <+: source.toList := ⟨after', hsource'.symm⟩
    rcases List.prefix_or_prefix_of_prefix hprefix hprefix' with ⟨more, rfl⟩ | ⟨more, rfl⟩
    · refine counted_before before ?_
      rintro rfl
      simp at hij
    · rw [byteCount_append] at hij
      omega

theorem Before.irrefl (p : Position) : ¬ p.Before p := by
  unfold Before
  omega

theorem not_lt_of_atByte?_eq {source : String} {i j : Nat}
    (hi : (⟨i⟩ : String.Pos.Raw).IsValid source) (hj : (⟨j⟩ : String.Pos.Raw).IsValid source)
    (h : atByte? source.toList i = atByte? source.toList j) : ¬ i < j := by
  intro hlt
  obtain ⟨p, q, hp, hq, hbefore⟩ := atByte?_before hi hj hlt
  rw [hp, hq] at h
  cases h
  exact Before.irrefl p hbefore

theorem atByte?_injective {source : String} {i j : Nat}
    (hi : (⟨i⟩ : String.Pos.Raw).IsValid source) (hj : (⟨j⟩ : String.Pos.Raw).IsValid source)
    (h : atByte? source.toList i = atByte? source.toList j) : i = j :=
  Nat.le_antisymm (Nat.not_lt.mp (not_lt_of_atByte?_eq hj hi h.symm))
    (Nat.not_lt.mp (not_lt_of_atByte?_eq hi hj h))

theorem exists_position_of_error {settings : ParseSettings} {source : String} {e : SyntaxError}
    (h : Expr.parse settings source = .error e) :
    ∃ k, e.position = ofOffset source.toList k := by
  unfold Expr.parse at h
  split at h
  · cases h
  · cases h
    exact ⟨_, rfl⟩

/-- From one offset between characters to the next the position ascends; a text begins at line 1,
column 1, and past the end the position is that of the end.  These are the positions that are told
character by character, so that the position of a syntax error is that of one offset alone. -/
theorem positions_ascend (source : String) :
    (∀ i j, (⟨i⟩ : String.Pos.Raw).IsValid source → (⟨j⟩ : String.Pos.Raw).IsValid source → i < j →
      ∃ p q, atByte? source.toList i = some p ∧ atByte? source.toList j = some q ∧ p.Before q) ∧
    atByte? source.toList 0 = some ⟨1, 1⟩ ∧
    (∀ i, source.utf8ByteSize ≤ i →
      atByte? source.toList i = atByte? source.toList source.utf8ByteSize) ∧
    (∀ k, atByte? source.toList (byteCount (source.toList.take k)) =
      some (ofOffset source.toList k)) ∧
    ∀ settings e, Expr.parse settings source = .error e →
      ∃! i, (⟨i⟩ : String.Pos.Raw).IsValid source ∧ atByte? source.toList i = some e.position := by
  refine ⟨fun i j hi hj hij => atByte?_before hi hj hij, atByte?_byteCount source.toList 0, ?_,
    atByte?_byteCount source.toList, ?_⟩
  · intro i hi
    rw [utf8ByteSize_eq] at hi ⊢
    rw [atByte?_of_le hi, atByte?_of_le (Nat.le_refl _)]
  · intro settings e h
    obtain ⟨k, hk⟩ := exists_position_of_error h
    have hvalid : (⟨byteCount (source.toList.take k)⟩ : String.Pos.Raw).IsValid source :=
      isValid_iff.mpr ⟨_, source.toList.drop k, (List.take_append_drop ..).symm, rfl⟩
    have hat : atByte? source.toList (byteCount (source.toList.take k)) = some e.position :=
      hk ▸ atByte?_byteCount source.toList k
    refine ⟨_, ⟨hvalid, hat⟩, ?_⟩
    rintro j ⟨hj, hposition⟩
    exact atByte?_injective hj hvalid (hposition.trans hat.symm)

/-- A carriage return and a line feed, then a character of two bytes. -/
theorem positions_ascend_mixed :
    let source := "\r\né"
    (⟨1⟩ : String.Pos.Raw).IsValid source ∧ (⟨4⟩ : String.Pos.Raw).IsValid source ∧
      source.utf8ByteSize ≤ 7 ∧
      Expr.parse .standard source = .error ⟨.expectedList, ⟨2, 1⟩⟩ ∧
      (∃ p q, atByte? source.toList 1 = some p ∧ atByte? source.toList 4 = some q ∧ p.Before q) ∧
      atByte? source.toList 7 = atByte? source.toList source.utf8ByteSize ∧
      ∃! i, (⟨i⟩ : String.Pos.Raw).IsValid source ∧ atByte? source.toList i = some ⟨2, 1⟩ := by
  intro source
  have htext : source.toList = ['\r', '\n', 'é'] := by decide
  have h1 : (⟨1⟩ : String.Pos.Raw).IsValid source :=
    isValid_iff.mpr ⟨['\r'], ['\n', 'é'], htext, rfl⟩
  have h4 : (⟨4⟩ : String.Pos.Raw).IsValid source :=
    isValid_iff.mpr ⟨['\r', '\n', 'é'], [], htext, rfl⟩
  have hsize : source.utf8ByteSize ≤ 7 := by decide
  have hparse : Expr.parse .standard source = .error ⟨.expectedList, ⟨2, 1⟩⟩ := by
    rw [Expr.parse, htext]
    rfl
  obtain ⟨hascend, -, hpast, -, herror⟩ := positions_ascend source
  exact ⟨h1, h4, hsize, hparse, hascend 1 4 h1 h4 (by decide), hpast 7 hsize,
    herror .standard _ hparse⟩

end SExprViewer.Position
