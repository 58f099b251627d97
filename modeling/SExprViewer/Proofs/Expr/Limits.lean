import SExprViewer.Proofs.Expr.Faults
import SExprViewer.Proofs.Expr.Grammar
import SExprViewer.Proofs.Expr.Sublists

/-! # Higher and lower limits

Under a lower limit a scan finds what it finds under a higher one, unless a list opens too deep
before (`cutShort_faultFrom`).  So an answer other than that is the answer under every higher
limit, and an accepted expression is accepted under the limits that it keeps and no others
(`parse_limits`). -/
set_option autoImplicit false

namespace SExprViewer.Expr

/-! ## What a scan finds -/

theorem le_of_faultFrom {limit place : Nat} {fault : SyntaxFault} (opened offset : Nat)
    (cs : List Char) (h : faultFrom limit opened offset cs = some (fault, place)) :
    offset ≤ place := by
  fun_induction faultFrom limit opened offset cs with
  | case1 => cases h
  | case2 => cases h; exact Nat.le_refl _
  | case3 => cases h; exact Nat.le_refl _
  | case4 opened offset rest _ ih => exact Nat.le_of_succ_le (ih h)
  | case5 opened offset rest _ ih => exact Nat.le_of_succ_le (ih h)
  | case6 opened offset c rest _ _ _ _ ih => have hle := ih h; omega
  | case7 => cases h; exact Nat.le_refl _
  | case8 opened offset c rest _ _ _ ih => exact Nat.le_of_succ_le (ih h)

/-- What is found under `limit` where `found'` is found under a higher one: the same, or a list
that opens too deep, and then no later than `found'` has one. -/
def CutShort (limit : Nat) (found found' : Option (SyntaxFault × Nat)) : Prop :=
  (found' = found ∧ ∀ n place, found ≠ some (.tooDeep n, place)) ∨
  ∃ place, found = some (.tooDeep limit, place) ∧
    ∀ n place', found' = some (.tooDeep n, place') → place ≤ place'

theorem cutShort_none (limit : Nat) : CutShort limit none none :=
  .inl ⟨rfl, fun _ _ heq => by cases heq⟩

theorem cutShort_of_ne {limit place : Nat} {fault : SyntaxFault}
    (h : ∀ n, fault ≠ .tooDeep n) :
    CutShort limit (some (fault, place)) (some (fault, place)) := by
  refine .inl ⟨rfl, fun n place' heq => h n ?_⟩
  cases heq
  rfl

theorem cutShort_faultFrom {limit limit' : Nat} (h : limit ≤ limit') (opened offset : Nat)
    (cs : List Char) :
    CutShort limit (faultFrom limit opened offset cs) (faultFrom limit' opened offset cs) := by
  fun_induction faultFrom limit opened offset cs with
  | case1 =>
      rw [faultFrom]
      exact cutShort_none limit
  | case2 opened offset =>
      rw [faultFrom]
      exact cutShort_of_ne fun _ heq => by cases heq
  | case3 opened offset rest hd =>
      exact .inr ⟨offset, rfl, fun n place' hfound => le_of_faultFrom _ _ _ hfound⟩
  | case4 opened offset rest hd ih =>
      rw [faultFrom_open, if_neg (by omega)]
      exact ih
  | case5 opened offset rest _ ih =>
      rw [faultFrom_close]
      exact ih
  | case6 opened offset c rest _ _ hq hmem ih =>
      rw [faultFrom_quote hq, if_pos hmem]
      exact ih
  | case7 opened offset c rest _ _ hq hmem =>
      rw [faultFrom_unterminated hq hmem]
      exact cutShort_of_ne fun _ heq => by cases heq
  | case8 opened offset c rest hopen hclose hq ih =>
      rw [faultFrom_other hopen hclose (by simpa using hq)]
      exact ih

theorem cutShort_firstFault {limit limit' : Nat} (h : limit ≤ limit') (source : List Char) :
    CutShort limit (firstFault limit source) (firstFault limit' source) := by
  rcases source_cases source with hw | ⟨w, rest, rfl, hw⟩ | ⟨w, c, rest, rfl, hw, hwhite, hopen⟩
  · rw [firstFault_blank hw, firstFault_blank hw]
    exact cutShort_of_ne fun _ heq => by cases heq
  · rw [firstFault_behind hw (by decide), firstFault_behind hw (by decide), if_pos rfl, if_pos rfl]
    by_cases hlimit : limit = 0
    · subst hlimit
      refine .inr ⟨w.length, if_pos rfl, fun n place' hfound => ?_⟩
      split at hfound
      · cases hfound
        exact Nat.le_refl _
      · exact Nat.le_of_succ_le (le_of_faultFrom _ _ _ hfound)
    · rw [if_neg hlimit, if_neg (by omega)]
      exact cutShort_faultFrom h 1 (w.length + 1) rest
  · rw [firstFault_behind hw hwhite, firstFault_behind hw hwhite, if_neg hopen, if_neg hopen]
    split
    · exact cutShort_of_ne fun _ heq => by cases heq
    · exact cutShort_of_ne fun _ heq => by cases heq

/-! ## What is answered -/

section Answers
variable {settings settings' : ParseSettings} {source : String}

theorem depth_le_of_parse {e : Expr} (h : parse settings source = .ok e) :
    e.depth ≤ settings.maxDepth := by
  obtain ⟨last, hread⟩ := parse_eq_ok_iff.mp h
  obtain ⟨_, _, _, _, _, hd⟩ := readSource_eq_ok_iff.mp hread
  exact hd

theorem isList_of_parse {e : Expr} (h : parse settings source = .ok e) : e.isList = true := by
  obtain ⟨last, hread⟩ := parse_eq_ok_iff.mp h
  obtain ⟨_, _, _, _, ⟨_, _, _, rfl, _⟩, _⟩ := readSource_eq_ok_iff.mp hread
  rfl

/-- The limit matters to an accepted expression by its depth alone. -/
theorem parse_of_depth_le {e : Expr} (h : parse settings source = .ok e)
    (hd : e.depth ≤ settings'.maxDepth) : parse settings' source = .ok e := by
  obtain ⟨last, hread⟩ := parse_eq_ok_iff.mp h
  obtain ⟨w, l, hsource, hw, hl, _⟩ := readSource_eq_ok_iff.mp hread
  exact parse_eq_ok_iff.mpr ⟨last, readSource_eq_ok_iff.mpr ⟨w, l, hsource, hw, hl, hd⟩⟩

theorem parse_ok_of_le (h : settings.maxDepth ≤ settings'.maxDepth) {e : Expr}
    (he : parse settings source = .ok e) : parse settings' source = .ok e :=
  parse_of_depth_le he (Nat.le_trans (depth_le_of_parse he) h)

theorem parse_error_of_le (h : settings.maxDepth ≤ settings'.maxDepth) {err : SyntaxError}
    (herr : parse settings source = .error err) :
    parse settings' source = .error err ∨ err.fault = .tooDeep settings.maxDepth := by
  obtain ⟨offset, hfound, hposition⟩ := parse_eq_error_iff.mp herr
  rcases cutShort_firstFault h source.toList with ⟨hsame, _⟩ | ⟨place, hcut, _⟩
  · exact .inl (parse_eq_error_iff.mpr ⟨offset, hsame.trans hfound, hposition⟩)
  · exact .inr (congrArg Prod.fst (Option.some.inj (hfound.symm.trans hcut)))

theorem parse_tooDeep_of_le (h : settings.maxDepth ≤ settings'.maxDepth) {n : Nat}
    {position' : Position} (herr : parse settings' source = .error ⟨.tooDeep n, position'⟩) :
    ∃ position, parse settings source = .error ⟨.tooDeep settings.maxDepth, position⟩ ∧
      (position = position' ∨ position.Before position') := by
  obtain ⟨offset', hfound', rfl⟩ := parse_eq_error_iff.mp herr
  rcases cutShort_firstFault h source.toList with ⟨hsame, hne⟩ | ⟨offset, hcut, hle⟩
  · exact absurd (hsame.symm.trans hfound') (hne _ _)
  · refine ⟨_, parse_eq_error_iff.mpr ⟨offset, hcut, rfl⟩, ?_⟩
    exact Position.counted_take_le source.toList (hle n offset' hfound')

end Answers

/-- Under a higher limit every answer stays, but for a list that nests too deep.  Under a lower one
an expression that is deeper is refused for it, and what nested too deep does so no later.  What is
accepted keeps the limit, and so do the paths into it. -/
theorem parse_limits {settings settings' : ParseSettings}
    (h : settings.maxDepth ≤ settings'.maxDepth) (source : String) :
    ((∀ n position, parse settings source ≠ .error ⟨.tooDeep n, position⟩) →
      parse settings' source = parse settings source) ∧
    (∀ e, parse settings' source = .ok e →
      if e.depth ≤ settings.maxDepth then parse settings source = .ok e
      else ∃ position, parse settings source = .error ⟨.tooDeep settings.maxDepth, position⟩) ∧
    (∀ n position', parse settings' source = .error ⟨.tooDeep n, position'⟩ →
      ∃ position, parse settings source = .error ⟨.tooDeep settings.maxDepth, position⟩ ∧
        (position = position' ∨ position.Before position')) ∧
    (∀ e, parse settings source = .ok e → e.depth ≤ settings.maxDepth ∧
      ∀ path sub, e.listAt? path = some sub → path.length < settings.maxDepth) := by
  refine ⟨fun hne => ?_, fun e he => ?_, fun n position' => parse_tooDeep_of_le h, fun e he => ?_⟩
  · cases hparse : parse settings source with
    | ok e => exact parse_ok_of_le h hparse
    | error err =>
        obtain ⟨fault, position⟩ := err
        rcases parse_error_of_le h hparse with hsame | rfl
        · exact hsame
        · exact absurd hparse (hne _ position)
  · split
    · rename_i hd
      exact parse_of_depth_le he hd
    · rename_i hd
      cases hparse : parse settings source with
      | ok e' =>
          -- raised again it is the same expression, which is too deep
          cases (parse_ok_of_le h hparse).symm.trans he
          exact absurd (depth_le_of_parse hparse) hd
      | error err =>
          obtain ⟨fault, position⟩ := err
          rcases parse_error_of_le h hparse with hsame | rfl
          · cases hsame.symm.trans he
          · exact ⟨position, rfl⟩
  · have hd := depth_le_of_parse he
    exact ⟨hd, fun path sub hsub =>
      Nat.lt_of_lt_of_le (length_lt_of_listAt? path (isList_of_parse he) hsub) hd⟩

/-- A list in a list, which one level is not enough for. -/
theorem parse_limits_nested :
    (⟨1⟩ : ParseSettings).maxDepth ≤ (⟨2⟩ : ParseSettings).maxDepth ∧
      parse ⟨2⟩ "(())" = .ok (.list [.list []]) ∧
      ∃ position, parse ⟨1⟩ "(())" = .error ⟨.tooDeep 1, position⟩ := by
  have hitems : IsItems ['(', ')', ')'] [.list []] :=
    @IsItems.list [] [')'] [')'] [] [] blank_nil (.close blank_nil) (.close blank_nil)
  have hparse : parse ⟨2⟩ "(())" = .ok (.list [.list []]) :=
    parse_eq_ok_iff.mpr ⟨[], readSource_eq_ok_iff.mpr
      ⟨[], '(' :: ['(', ')', ')'], rfl, blank_nil, ⟨_, _, rfl, rfl, hitems⟩, by decide⟩⟩
  have hle : (⟨1⟩ : ParseSettings).maxDepth ≤ (⟨2⟩ : ParseSettings).maxDepth := by decide
  have hlow := (parse_limits hle "(())").2.1 _ hparse
  rw [if_neg (by decide)] at hlow
  exact ⟨hle, hparse, hlow⟩

end SExprViewer.Expr
