import SExprViewer.Proofs.Json.Reading
import SExprViewer.Proofs.Json.Tokens

/-! # What a JSON text denotes

`Denotes cs d` is the grammar of standard JSON: `cs` is a text of the datum `d`, with blanks before
and behind it.  It is written without the reader of values, and a number in it is the exact decimal
that the text spells.  The grammar is unambiguous (`Denotes.unique`): however a text is taken apart,
it denotes one datum. -/
set_option autoImplicit false

namespace SExprViewer.Json

/-- What a text denotes.  An object keeps its members in the order of the text. -/
inductive Datum where
  | null
  | bool (b : Bool)
  | number (value : Decimal)
  | string (s : String)
  | array (items : List Datum)
  | object (members : List (String × Datum))

def Blanks (cs : List Char) : Prop := ∀ c ∈ cs, isBlank c = true

/-- A text with blanks before and behind it. -/
def Padded (core cs : List Char) : Prop :=
  ∃ before behind, Blanks before ∧ Blanks behind ∧ cs = before ++ (core ++ behind)

/-- What stands behind a text in a list: more texts, each with a comma before it, and the closing
character. -/
def behind (close : Char) : List (List Char) → List Char
  | [] => [close]
  | cs :: rest => ',' :: (cs ++ behind close rest)

/-- Texts with a comma between them and a closing character behind them. -/
def joined (close : Char) : List (List Char) → List Char
  | [] => [close]
  | cs :: rest => cs ++ behind close rest

/-- A member of an object, its name and its value each with its text. -/
structure Member where
  nameText : List Char
  name : String
  text : List Char
  value : Datum

def Member.wholeText (m : Member) : List Char := m.nameText ++ ':' :: m.text

/-- The three words and what they stand for. -/
def words : List (List Char × Datum) :=
  [(['n', 'u', 'l', 'l'], .null), (['t', 'r', 'u', 'e'], .bool true),
    (['f', 'a', 'l', 's', 'e'], .bool false)]

inductive IsScalar : List Char → Datum → Prop
  | word {w : List Char × Datum} (h : w ∈ words) : IsScalar w.1 w.2
  | number {cs : List Char} {d : Decimal} (h : IsNumber cs d) : IsScalar cs (.number d)
  | string {cs : List Char} {s : String} (h : IsString cs s) : IsScalar cs (.string s)

def IsName (cs : List Char) (name : String) : Prop := ∃ core, IsString core name ∧ Padded core cs

inductive Denotes : List Char → Datum → Prop
  | scalar {core cs : List Char} {d : Datum} (h : IsScalar core d) (hcs : Padded core cs) :
      Denotes cs d
  | array {gap cs : List Char} {items : List (List Char × Datum)} (hgap : Blanks gap)
      (h : ∀ i ∈ items, Denotes i.1 i.2)
      (hcs : Padded ('[' :: (gap ++ joined ']' (items.map (·.1)))) cs) :
      Denotes cs (.array (items.map (·.2)))
  | object {gap cs : List Char} {members : List Member} (hgap : Blanks gap)
      (hname : ∀ m ∈ members, IsName m.nameText m.name)
      (h : ∀ m ∈ members, Denotes m.text m.value)
      (hcs : Padded ('\x7b' :: (gap ++ joined '\x7d' (members.map Member.wholeText))) cs) :
      Denotes cs (.object (members.map fun m => (m.name, m.value)))

/-! ## Blanks -/

def Starts (cs : List Char) : Prop := ∃ c rest, cs = c :: rest ∧ isBlank c = false

/-- What may follow a value in a list, and the end of the text. -/
def Ends (tail : List Char) : Prop := ∀ c ∈ tail.head?, c = ',' ∨ c = ']' ∨ c = '\x7d'

theorem skipBlank_append {gap : List Char} (hgap : Blanks gap) (rest : List Char) :
    skipBlank (gap ++ rest) = skipBlank rest := List.dropWhile_append_of_pos hgap

theorem skipBlank_of_head {cs : List Char} (h : ∀ c ∈ cs.head?, isBlank c = false) :
    skipBlank cs = cs := by
  cases cs with
  | nil => rfl
  | cons c cs => exact skipBlank_cons (h c rfl) cs

theorem Ends.head {tail : List Char} (h : Ends tail) :
    ∀ c ∈ tail.head?, isBlank c = false ∧ c.isDigit = false ∧ c ≠ '.' ∧ c ≠ 'e' ∧ c ≠ 'E' := by
  intro c hc
  rcases h c hc with rfl | rfl | rfl <;> decide

theorem Ends.skipBlank_eq {tail : List Char} (h : Ends tail) {gap : List Char}
    (hgap : Blanks gap) : skipBlank (gap ++ tail) = tail := by
  rw [skipBlank_append hgap, skipBlank_of_head fun c hc => (h.head c hc).1]

/-- No number goes on with blanks or what may follow a value. -/
theorem Ends.delimits {tail : List Char} (h : Ends tail) {gap : List Char} (hgap : Blanks gap) :
    Delimits (gap ++ tail) := by
  intro c hc
  cases gap with
  | nil => exact (h.head c hc).2
  | cons b gap =>
      obtain rfl : b = c := Option.some.inj hc
      have hb := hgap b List.mem_cons_self
      simp only [isBlank, Bool.or_eq_true, decide_eq_true_eq] at hb
      rcases hb with ((rfl | rfl) | rfl) | rfl <;> decide

theorem Padded.skipBlank_eq {core cs : List Char} (h : Padded core cs) (hcore : Starts core)
    (tail : List Char) : ∃ gap, Blanks gap ∧ skipBlank (cs ++ tail) = core ++ (gap ++ tail) := by
  obtain ⟨before, gap, hbefore, hgap, rfl⟩ := h
  obtain ⟨c, rest, rfl, hc⟩ := hcore
  refine ⟨gap, hgap, ?_⟩
  rw [List.append_assoc, skipBlank_append hbefore, List.append_assoc]
  exact skipBlank_cons hc _

theorem padded_self (core : List Char) : Padded core core :=
  ⟨[], [], nofun, nofun, (List.append_nil core).symm⟩

/-! ## Scalars -/

theorem exists_of_mem_words {w : List Char × Datum} (h : w ∈ words) :
    ∃ c rest, w.1 = c :: rest ∧ (c = 'n' ∨ c = 't' ∨ c = 'f') := by
  simp only [words, List.mem_cons, List.not_mem_nil, or_false] at h
  rcases h with rfl | rfl | rfl <;> exact ⟨_, _, rfl, by decide⟩

theorem words_unique {w w' : List Char × Datum} {tail tail' : List Char} (h : w ∈ words)
    (h' : w' ∈ words) (heq : w.1 ++ tail = w'.1 ++ tail') : w.2 = w'.2 ∧ tail = tail' := by
  simp only [words, List.mem_cons, List.not_mem_nil, or_false] at h h'
  rcases h with rfl | rfl | rfl <;> rcases h' with rfl | rfl | rfl <;> simp at heq ⊢ <;> exact heq

theorem IsScalar.head {cs : List Char} {d : Datum} (h : IsScalar cs d) :
    ∃ c rest, cs = c :: rest ∧ isBlank c = false ∧
      c ≠ '[' ∧ c ≠ '\x7b' ∧ c ≠ ']' ∧ c ≠ '\x7d' := by
  cases h with
  | word h =>
      obtain ⟨c, rest, heq, hc⟩ := exists_of_mem_words h
      exact ⟨c, rest, heq, by rcases hc with rfl | rfl | rfl <;> decide⟩
  | number h =>
      obtain ⟨c, rest, rfl, hc⟩ := h.head
      have hne : ∀ {x : Char}, x ≠ '-' → x.isDigit = false → c ≠ x := by
        rintro x hx hdigit rfl
        rcases hc with rfl | hc
        · exact hx rfl
        · cases hdigit.symm.trans hc
      refine ⟨c, rest, rfl, ?_⟩
      simp [isBlank, hne]
  | string h =>
      obtain ⟨body, -, rfl⟩ := h
      exact ⟨_, _, rfl, by decide⟩

theorem IsScalar.unique {cs cs' tail tail' : List Char} {d d' : Datum} (h : IsScalar cs d)
    (h' : IsScalar cs' d') (htail : Delimits tail) (htail' : Delimits tail')
    (heq : cs ++ tail = cs' ++ tail') : d = d' ∧ tail = tail' := by
  -- a word, a number and a string begin differently
  have hword : ∀ {w : List Char × Datum} {tail rest : List Char} {x : Char}, w ∈ words →
      w.1 ++ tail = x :: rest → x = 'n' ∨ x = 't' ∨ x = 'f' := by
    intro w tail rest x hw heq
    obtain ⟨c, rest', hc, hcases⟩ := exists_of_mem_words hw
    rw [hc] at heq
    rwa [(List.cons.inj heq).1] at hcases
  have hnumber : ∀ {cs tail rest : List Char} {d : Decimal} {x : Char}, IsNumber cs d →
      cs ++ tail = x :: rest → x = '-' ∨ x.isDigit = true := by
    intro cs tail rest d x h heq
    obtain ⟨c, rest', rfl, hc⟩ := h.head
    rwa [(List.cons.inj heq).1] at hc
  have hdisjoint : ∀ {x : Char}, x = 'n' ∨ x = 't' ∨ x = 'f' →
      ¬ (x = '-' ∨ x.isDigit = true) := by
    rintro x (rfl | rfl | rfl) <;> decide
  cases h with
  | word h =>
      cases h' with
      | word h' => exact words_unique h h' heq
      | number h' =>
          obtain ⟨c, rest, rfl, hc⟩ := h'.head
          exact absurd hc (hdisjoint (hword h heq))
      | string h' =>
          obtain ⟨body, -, rfl⟩ := h'
          exact absurd (hword h heq) (by decide)
  | number h =>
      cases h' with
      | word h' =>
          obtain ⟨c, rest, rfl, hc⟩ := h.head
          exact absurd hc (hdisjoint (hword h' heq.symm))
      | number h' =>
          obtain ⟨rfl, rfl⟩ := h.unique h' htail htail' heq
          exact ⟨rfl, rfl⟩
      | string h' =>
          obtain ⟨body, -, rfl⟩ := h'
          exact absurd (hnumber h heq) (by decide)
  | string h =>
      cases h' with
      | word h' =>
          obtain ⟨body, -, rfl⟩ := h
          exact absurd (hword h' heq.symm) (by decide)
      | number h' =>
          obtain ⟨body, -, rfl⟩ := h
          exact absurd (hnumber h' heq.symm) (by decide)
      | string h' =>
          obtain ⟨rfl, rfl⟩ := h.unique h' heq
          exact ⟨rfl, rfl⟩

/-! ## Lists -/

section Lists
variable {α β : Type} {close : Char} {text : β → List Char} {value : β → α} {Valid : β → Prop}

theorem ends_behind (hclose : close = ']' ∨ close = '\x7d') (texts : List (List Char))
    (tail : List Char) : Ends (behind close texts ++ tail) := by
  intro c hc
  cases texts with
  | nil =>
      cases hc
      exact .inr hclose
  | cons cs texts =>
      cases hc
      exact .inl rfl

/-- Whatever valid thing a text is taken for, it has this value and ends here. -/
def Determines (text : β → List Char) (value : β → α) (Valid : β → Prop) (b : β) : Prop :=
  ∀ (b' : β) {tail tail' : List Char}, Valid b' → Ends tail → Ends tail' →
    skipBlank (text b ++ tail) = skipBlank (text b' ++ tail') → value b = value b' ∧ tail = tail'

theorem behind_unique (hclose : close = ']' ∨ close = '\x7d') {items : List β} :
    ∀ {items' : List β} {tail tail' : List Char},
      (∀ b ∈ items, Determines text value Valid b) → (∀ b ∈ items', Valid b) →
      behind close (items.map text) ++ tail = behind close (items'.map text) ++ tail' →
      items.map value = items'.map value ∧ tail = tail' := by
  have hcomma : close ≠ ',' := by rcases hclose with rfl | rfl <;> decide
  induction items with
  | nil =>
      intro items' tail tail' _ _ heq
      cases items' with
      | nil => exact ⟨rfl, (List.cons.inj heq).2⟩
      | cons b' items' => exact absurd (List.cons.inj heq).1 hcomma
  | cons b items ih =>
      intro items' tail tail' h h' heq
      cases items' with
      | nil => exact absurd (List.cons.inj heq).1.symm hcomma
      | cons b' items' =>
          simp only [List.map_cons, behind, List.cons_append, List.append_assoc] at heq
          obtain ⟨hvalue, hrest⟩ := h b List.mem_cons_self b' (h' b' List.mem_cons_self)
            (ends_behind hclose _ _) (ends_behind hclose _ _)
            (congrArg skipBlank (List.cons.inj heq).2)
          obtain ⟨hvalues, rfl⟩ := ih (fun b hb => h b (List.mem_cons_of_mem _ hb))
            (fun b hb => h' b (List.mem_cons_of_mem _ hb)) hrest
          exact ⟨by rw [List.map_cons, List.map_cons, hvalue, hvalues], rfl⟩

/-- A list is taken apart in one way, if no item begins with the closing character. -/
theorem joined_unique (hclose : close = ']' ∨ close = '\x7d')
    (hhead : ∀ b, Valid b → ∀ tail, ∃ c rest, skipBlank (text b ++ tail) = c :: rest ∧ c ≠ close)
    {items items' : List β} {tail tail' : List Char} (hvalid : ∀ b ∈ items, Valid b)
    (h : ∀ b ∈ items, Determines text value Valid b) (h' : ∀ b ∈ items', Valid b)
    (heq : skipBlank (joined close (items.map text) ++ tail) =
      skipBlank (joined close (items'.map text) ++ tail')) :
    items.map value = items'.map value ∧ tail = tail' := by
  have hempty : ∀ {b : β} {rest tail : List Char}, Valid b →
      skipBlank (close :: tail) ≠ skipBlank (text b ++ rest) := by
    intro b rest tail hb heq
    obtain ⟨c, rest', hskip, hc⟩ := hhead b hb rest
    have hends : Ends (close :: tail) := ends_behind hclose [] tail
    rw [hskip, skipBlank_of_head fun d hd => (hends.head d hd).1] at heq
    exact hc (List.cons.inj heq).1.symm
  cases items with
  | nil =>
      cases items' with
      | nil =>
          have hends : ∀ tail, Ends (close :: tail) := ends_behind hclose []
          have hskip : ∀ tail, skipBlank (close :: tail) = close :: tail := fun tail =>
            skipBlank_of_head fun d hd => ((hends tail).head d hd).1
          rw [List.map_nil, joined, List.singleton_append, List.singleton_append, hskip, hskip]
            at heq
          exact ⟨rfl, (List.cons.inj heq).2⟩
      | cons b' items' =>
          rw [List.map_cons, joined, List.append_assoc] at heq
          exact absurd heq (hempty (h' b' List.mem_cons_self))
  | cons b items =>
      cases items' with
      | nil =>
          rw [List.map_cons, joined, List.append_assoc] at heq
          exact absurd heq.symm (hempty (hvalid b List.mem_cons_self))
      | cons b' items' =>
          rw [List.map_cons, List.map_cons, joined, joined, List.append_assoc,
            List.append_assoc] at heq
          obtain ⟨hvalue, hrest⟩ := h b List.mem_cons_self b' (h' b' List.mem_cons_self)
            (ends_behind hclose _ _) (ends_behind hclose _ _) heq
          obtain ⟨hvalues, rfl⟩ := behind_unique hclose
            (fun b hb => h b (List.mem_cons_of_mem _ hb))
            (fun b hb => h' b (List.mem_cons_of_mem _ hb)) hrest
          exact ⟨by rw [List.map_cons, List.map_cons, hvalue, hvalues], rfl⟩

end Lists

/-! ## Data -/

/-- What follows a value in a list is found behind blanks. -/
theorem Ends.unique {gap gap' tail tail' : List Char} (h : Ends tail) (h' : Ends tail')
    (hgap : Blanks gap) (hgap' : Blanks gap') (heq : gap ++ tail = gap' ++ tail') :
    tail = tail' := by
  rw [← h.skipBlank_eq hgap, heq, h'.skipBlank_eq hgap']

theorem IsScalar.starts {cs : List Char} {d : Datum} (h : IsScalar cs d) : Starts cs := by
  obtain ⟨c, rest, rfl, hc, -⟩ := h.head
  exact ⟨c, rest, rfl, hc⟩

theorem Denotes.head {cs : List Char} {d : Datum} (h : Denotes cs d) (tail : List Char) :
    ∃ c rest, skipBlank (cs ++ tail) = c :: rest ∧ c ≠ ']' ∧ c ≠ '\x7d' := by
  cases h with
  | scalar h hcs =>
      obtain ⟨gap, -, hskip⟩ := hcs.skipBlank_eq h.starts tail
      obtain ⟨c, rest, rfl, -, -, -, hc⟩ := h.head
      exact ⟨c, _, hskip, hc⟩
  | array _ _ hcs =>
      obtain ⟨gap, -, hskip⟩ := hcs.skipBlank_eq ⟨'[', _, rfl, rfl⟩ tail
      exact ⟨'[', _, hskip, by decide⟩
  | object _ _ _ hcs =>
      obtain ⟨gap, -, hskip⟩ := hcs.skipBlank_eq ⟨'\x7b', _, rfl, rfl⟩ tail
      exact ⟨'\x7b', _, hskip, by decide⟩

theorem IsString.starts {cs : List Char} {s : String} (h : IsString cs s) : Starts cs := by
  obtain ⟨body, -, rfl⟩ := h
  exact ⟨'"', _, rfl, rfl⟩

/-- A name and what stands behind its colon are told apart. -/
theorem IsName.unique {cs cs' tail tail' : List Char} {name name' : String} (h : IsName cs name)
    (h' : IsName cs' name')
    (heq : skipBlank (cs ++ ':' :: tail) = skipBlank (cs' ++ ':' :: tail')) :
    name = name' ∧ tail = tail' := by
  obtain ⟨core, hcore, hcs⟩ := h
  obtain ⟨core', hcore', hcs'⟩ := h'
  obtain ⟨gap, hgap, hskip⟩ := hcs.skipBlank_eq hcore.starts (':' :: tail)
  obtain ⟨gap', hgap', hskip'⟩ := hcs'.skipBlank_eq hcore'.starts (':' :: tail')
  rw [hskip, hskip'] at heq
  obtain ⟨rfl, hrest⟩ := hcore.unique hcore' heq
  have hcolon : ∀ {gap tail : List Char}, Blanks gap →
      skipBlank (gap ++ ':' :: tail) = ':' :: tail := by
    intro gap tail hgap
    rw [skipBlank_append hgap]
    exact skipBlank_cons rfl tail
  have hskipped := congrArg skipBlank hrest
  rw [hcolon hgap, hcolon hgap'] at hskipped
  exact ⟨rfl, (List.cons.inj hskipped).2⟩

def Member.Valid (m : Member) : Prop := IsName m.nameText m.name ∧ Denotes m.text m.value

theorem Member.Valid.head {m : Member} (h : m.Valid) (tail : List Char) :
    ∃ c rest, skipBlank (m.wholeText ++ tail) = c :: rest ∧ c ≠ '\x7d' := by
  obtain ⟨core, ⟨body, -, rfl⟩, hcs⟩ := h.1
  obtain ⟨gap, -, hskip⟩ := hcs.skipBlank_eq ⟨'"', _, rfl, rfl⟩ (':' :: m.text ++ tail)
  rw [Member.wholeText, List.append_assoc]
  exact ⟨'"', _, hskip, by decide⟩

/-- A text denotes one datum, and what may follow it is told from it. -/
def Determined (cs : List Char) (d : Datum) : Prop :=
  Determines (·.1) (·.2) (fun p : List Char × Datum => Denotes p.1 p.2) (cs, d)

theorem determined_scalar {core cs : List Char} {d : Datum} (h : IsScalar core d)
    (hcs : Padded core cs) : Determined cs d := by
  rintro ⟨cs', d'⟩ tail tail' h' htail htail' heq
  obtain ⟨c, rest, hc, -, hbracket, hbrace, -⟩ := h.head
  obtain ⟨gap, hgap, hskip⟩ := hcs.skipBlank_eq h.starts tail
  rw [hskip] at heq
  cases h' with
  | scalar h' hcs' =>
      obtain ⟨gap', hgap', hskip'⟩ := hcs'.skipBlank_eq h'.starts tail'
      rw [hskip'] at heq
      obtain ⟨rfl, hrest⟩ := h.unique h' (htail.delimits hgap) (htail'.delimits hgap') heq
      exact ⟨rfl, htail.unique htail' hgap hgap' hrest⟩
  | array _ _ hcs' =>
      obtain ⟨gap', -, hskip'⟩ := hcs'.skipBlank_eq ⟨'[', _, rfl, rfl⟩ tail'
      rw [hskip', hc] at heq
      exact absurd (List.cons.inj heq).1 hbracket
  | object _ _ _ hcs' =>
      obtain ⟨gap', -, hskip'⟩ := hcs'.skipBlank_eq ⟨'\x7b', _, rfl, rfl⟩ tail'
      rw [hskip', hc] at heq
      exact absurd (List.cons.inj heq).1 hbrace

theorem determined_array {gap cs : List Char} {items : List (List Char × Datum)}
    (hgap : Blanks gap) (hitems : ∀ i ∈ items, Denotes i.1 i.2)
    (h : ∀ i ∈ items, Determined i.1 i.2)
    (hcs : Padded ('[' :: (gap ++ joined ']' (items.map (·.1)))) cs) :
    Determined cs (.array (items.map (·.2))) := by
  rintro ⟨cs', d'⟩ tail tail' h' htail htail' heq
  obtain ⟨blanks, hblanks, hskip⟩ := hcs.skipBlank_eq ⟨'[', _, rfl, rfl⟩ tail
  rw [hskip] at heq
  cases h' with
  | scalar h' hcs' =>
      obtain ⟨blanks', -, hskip'⟩ := hcs'.skipBlank_eq h'.starts tail'
      obtain ⟨c, rest, rfl, -, hbracket, -⟩ := h'.head
      rw [hskip'] at heq
      exact absurd (List.cons.inj heq).1.symm hbracket
  | array hgap' hitems' hcs' =>
      obtain ⟨blanks', hblanks', hskip'⟩ := hcs'.skipBlank_eq ⟨'[', _, rfl, rfl⟩ tail'
      rw [hskip'] at heq
      have hbody := congrArg skipBlank (List.cons.inj heq).2
      simp only [List.append_eq, List.append_assoc, skipBlank_append hgap,
        skipBlank_append hgap'] at hbody
      obtain ⟨hvalues, hrest⟩ := joined_unique (.inl rfl)
        (fun p hp tail => (hp.head tail).imp fun c hc => hc.imp fun _ hc => ⟨hc.1, hc.2.1⟩)
        hitems h hitems' hbody
      exact ⟨congrArg Datum.array hvalues, htail.unique htail' hblanks hblanks' hrest⟩
  | object _ _ _ hcs' =>
      obtain ⟨blanks', -, hskip'⟩ := hcs'.skipBlank_eq ⟨'\x7b', _, rfl, rfl⟩ tail'
      rw [hskip'] at heq
      exact absurd (List.cons.inj heq).1 (by decide)

theorem determines_member {m : Member} (hname : IsName m.nameText m.name)
    (h : Determined m.text m.value) :
    Determines Member.wholeText (fun m => (m.name, m.value)) Member.Valid m := by
  intro m' tail tail' hm' htail htail' heq
  simp only [Member.wholeText, List.append_assoc] at heq
  obtain ⟨heqName, hrest⟩ := hname.unique hm'.1 heq
  obtain ⟨hvalue, rfl⟩ := h (m'.text, m'.value) hm'.2 htail htail' (congrArg skipBlank hrest)
  exact ⟨Prod.ext heqName hvalue, rfl⟩

theorem determined_object {gap cs : List Char} {members : List Member} (hgap : Blanks gap)
    (hmembers : ∀ m ∈ members, m.Valid) (h : ∀ m ∈ members, Determined m.text m.value)
    (hcs : Padded ('\x7b' :: (gap ++ joined '\x7d' (members.map Member.wholeText))) cs) :
    Determined cs (.object (members.map fun m => (m.name, m.value))) := by
  rintro ⟨cs', d'⟩ tail tail' h' htail htail' heq
  obtain ⟨blanks, hblanks, hskip⟩ := hcs.skipBlank_eq ⟨'\x7b', _, rfl, rfl⟩ tail
  rw [hskip] at heq
  cases h' with
  | scalar h' hcs' =>
      obtain ⟨blanks', -, hskip'⟩ := hcs'.skipBlank_eq h'.starts tail'
      obtain ⟨c, rest, rfl, -, -, hbrace, -⟩ := h'.head
      rw [hskip'] at heq
      exact absurd (List.cons.inj heq).1.symm hbrace
  | array _ _ hcs' =>
      obtain ⟨blanks', -, hskip'⟩ := hcs'.skipBlank_eq ⟨'[', _, rfl, rfl⟩ tail'
      rw [hskip'] at heq
      exact absurd (List.cons.inj heq).1 (by decide)
  | object hgap' hnames' hvalues' hcs' =>
      obtain ⟨blanks', hblanks', hskip'⟩ := hcs'.skipBlank_eq ⟨'\x7b', _, rfl, rfl⟩ tail'
      rw [hskip'] at heq
      have hbody := congrArg skipBlank (List.cons.inj heq).2
      simp only [List.append_eq, List.append_assoc, skipBlank_append hgap,
        skipBlank_append hgap'] at hbody
      obtain ⟨hvalues, hrest⟩ := joined_unique (.inr rfl) (fun m hm => hm.head) hmembers
        (fun m hm => determines_member (hmembers m hm).1 (h m hm))
        (fun m hm => ⟨hnames' m hm, hvalues' m hm⟩) hbody
      exact ⟨congrArg Datum.object hvalues, htail.unique htail' hblanks hblanks' hrest⟩

theorem Denotes.determined {cs : List Char} {d : Datum} (h : Denotes cs d) : Determined cs d := by
  induction h with
  | scalar h hcs => exact determined_scalar h hcs
  | array hgap hitems hcs ih => exact determined_array hgap hitems ih hcs
  | object hgap hnames hvalues hcs ih =>
      exact determined_object hgap (fun m hm => ⟨hnames m hm, hvalues m hm⟩) ih hcs

theorem Denotes.unique {cs : List Char} {d d' : Datum} (h : Denotes cs d) (h' : Denotes cs d') :
    d = d' := by
  have hends : Ends [] := nofun
  exact (h.determined (cs, d') h' hends hends rfl).1

end SExprViewer.Json
