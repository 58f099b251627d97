import SExprViewer.Proofs.Expr.Lexical
import SExprViewer.Proofs.Text.Scans

/-! # Reading with care

The careful readers take nothing for granted: what is left of the source is cut at byte offsets, a
reading goes astray where a cut is within a character or outside of the text, the items of a list
are read in a loop, and every list and every turn of the loop takes a step, of which there is a
given number.  They agree with the readers (`Agrees`): whatever was read has made the rest shorter,
a fault is between two characters, none goes astray, and two steps for each character are enough
(`careful_agrees`). -/
set_option autoImplicit false

namespace SExprViewer.Expr.Careful

open Text

/-- What comes of reading with care. -/
inductive Outcome (α : Type) where
  | read (value : α) (rest : List Char)
  /-- The offset is in bytes. -/
  | fault (fault : SyntaxFault) (offset : Nat)
  /-- The text was cut within a character or outside of it. -/
  | astray
  | unfinished

def Outcome.andThen {α β : Type} (next : α → List Char → Outcome β) : Outcome α → Outcome β
  | .read value rest => next value rest
  | .fault f offset => .fault f offset
  | .astray => .astray
  | .unfinished => .unfinished

section Readers
variable {α : Type} (source : List Char)

/-- Goes on behind the first `n` bytes. -/
def cut (n : Nat) (rest : List Char) (next : List Char → Outcome α) : Outcome α :=
  match splitBytes? rest n with
  | some (_, after) => next after
  | none => .astray

/-- Goes on with the offset at which `rest` is left. -/
def atOffset (rest : List Char) (next : Nat → Outcome α) : Outcome α :=
  if byteCount rest ≤ byteCount source then next (byteCount source - byteCount rest) else .astray

def text (quote : Char) (rest : List Char) : Outcome (List Char) :=
  atOffset source rest fun start =>
    cut quote.utf8Size rest fun body =>
      match body.dropWhile (· != quote) with
      | [] => .fault (.unterminated quote) start
      | c :: after =>
        if c = quote then .read (body.takeWhile (· != quote)) after
        else .fault (.unterminated quote) start

def word (rest : List Char) : Outcome Atom :=
  atOffset source rest fun start =>
    if rest.takeWhile isWordChar = [] then .fault .expectedList start
    else .read (atomOfWord (rest.takeWhile isWordChar)) (rest.dropWhile isWordChar)

mutual

/-- A list at its opening parenthesis, when `depth` lists are open around it. -/
def list (limit : Nat) : Nat → Nat → List Char → Outcome Expr
  | 0, _, _ => .unfinished
  | steps + 1, depth, rest =>
    if limit ≤ depth then atOffset source rest fun start => .fault (.tooDeep limit) start
    else cut 1 rest fun rest => items limit steps depth [] rest

/-- The loop over the items of a list, of which some have been read. -/
def items (limit : Nat) : Nat → Nat → List Expr → List Char → Outcome Expr
  | 0, _, _, _ => .unfinished
  | steps + 1, depth, before, rest =>
    match skipWhite rest with
    | [] => .fault (.unexpectedEnd ')') (byteCount source)
    | c :: tail =>
      if c = ')' then cut 1 (c :: tail) fun rest => .read (.list before) rest
      else if c = '(' then
        (list limit steps (depth + 1) (c :: tail)).andThen fun e rest =>
          items limit steps depth (before ++ [e]) rest
      else if isQuote c then
        (text source c (c :: tail)).andThen fun t rest =>
          items limit steps depth (before ++ [.atom (.text (String.ofList t))]) rest
      else
        (word source (c :: tail)).andThen fun a rest =>
          items limit steps depth (before ++ [.atom a]) rest

end

def document (limit steps : Nat) : Outcome Expr :=
  match skipWhite source with
  | [] => .fault (.unexpectedEnd '(') (byteCount source)
  | c :: tail =>
    if c = '(' then list source limit steps 0 (c :: tail)
    else
      atOffset source (c :: tail) fun start =>
        if isQuote c then (text source c (c :: tail)).andThen fun _ _ => .fault .expectedList start
        else .fault .expectedList start

/-- The answer to a source, if the steps have sufficed and nothing has gone astray. -/
def answer? : Outcome Expr → Option (Except SyntaxError Expr)
  | .read e _ => some (.ok e)
  | .fault f offset => (Position.atByte? source offset).map fun p => .error ⟨f, p⟩
  | .astray => none
  | .unfinished => none

end Readers

/-! ## Agreement -/

/-- Reading with care from `rest` comes to the same as reading: what is left is shorter, and a fault
is between two characters and not before `rest`. -/
inductive Agrees {α : Type} (source rest : List Char) :
    Outcome α → Except Failure (α × List Char) → Prop
  | read {a : α} {last : List Char} (front : List Char) (hrest : rest = front ++ last)
      (hfront : front ≠ []) :
      Agrees source rest (.read a last) (.ok (a, last))
  | fault {f : SyntaxFault} {before after : List Char} (hsource : source = before ++ after)
      (hafter : after <:+ rest) (hf : f ≠ .expectedList) :
      Agrees source rest (.fault f (byteCount before)) (.error ⟨f, after.length⟩)

section Agreement
variable {α : Type} {source rest : List Char}

theorem Agrees.mono {o : Outcome α} {a : Except Failure (α × List Char)} {rest' : List Char}
    (h : Agrees source rest o a) (hrest : rest <:+ rest') : Agrees source rest' o a := by
  cases h with
  | read front heq hfront =>
      obtain ⟨more, rfl⟩ := hrest
      refine .read (more ++ front) (by rw [heq, List.append_assoc]) ?_
      exact fun hnil => hfront (List.append_eq_nil_iff.mp hnil).2
  | fault hsource hafter hf => exact .fault hsource (hafter.trans hrest) hf

theorem Agrees.andThen_error {β : Type} {o : Outcome α} {f : Failure}
    (h : Agrees source rest o (.error f)) (next : α → List Char → Outcome β) :
    Agrees source rest (o.andThen next) (.error f) := by
  cases h with
  | fault hsource hafter hf => exact .fault hsource hafter hf

theorem Agrees.andThen_ok {β : Type} {o : Outcome α} {a : α} {last : List Char}
    (h : Agrees source rest o (.ok (a, last))) (next : α → List Char → Outcome β) :
    o.andThen next = next a last ∧ last <:+ rest ∧ last.length < rest.length := by
  cases h with
  | read front heq hfront =>
      refine ⟨rfl, heq ▸ List.suffix_append front last, ?_⟩
      have hpos := List.length_pos_of_ne_nil hfront
      rw [heq, List.length_append]
      omega

theorem atOffset_of_append {before : List Char} (h : source = before ++ rest)
    (next : Nat → Outcome α) : atOffset source rest next = next (byteCount before) := by
  rw [atOffset, h, byteCount_append, if_pos (Nat.le_add_left ..), Nat.add_sub_cancel]

theorem cut_cons {n : Nat} {c : Char} (hn : c.utf8Size = n) (next : List Char → Outcome α) :
    cut n (c :: rest) next = next rest := by
  subst hn
  rw [cut, show splitBytes? (c :: rest) c.utf8Size = some ([c], rest) from
    splitBytes?_append [c] rest]

theorem text_closed {q : Char} {t last : List Char} (ht : q ∉ t)
    (hsource : q :: (t ++ q :: last) <:+ source) :
    text source q (q :: (t ++ q :: last)) = .read t last := by
  obtain ⟨before, hbefore⟩ := hsource
  obtain ⟨htake, hdrop⟩ :=
    takeWhile_dropWhile_append (· != q) t (q :: last) (bne_of_not_mem ht) (by simp)
  rw [text, atOffset_of_append hbefore.symm, cut_cons rfl, hdrop, htake]
  exact if_pos rfl

theorem text_open {q : Char} {tail before : List Char} (hq : q ∉ tail)
    (hsource : source = before ++ q :: tail) :
    text source q (q :: tail) = .fault (.unterminated q) (byteCount before) := by
  obtain ⟨_, hdrop⟩ := takeWhile_dropWhile_append (· != q) tail [] (bne_of_not_mem hq) (by simp)
  rw [List.append_nil] at hdrop
  rw [text, atOffset_of_append hsource, cut_cons rfl, hdrop]

theorem word_append {a last : List Char} (ha : IsWord a) (hend : EndsWord last)
    (hsource : a ++ last <:+ source) : word source (a ++ last) = .read (atomOfWord a) last := by
  obtain ⟨before, hbefore⟩ := hsource
  obtain ⟨htake, hdrop⟩ := takeWhile_dropWhile_append isWordChar a last ha.2 hend
  rw [word, atOffset_of_append hbefore.symm, htake, hdrop, if_neg ha.1]

end Agreement

/-! ## The loop -/

/-- The answer of the loop, some items having been read before. -/
def listWith (before : List Expr) :
    Except Failure (List Expr × List Char) → Except Failure (Expr × List Char)
  | .error f => .error f
  | .ok (items, rest) => .ok (.list (before ++ items), rest)

theorem listWith_prepend (before : List Expr) (e : Expr)
    (answer : Except Failure (List Expr × List Char)) :
    listWith before (prepend e answer) = listWith (before ++ [e]) answer := by
  cases answer with
  | error f => rfl
  | ok p => simp [prepend, listWith]

section Turns
variable {source : List Char} {limit depth steps : Nat} {before : List Expr} {w rest : List Char}

theorem items_ended (hw : Blank w) : items source limit (steps + 1) depth before w =
    .fault (.unexpectedEnd ')') (byteCount source) := by
  rw [items, skipWhite_blank hw]

theorem items_close (hw : Blank w) :
    items source limit (steps + 1) depth before (w ++ ')' :: rest) = .read (.list before) rest := by
  rw [items, skipWhite_append hw (by simp [isWhite])]
  exact (if_pos rfl).trans (cut_cons (c := ')') rfl _)

theorem items_open (hw : Blank w) :
    items source limit (steps + 1) depth before (w ++ '(' :: rest) =
      (list source limit steps (depth + 1) ('(' :: rest)).andThen fun e rest =>
        items source limit steps depth (before ++ [e]) rest := by
  rw [items, skipWhite_append hw (by simp [isWhite])]
  rfl

theorem items_quote {q : Char} (hw : Blank w) (hq : isQuote q = true) :
    items source limit (steps + 1) depth before (w ++ q :: rest) =
      (text source q (q :: rest)).andThen fun t rest =>
        items source limit steps depth (before ++ [.atom (.text (String.ofList t))]) rest := by
  obtain ⟨hclose, hopen, hwhite, -⟩ := isQuote_facts hq
  rw [items, skipWhite_append hw (by simpa using hwhite)]
  simp only [hclose, hopen, hq, if_true, if_false]

theorem items_word {a : List Char} (hw : Blank w) (ha : IsWord a) :
    items source limit (steps + 1) depth before (w ++ (a ++ rest)) =
      (word source (a ++ rest)).andThen fun x rest =>
        items source limit steps depth (before ++ [.atom x]) rest := by
  obtain ⟨c, tail, rfl, hc⟩ := ha.exists_cons
  obtain ⟨hwhite, hopen, hclose, hquote⟩ := (isWordChar_iff c).mp hc
  rw [List.cons_append, items, skipWhite_append hw (by simpa using hwhite)]
  simp [hclose, hopen, hquote]

end Turns

theorem readList_cons (limit depth : Nat) (tail : List Char) :
    readList limit depth ('(' :: tail) =
      if limit ≤ depth then .error ⟨.tooDeep limit, tail.length + 1⟩
      else listWith [] (itemsFrom limit (depth + 1) tail) := by
  simp only [readList, List.length_cons, List.tail_cons, itemsFrom]
  split
  · rfl
  · cases readItems limit (depth + 1) tail <;> rfl

section Loop
variable {source : List Char} {limit : Nat}

theorem list_agrees_of_items {depth : Nat} (steps : Nat) {tail : List Char}
    (hsource : '(' :: tail <:+ source)
    (hitems : depth < limit → Agrees source tail (items source limit steps depth [] tail)
      (listWith [] (itemsFrom limit (depth + 1) tail))) :
    Agrees source ('(' :: tail) (list source limit (steps + 1) depth ('(' :: tail))
      (readList limit depth ('(' :: tail)) := by
  rw [list, readList_cons]
  by_cases hd : limit ≤ depth
  · obtain ⟨before, hbefore⟩ := hsource
    rw [if_pos hd, if_pos hd, atOffset_of_append hbefore.symm]
    exact .fault hbefore.symm (List.suffix_refl _) nofun
  · rw [if_neg hd, if_neg hd, cut_cons (c := '(') (n := 1) rfl]
    exact (hitems (Nat.lt_of_not_le hd)).mono (List.suffix_cons '(' tail)

theorem items_agrees (source : List Char) (limit opened : Nat) (cs : List Char) :
    ∀ depth steps before, opened = depth + 1 → 2 * cs.length < steps → cs <:+ source →
      Agrees source cs (items source limit steps depth before cs)
        (listWith before (itemsFrom limit opened cs)) := by
  induction opened, cs using itemsFrom_induction limit with
  | ended opened w hw =>
      intro depth steps before hopened hsteps hsource
      obtain ⟨steps, rfl⟩ := Nat.exists_eq_add_of_lt hsteps
      rw [itemsFrom_ended hw, items_ended hw]
      exact .fault (List.append_nil _).symm (List.nil_suffix ..) nofun
  | close opened w rest hw =>
      intro depth steps before hopened hsteps hsource
      obtain ⟨steps, rfl⟩ := Nat.exists_eq_add_of_lt hsteps
      rw [itemsFrom_close hw, items_close hw, listWith, List.append_nil]
      exact .read (w ++ [')']) (by simp) (by simp)
  | tooDeep opened w rest hw hd =>
      intro depth steps before hopened hsteps hsource
      subst hopened
      have hsuffix : '(' :: rest <:+ w ++ '(' :: rest := List.suffix_append ..
      rw [List.length_append, List.length_cons] at hsteps
      obtain ⟨steps, rfl⟩ : ∃ n, steps = n + 1 + 1 := ⟨steps - 2, by omega⟩
      have hlist := list_agrees_of_items steps (hsuffix.trans hsource)
        fun hlt => absurd hd (Nat.not_le_of_lt hlt)
      rw [readList_cons, if_pos hd] at hlist
      rw [itemsFrom_tooDeep hw hd, items_open hw]
      exact (hlist.andThen_error _).mono hsuffix
  | list opened w rest hw hd ihInner ihRest =>
      intro depth steps before hopened hsteps hsource
      subst hopened
      have hsuffix : '(' :: rest <:+ w ++ '(' :: rest := List.suffix_append ..
      rw [List.length_append, List.length_cons] at hsteps
      obtain ⟨steps, rfl⟩ : ∃ n, steps = n + 1 + 1 := ⟨steps - 2, by omega⟩
      -- the nested list takes one step to open, and its items are fewer characters
      have hlist := list_agrees_of_items steps (hsuffix.trans hsource) fun _ =>
        ihInner (depth + 1) steps [] rfl (by omega)
          ((List.suffix_cons '(' rest).trans (hsuffix.trans hsource))
      rw [readList_cons, if_neg (Nat.not_le_of_lt hd)] at hlist
      rw [itemsFrom_list hw hd, items_open hw]
      cases hinner : itemsFrom limit (depth + 1 + 1) rest with
      | error f =>
          rw [hinner] at hlist
          exact (hlist.andThen_error _).mono hsuffix
      | ok p =>
          obtain ⟨inner, last⟩ := p
          rw [hinner] at hlist
          obtain ⟨hnext, hlast, hshorter⟩ := hlist.andThen_ok fun e rest =>
            items source limit (steps + 1) depth (before ++ [e]) rest
          rw [hnext, listWith_prepend]
          rw [List.length_cons] at hshorter
          exact (ihRest inner last hinner depth _ _ rfl (by omega)
            (hlast.trans (hsuffix.trans hsource))).mono (hlast.trans hsuffix)
  | unterminated opened w q rest hw hq hrest =>
      intro depth steps before hopened hsteps hsource
      obtain ⟨steps, rfl⟩ := Nat.exists_eq_add_of_lt hsteps
      have hsuffix : q :: rest <:+ w ++ q :: rest := List.suffix_append ..
      obtain ⟨front, hfront⟩ := hsuffix.trans hsource
      rw [itemsFrom_unterminated hw hq hrest, items_quote hw hq, text_open hrest hfront.symm]
      exact .fault hfront.symm hsuffix nofun
  | text opened w q t rest hw hq ht ih =>
      intro depth steps before hopened hsteps hsource
      obtain ⟨steps, rfl⟩ := Nat.exists_eq_add_of_lt hsteps
      have hsuffix : q :: (t ++ q :: rest) <:+ source := (List.suffix_append ..).trans hsource
      have hrest : rest <:+ w ++ q :: (t ++ q :: rest) := ⟨w ++ q :: (t ++ [q]), by simp⟩
      rw [itemsFrom_text hw hq ht, items_quote hw hq, text_closed ht hsuffix, listWith_prepend]
      refine (ih depth _ _ hopened ?_ (hrest.trans hsource)).mono hrest
      simp
      omega
  | word opened w a rest hw ha hend ih =>
      intro depth steps before hopened hsteps hsource
      obtain ⟨steps, rfl⟩ := Nat.exists_eq_add_of_lt hsteps
      have hsuffix : a ++ rest <:+ source := (List.suffix_append ..).trans hsource
      have hrest : rest <:+ w ++ (a ++ rest) := ⟨w ++ a, by simp⟩
      rw [itemsFrom_word hw ha hend, items_word hw ha, word_append ha hend hsuffix,
        listWith_prepend]
      refine (ih depth _ _ hopened ?_ (hrest.trans hsource)).mono hrest
      have hpos := List.length_pos_of_ne_nil ha.1
      simp
      omega

theorem list_agrees {rest tail : List Char} (hrest : rest = '(' :: tail) (hsource : rest <:+ source)
    {steps : Nat} (hsteps : 2 * rest.length ≤ steps) (limit depth : Nat) :
    Agrees source rest (list source limit steps depth rest) (readList limit depth rest) := by
  subst hrest
  rw [List.length_cons] at hsteps
  obtain ⟨steps, rfl⟩ : ∃ n, steps = n + 1 := ⟨steps - 1, by omega⟩
  exact list_agrees_of_items steps hsource fun _ =>
    items_agrees source limit (depth + 1) tail depth steps [] rfl (by omega)
      ((List.suffix_cons '(' tail).trans hsource)

theorem text_agrees {rest tail : List Char} {q : Char} (hrest : rest = q :: tail)
    (hsource : rest <:+ source) : Agrees source rest (text source q rest)
      (match readText? q tail with
        | some (t, last) => .ok (t, last)
        | none => .error ⟨.unterminated q, rest.length⟩) := by
  subst hrest
  by_cases hmem : q ∈ tail
  · obtain ⟨t, last, rfl, ht⟩ := exists_first hmem
    rw [text_closed ht hsource, readText?_append ht]
    exact .read (q :: (t ++ [q])) (by simp) nofun
  · obtain ⟨before, hbefore⟩ := hsource
    rw [text_open hmem hbefore.symm, readText?_none hmem]
    exact .fault hbefore.symm (List.suffix_refl _) nofun

theorem word_agrees {rest tail : List Char} {c : Char} (hrest : rest = c :: tail)
    (hc : isWordChar c = true) (hsource : rest <:+ source) : Agrees source rest (word source rest)
      (.ok (atomOfWord (readWord rest).1, (readWord rest).2)) := by
  obtain ⟨a, last, rfl, ha, hend⟩ := exists_run isWordChar rest
  have hword : IsWord a := by
    refine ⟨?_, ha⟩
    rintro rfl
    have hhead : last.head? = some c := by rw [← List.nil_append last, hrest]; rfl
    exact absurd hc (Bool.eq_false_iff.mp (hend c hhead))
  rw [word_append hword hend hsource, readWord_append hword hend]
  exact .read a rfl hword.1

end Loop

/-! ## Sources -/

section Sources
variable {settings : ParseSettings} {source : String}

theorem answer?_read {e : Expr} {rest : List Char}
    (h : readSource settings.maxDepth source.toList = .ok (e, rest)) :
    answer? source.toList (.read e rest) = some (parse settings source) := by
  rw [parse, h, answer?]

theorem answer?_fault {f : SyntaxFault} {before after : List Char}
    (hsource : source.toList = before ++ after)
    (h : readSource settings.maxDepth source.toList = .error ⟨f, after.length⟩) :
    answer? source.toList (.fault f (byteCount before)) = some (parse settings source) := by
  have hplace : Position.ofOffset source.toList (source.toList.length - after.length) =
      Position.counted before := by
    rw [Position.ofOffset_eq, hsource, List.length_append, Nat.add_sub_cancel, List.take_left]
  have hat : Position.atByte? source.toList (byteCount before) =
      some (Position.counted before) := by
    rw [hsource, Position.atByte?_append]
  simp only [parse, h, answer?, hat, hplace, Option.map_some]

theorem answer?_of_agrees {o : Outcome Expr}
    (h : Agrees source.toList source.toList o (readSource settings.maxDepth source.toList)) :
    answer? source.toList o = some (parse settings source) := by
  generalize hread : readSource settings.maxDepth source.toList = answer at h
  cases h with
  | read _ _ _ => exact answer?_read hread
  | fault hsource _ _ => exact answer?_fault hsource hread

theorem answer?_document (settings : ParseSettings) (source : String) {steps : Nat}
    (hsteps : 2 * source.toList.length ≤ steps) :
    answer? source.toList (document source.toList settings.maxDepth steps) =
      some (parse settings source) := by
  rcases source_cases source.toList with hw | ⟨w, rest, hcs, hw⟩ |
    ⟨w, c, rest, hcs, hw, hwhite, hopen⟩
  · rw [document, skipWhite_blank hw]
    exact answer?_fault (List.append_nil _).symm (readSource_ended hw)
  · have hsuffix : '(' :: rest <:+ source.toList := ⟨w, hcs.symm⟩
    have hskip : skipWhite source.toList = '(' :: rest := by
      rw [hcs, skipWhite_append hw (by simp [isWhite])]
    have hlist := (list_agrees rfl hsuffix
      (Nat.le_trans (Nat.mul_le_mul_left 2 hsuffix.length_le) hsteps)
      settings.maxDepth 0).mono hsuffix
    have hread : readSource settings.maxDepth source.toList =
        readList settings.maxDepth 0 ('(' :: rest) := by
      rw [readSource, hskip]
      rfl
    rw [document, hskip]
    exact answer?_of_agrees (hread ▸ hlist)
  · have hskip : skipWhite source.toList = c :: rest := by
      rw [hcs, skipWhite_append hw (by simpa using hwhite)]
    rw [document, hskip]
    simp only [if_neg hopen]
    rw [atOffset_of_append hcs]
    have hother (hquote : isQuote c = true → c ∈ rest) :
        answer? source.toList (.fault .expectedList (byteCount w)) = some (parse settings source) :=
      answer?_fault hcs (hcs ▸ readSource_other hw hwhite hopen hquote)
    by_cases hq : isQuote c = true
    · rw [if_pos hq]
      by_cases hmem : c ∈ rest
      · -- a text has been read in the place of a list
        obtain ⟨t, last, rfl, ht⟩ := exists_first hmem
        rw [text_closed ht ⟨w, hcs.symm⟩]
        exact hother fun _ => hmem
      · rw [text_open hmem hcs]
        exact answer?_fault hcs (hcs ▸ readSource_unterminated hw hq hmem)
    · rw [if_neg hq]
      exact hother fun hquote => absurd hquote hq

end Sources

/-- The careful readers agree with the readers: a list at its parenthesis, a text at its quote and
an atom at its first character leave a shorter rest of the source, or name a fault between two
characters of it; the atom is always read.  Two steps for each character are enough for a list, so
that every source has its answer in this number of steps. -/
theorem careful_agrees (source : String) :
    (∀ rest, rest <:+ source.toList →
      (∀ tail, rest = '(' :: tail → ∀ limit depth steps, 2 * rest.length ≤ steps →
        Agrees source.toList rest (list source.toList limit steps depth rest)
          (readList limit depth rest)) ∧
      (∀ q tail, isQuote q = true → rest = q :: tail →
        Agrees source.toList rest (text source.toList q rest)
          (match readText? q tail with
            | some (t, last) => .ok (t, last)
            | none => .error ⟨.unterminated q, rest.length⟩)) ∧
      ∀ c tail, isWordChar c = true → rest = c :: tail →
        Agrees source.toList rest (word source.toList rest)
          (.ok (atomOfWord (readWord rest).1, (readWord rest).2))) ∧
    ∀ settings steps, 2 * source.toList.length ≤ steps →
      answer? source.toList (document source.toList settings.maxDepth steps) =
        some (parse settings source) := by
  refine ⟨fun rest hrest => ⟨?_, ?_, ?_⟩, ?_⟩
  · intro tail hopen limit depth steps hsteps
    exact list_agrees hopen hrest hsteps limit depth
  · intro q tail _ hquote
    exact text_agrees hquote hrest
  · intro c tail hc hword
    exact word_agrees hword hc hrest
  · intro settings steps hsteps
    exact answer?_document settings source hsteps

/-- A list that is closed in a list that is not, with characters of two bytes. -/
theorem careful_agrees_open :
    let source := "((é'ü')"
    let inner := ['(', 'é', '\'', 'ü', '\'', ')']
    inner <:+ source.toList ∧ 2 * inner.length ≤ 12 ∧
      Agrees source.toList inner (list source.toList 256 12 1 inner) (readList 256 1 inner) ∧
      isQuote '\'' = true ∧ inner.drop 2 <:+ source.toList ∧
      Agrees source.toList (inner.drop 2) (text source.toList '\'' (inner.drop 2))
        (.ok (['ü'], [')'])) ∧
      isWordChar 'é' = true ∧ inner.drop 1 <:+ source.toList ∧
      Agrees source.toList (inner.drop 1) (word source.toList (inner.drop 1))
        (.ok (atomOfWord ['é'], inner.drop 2)) ∧
      2 * source.toList.length ≤ 14 ∧
      answer? source.toList (document source.toList 256 14) = some (parse .standard source) := by
  intro source inner
  have htext : source.toList = '(' :: inner := by decide
  have hsuffix (n : Nat) : inner.drop n <:+ source.toList :=
    htext ▸ (List.drop_suffix n inner).trans (List.suffix_cons '(' inner)
  have hlength : 2 * source.toList.length ≤ 14 := by decide
  obtain ⟨hreads, hanswer⟩ := careful_agrees source
  exact ⟨hsuffix 0, by decide, (hreads inner (hsuffix 0)).1 _ rfl 256 1 12 (by decide), by decide,
    hsuffix 2, (hreads _ (hsuffix 2)).2.1 '\'' _ (by decide) rfl, by decide, hsuffix 1,
    (hreads _ (hsuffix 1)).2.2 'é' _ (by decide) rfl, hlength, hanswer .standard 14 hlength⟩

end SExprViewer.Expr.Careful
