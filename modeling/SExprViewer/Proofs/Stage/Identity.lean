import Mathlib.Data.List.Nodup
import Mathlib.Data.List.Perm.Basic
import Mathlib.Data.List.Perm.Subperm
import SExprViewer.Proofs.Diagram.Identity
import SExprViewer.Stage.Basic

/-! # Actors told by their identities

A theatre is a stage with all the actors that are kept elsewhere, and the counter of identities.
Whatever is built, put on the stage, changed there and taken down again, no two actors have one
identity, and none has an identity that another node was built with (`Apart`, `apart_play`).  So
the first actor that has an identity is the one that was meant when it was put on the stage
(`identities_tell`). -/
set_option autoImplicit false

namespace SExprViewer

variable {K : Type}

/-! ## What stays of an actor -/

namespace Actor

/-- The identities of the nodes of a diagram, or that of a marker. -/
def identities : Actor K → Tree ObjectId ⊕ ObjectId
  | .diagram d => .inl (d.map Node.id)
  | .marker id _ => .inr id

def rootOf : Tree ObjectId ⊕ ObjectId → ObjectId := Sum.elim Tree.value fun id => id

theorem rootOf_identities (a : Actor K) : rootOf a.identities = a.id := by
  cases a with
  | diagram d => exact Tree.value_map Node.id d
  | marker => rfl

theorem identities_modifyDiagram {f : Diagram K → Diagram K}
    (hf : ∀ d, (f d).map Node.id = d.map Node.id) (a : Actor K) :
    (a.modifyDiagram f).identities = a.identities := by
  cases a with
  | diagram d => exact congrArg Sum.inl (hf d)
  | marker => rfl

theorem identities_step [Scalar K] (elapsed : K) (a : Actor K) :
    (a.step elapsed).identities = a.identities := by
  cases a with
  | diagram d => exact congrArg Sum.inl (Diagram.map_step (fun _ => rfl) d)
  | marker => rfl

theorem eq_diagram_of_identities {a : Actor K} {t : Tree ObjectId} (h : a.identities = .inl t) :
    ∃ d, a = .diagram d ∧ d.map Node.id = t := by
  cases a with
  | diagram d => exact ⟨d, rfl, Sum.inl.inj h⟩
  | marker => cases h

end Actor

/-! ## Looking for the first -/

namespace Stage

theorem map_modifyFirst {α β : Type} {f : α → α} {g : α → β} (hf : ∀ a, g (f a) = g a)
    (p : α → Bool) (as : List α) : (modifyFirst p f as).map g = as.map g := by
  induction as with
  | nil => rfl
  | cons a as ih =>
      rw [modifyFirst]
      split
      · rw [List.map_cons, List.map_cons, hf]
      · rw [List.map_cons, List.map_cons, ih]

theorem modifyFirst_append {α : Type} {p : α → Bool} (f : α → α) {a : α} {before : List α}
    (after : List α) (hbefore : ∀ b ∈ before, ¬ p b = true) (ha : p a = true) :
    modifyFirst p f (before ++ a :: after) = before ++ f a :: after := by
  induction before with
  | nil => exact if_pos ha
  | cons b before ih =>
      rw [List.cons_append, modifyFirst, if_neg (hbefore b List.mem_cons_self),
        ih fun c hc => hbefore c (List.mem_cons_of_mem b hc)]
      rfl

theorem map_identities_modifyDiagram {f : Diagram K → Diagram K}
    (keeps : ∀ d, (f d).map Node.id = d.map Node.id) (s : Stage K) (id : ObjectId) :
    (s.modifyDiagram id f).actors.map Actor.identities = s.actors.map Actor.identities :=
  map_modifyFirst (Actor.identities_modifyDiagram keeps) _ _

theorem map_identities_step [Scalar K] (s : Stage K) (elapsed : K) :
    (s.step elapsed).actors.map Actor.identities = s.actors.map Actor.identities := by
  rw [step, List.map_map]
  exact List.map_congr_left fun a _ => Actor.identities_step elapsed a

/-- With no such identity before it, an actor is the one that its identity reaches. -/
theorem reaches {s : Stage K} {before after : List (Actor K)} {a : Actor K}
    (h : s.actors = before ++ a :: after) (hbefore : ∀ b ∈ before, b.id ≠ a.id) :
    s.actor? a.id = some a ∧
      (∀ f, (s.modifyDiagram a.id f).actors = before ++ a.modifyDiagram f :: after) ∧
      (s.remove a.id).actors = before ++ after := by
  have hother : ∀ b ∈ before, ¬ decide (b.id = a.id) = true := by
    intro b hb
    rw [decide_eq_true_iff]
    exact hbefore b hb
  refine ⟨?_, fun f => ?_, ?_⟩
  · rw [actor?, h, List.find?_append, List.find?_eq_none.mpr hother, Option.none_or,
      List.find?_cons_of_pos (by simp)]
  · rw [modifyDiagram, h]
    exact modifyFirst_append _ after hother (decide_eq_true rfl)
  · rw [remove, h]
    exact (List.eraseP_append_right _ hother).trans
      (congrArg (before ++ ·) (List.eraseP_cons_of_pos (decide_eq_true rfl)))

theorem actor?_eq_some {s : Stage K} {id : ObjectId} {a : Actor K} (h : s.actor? id = some a) :
    a.id = id ∧ ∃ before after, s.actors = before ++ a :: after ∧ ∀ b ∈ before, b.id ≠ a.id := by
  obtain ⟨ha, before, after, hactors, hbefore⟩ := List.find?_eq_some_iff_append.mp h
  rw [decide_eq_true_iff] at ha
  refine ⟨ha, before, after, hactors, fun b hb => ?_⟩
  have hother := hbefore b hb
  rw [Bool.not_eq_true', decide_eq_false_iff_not] at hother
  rw [ha]
  exact hother

end Stage

/-! ## Theatres -/

structure Theatre (K : Type) where
  stage : Stage K
  /-- The actors that are not on the stage. -/
  wings : List (Actor K)
  /-- Every diagram as it was built, the first one first. -/
  built : List (Diagram K)
  next : ObjectId

inductive Move (K : Type) where
  | build (measure : TextMeasure K) (layout : LayoutSettings K) (e : Expr)
  | mark (placement : Placement K)
  /-- Changes a diagram in the wings, but none of its identities. -/
  | rehearse (i : Nat) (f : Diagram K → Diagram K)
      (keeps : ∀ d, (f d).map Node.id = d.map Node.id)
  /-- Drops an actor of the wings. -/
  | dismiss (i : Nat)
  /-- Puts an actor of the wings on the stage. -/
  | enter (i : Nat)
  /-- Takes the actor with an identity from the stage. -/
  | leave (id : ObjectId)
  /-- Changes the diagram with an identity on the stage, but none of its identities. -/
  | change (id : ObjectId) (f : Diagram K → Diagram K)
      (keeps : ∀ d, (f d).map Node.id = d.map Node.id)
  | clear
  | pass (elapsed : K)

/-- The moves that leave the actor with an identity on the stage. -/
def Move.Keeps (id : ObjectId) : Move K → Prop
  | .leave gone => gone ≠ id
  | .clear => False
  | _ => True

namespace Theatre

open scoped List

def roll (th : Theatre K) : List (Tree ObjectId ⊕ ObjectId) :=
  (th.wings ++ th.stage.actors).map Actor.identities

/-- Identities that were handed out to one of the diagrams, or to none of them. -/
def HandedOut (built : List (Diagram K)) : Tree ObjectId ⊕ ObjectId → Prop
  | .inl t => ∃ d ∈ built, d.map Node.id = t
  | .inr id => ∀ n ∈ Tree.postorderAll built, n.id ≠ id

/-- The nodes of all diagrams that were built have identities in ascending order, and every actor
has one of its own, of those handed out so far. -/
structure Apart (th : Theatre K) : Prop where
  ascend : (Tree.postorderAll th.built).Pairwise fun n n' => n.id.number < n'.id.number
  used : ∀ n ∈ Tree.postorderAll th.built, n.id.number < th.next.number
  roots : (th.roll.map Actor.rootOf).Nodup
  known : ∀ r ∈ th.roll, (Actor.rootOf r).number < th.next.number ∧ HandedOut th.built r

section Nodes
variable {th : Theatre K} {i j : Nat} {p q : Path} {n n' : Node K}

theorem Apart.number_lt (h : Apart th) (hn : Tree.among? th.built i p = some n)
    (hn' : Tree.among? th.built j q = some n') (hlt : Path.Precedes (i :: p) (j :: q)) :
    n.id.number < n'.id.number :=
  Tree.rel_of_precedes (R := fun n n' => n.id.number < n'.id.number) p h.ascend hn hn' hlt

theorem Apart.eq_of_id_eq (h : Apart th) (hn : Tree.among? th.built i p = some n)
    (hn' : Tree.among? th.built j q = some n') (hid : n.id = n'.id) : i = j ∧ p = q := by
  rcases Path.precedes_or_eq (i :: p) (j :: q) with hlt | heq | hlt
  · have hnumber := h.number_lt hn hn' hlt
    rw [hid] at hnumber
    exact absurd hnumber (Nat.lt_irrefl _)
  · exact List.cons.inj heq
  · have hnumber := h.number_lt hn' hn hlt
    rw [hid] at hnumber
    exact absurd hnumber (Nat.lt_irrefl _)

end Nodes

theorem Apart.ne_of_split {th : Theatre K} (h : Apart th) {before after : List (Actor K)}
    {a : Actor K} (hactors : th.stage.actors = before ++ a :: after) :
    ∀ b ∈ before ++ after, b.id ≠ a.id := by
  intro b hb heq
  have hids : Actor.rootOf ∘ Actor.identities = (Actor.id : Actor K → ObjectId) :=
    funext Actor.rootOf_identities
  have hroots : ((a :: (before ++ after)).map Actor.id).Nodup := by
    have hall := h.roots
    rw [roll, List.map_map, hids, List.map_append, hactors] at hall
    exact ((List.perm_middle.map _).nodup_iff).mp (List.nodup_append.mp hall).2.1
  exact (List.nodup_cons.mp hroots).1 (List.mem_map.mpr ⟨b, hb, heq⟩)

/-- The identity with which a diagram was built reaches no other actor. -/
theorem Apart.of_actor? {th : Theatre K} (h : Apart th) {k : Nat} {b : Diagram K} {a : Actor K}
    (hb : th.built[k]? = some b) (ha : th.stage.actor? b.value.id = some a) :
    ∃ d, a = .diagram d ∧ d.map Node.id = b.map Node.id := by
  obtain ⟨hid, before, after, hactors, _⟩ := Stage.actor?_eq_some ha
  have hroot := Tree.among?_root hb
  have hmem : a.identities ∈ th.roll := by
    refine List.mem_map_of_mem (List.mem_append_right _ ?_)
    rw [hactors]
    exact List.mem_append_right _ List.mem_cons_self
  have hhanded := (h.known _ hmem).2
  cases a with
  | diagram d =>
      obtain ⟨b', hb', heq⟩ := hhanded
      obtain ⟨k', hk'⟩ := List.mem_iff_getElem?.mp hb'
      have hvalue : b'.value.id = b.value.id := by
        have hvalues := congrArg Tree.value heq
        rw [Tree.value_map, Tree.value_map] at hvalues
        exact hvalues.trans hid
      obtain ⟨rfl, _⟩ := h.eq_of_id_eq (Tree.among?_root hk') hroot hvalue
      cases hk'.symm.trans hb
      exact ⟨d, rfl, heq.symm⟩
  | marker id placement => exact absurd hid.symm (hhanded b.value (Tree.mem_postorderAll hroot))

/-- A diagram that was put on the stage and not taken from it. -/
theorem Apart.reaches {th : Theatre K} (h : Apart th) {t : Tree ObjectId}
    (ht : .inl t ∈ th.stage.actors.map Actor.identities) :
    ∃ before d after, th.stage.actors = before ++ .diagram d :: after ∧ d.map Node.id = t ∧
      (∀ a ∈ before ++ after, a.id ≠ t.value) ∧
      th.stage.actor? t.value = some (.diagram d) ∧
      th.stage.diagram? t.value = some d ∧
      (∀ f, (th.stage.modifyDiagram t.value f).actors = before ++ .diagram (f d) :: after) ∧
      (th.stage.remove t.value).actors = before ++ after := by
  obtain ⟨a, ha, hidentities⟩ := List.mem_map.mp ht
  obtain ⟨d, rfl, rfl⟩ := Actor.eq_diagram_of_identities hidentities
  obtain ⟨before, after, hactors⟩ := List.append_of_mem ha
  have hapart := h.ne_of_split hactors
  obtain ⟨hfound, hchange, hremove⟩ :=
    Stage.reaches hactors fun b hb => hapart b (List.mem_append_left _ hb)
  rw [Tree.value_map]
  refine ⟨before, d, after, hactors, rfl, hapart, hfound, ?_, hchange, hremove⟩
  exact congrArg (Option.bind · Actor.diagram?) hfound

/-- Nothing is made, and nobody comes from elsewhere. -/
theorem Apart.of_subperm {th th' : Theatre K} (h : Apart th) (hroll : th'.roll.Subperm th.roll)
    (hbuilt : th'.built = th.built) (hnext : th'.next = th.next) : Apart th' where
  ascend := hbuilt ▸ h.ascend
  used := hbuilt ▸ hnext ▸ h.used
  roots := by
    obtain ⟨roll, hperm, hsublist⟩ := hroll
    exact (hperm.map _).nodup_iff.mp ((hsublist.map _).nodup h.roots)
  known r hr := by
    rw [hbuilt, hnext]
    exact h.known r (hroll.subset hr)

/-- Whoever is new has an identity that has not been handed out before. -/
theorem Apart.nodup_cons {th : Theatre K} (h : Apart th) {a : Actor K}
    (ha : th.next.number ≤ a.id.number) :
    ((a.identities :: th.roll).map Actor.rootOf).Nodup := by
  refine List.nodup_cons.mpr ⟨fun hmem => ?_, h.roots⟩
  obtain ⟨r, hr, heq⟩ := List.mem_map.mp hmem
  have hlt := (h.known r hr).1
  rw [heq, Actor.rootOf_identities] at hlt
  omega

theorem HandedOut.append {built : List (Diagram K)} {r : Tree ObjectId ⊕ ObjectId} {d : Diagram K}
    (h : HandedOut built r) (hd : ∀ n ∈ d.postorder, n.id ≠ Actor.rootOf r) :
    HandedOut (built ++ [d]) r := by
  cases r with
  | inl t =>
      obtain ⟨d', hd', heq⟩ := h
      exact ⟨d', List.mem_append_left _ hd', heq⟩
  | inr id =>
      intro n hn
      rw [Tree.postorderAll_concat] at hn
      rcases List.mem_append.mp hn with hn | hn
      · exact h n hn
      · exact hd n hn

/-! ## Moves -/

variable [Scalar K]

def opening (canvas : Size K) : Theatre K := ⟨.new canvas, [], [], .first⟩

def apply (th : Theatre K) : Move K → Theatre K
  | .build measure layout e =>
    let new := Diagram.build measure layout e th.next
    { th with wings := .diagram new.1 :: th.wings, built := th.built ++ [new.1], next := new.2 }
  | .mark placement =>
    { th with wings := .marker th.next placement :: th.wings, next := th.next.next }
  | .rehearse i f _ => { th with wings := th.wings.modify i (Actor.modifyDiagram f) }
  | .dismiss i => { th with wings := th.wings.eraseIdx i }
  | .enter i =>
    match th.wings[i]? with
    | some a => { th with stage := th.stage.add a, wings := th.wings.eraseIdx i }
    | none => th
  | .leave id =>
    match th.stage.actor? id with
    | some a => { th with stage := th.stage.remove id, wings := a :: th.wings }
    | none => th
  | .change id f _ => { th with stage := th.stage.modifyDiagram id f }
  | .clear => { th with stage := th.stage.clearActors }
  | .pass elapsed => { th with stage := th.stage.step elapsed }

def play (th : Theatre K) (moves : List (Move K)) : Theatre K := moves.foldl apply th

theorem apart_opening (canvas : Size K) : Apart (opening canvas) where
  ascend := .nil
  used := nofun
  roots := .nil
  known := nofun

theorem Apart.build {th : Theatre K} (h : Apart th) (measure : TextMeasure K)
    (layout : LayoutSettings K) (e : Expr) : Apart (th.apply (.build measure layout e)) := by
  let new := Diagram.build measure layout e th.next
  have hfresh : ∀ n ∈ new.1.postorder, th.next.number ≤ n.id.number ∧ n.id.number < new.2.number :=
    fun n hn => Diagram.number_mem_build hn
  have hroot := hfresh new.1.value (Tree.mem_postorder [] rfl)
  have hgrow : th.next.number < new.2.number := Nat.lt_of_le_of_lt hroot.1 hroot.2
  have hnodes : Tree.postorderAll (th.apply (.build measure layout e)).built =
      Tree.postorderAll th.built ++ new.1.postorder := Tree.postorderAll_concat ..
  constructor
  case ascend =>
    rw [hnodes, List.pairwise_append]
    refine ⟨h.ascend, Diagram.ascend_build measure layout e th.next, fun n hn n' hn' => ?_⟩
    have hold := h.used n hn
    have hnew := hfresh n' hn'
    omega
  case used =>
    intro n hn
    rw [hnodes] at hn
    rcases List.mem_append.mp hn with hn | hn
    · exact Nat.lt_trans (h.used n hn) hgrow
    · exact (hfresh n hn).2
  case roots => exact h.nodup_cons hroot.1
  case known =>
    intro r hr
    rcases List.mem_cons.mp hr with rfl | hr
    · rw [Actor.rootOf_identities]
      exact ⟨hroot.2, new.1, List.mem_append_right _ List.mem_cons_self, rfl⟩
    · obtain ⟨hlt, hhanded⟩ := h.known r hr
      refine ⟨Nat.lt_trans hlt hgrow, hhanded.append fun n hn heq => ?_⟩
      have hnew := hfresh n hn
      rw [heq] at hnew
      omega

theorem Apart.mark {th : Theatre K} (h : Apart th) (placement : Placement K) :
    Apart (th.apply (.mark placement)) where
  ascend := h.ascend
  used n hn := Nat.lt_succ_of_lt (h.used n hn)
  roots := h.nodup_cons (a := .marker th.next placement) (Nat.le_refl _)
  known r hr := by
    rcases List.mem_cons.mp hr with rfl | hr
    · refine ⟨Nat.lt_succ_self _, fun n hn heq => ?_⟩
      have hused := h.used n hn
      rw [heq] at hused
      exact Nat.lt_irrefl _ hused
    · exact ⟨Nat.lt_succ_of_lt (h.known r hr).1, (h.known r hr).2⟩

theorem Apart.enter {th : Theatre K} (h : Apart th) (i : Nat) : Apart (th.apply (.enter i)) := by
  rw [apply]
  split
  case h_1 a ha =>
    obtain ⟨hi, rfl⟩ := List.getElem?_eq_some_iff.mp ha
    refine h.of_subperm (List.Perm.map _ ?_).subperm rfl rfl
    calc th.wings.eraseIdx i ++ (th.stage.actors ++ [th.wings[i]])
        = th.wings.eraseIdx i ++ th.stage.actors ++ [th.wings[i]] := (List.append_assoc ..).symm
      _ ~ th.wings[i] :: th.wings.eraseIdx i ++ th.stage.actors := List.perm_append_singleton ..
      _ ~ th.wings ++ th.stage.actors := (List.getElem_cons_eraseIdx_perm hi).append_right _
  case h_2 => exact h

theorem Apart.leave {th : Theatre K} (h : Apart th) (id : ObjectId) :
    Apart (th.apply (.leave id)) := by
  rw [apply]
  split
  case h_1 a ha =>
    obtain ⟨rfl, before, after, hactors, hbefore⟩ := Stage.actor?_eq_some ha
    refine h.of_subperm (List.Perm.map _ ?_).subperm rfl rfl
    calc a :: th.wings ++ (th.stage.remove a.id).actors
        = a :: (th.wings ++ before ++ after) := by
          rw [(Stage.reaches hactors hbefore).2.2, List.cons_append, List.append_assoc]
      _ ~ th.wings ++ before ++ a :: after := List.perm_middle.symm
      _ = th.wings ++ th.stage.actors := by rw [hactors, List.append_assoc]
  case h_2 => exact h

theorem apart_apply {th : Theatre K} (h : Apart th) (m : Move K) : Apart (th.apply m) := by
  have hsame : ∀ th' : Theatre K, th'.wings.map Actor.identities = th.wings.map Actor.identities →
      th'.stage.actors.map Actor.identities = th.stage.actors.map Actor.identities →
      th'.built = th.built → th'.next = th.next → Apart th' := by
    intro th' hwings hactors hbuilt hnext
    refine h.of_subperm (List.Perm.of_eq ?_).subperm hbuilt hnext
    rw [roll, roll, List.map_append, List.map_append, hwings, hactors]
  cases m with
  | build measure layout e => exact h.build measure layout e
  | mark placement => exact h.mark placement
  | rehearse i f keeps =>
      refine hsame _ (List.ext_getElem? fun j => ?_) rfl rfl rfl
      rw [apply, List.getElem?_map, List.getElem?_map, List.getElem?_modify]
      by_cases hij : i = j
      · cases th.wings[j]? with
        | none => rfl
        | some a => simp [hij, Actor.identities_modifyDiagram keeps]
      · simp [hij]
  | dismiss i =>
      refine h.of_subperm (List.Sublist.map _ ?_).subperm rfl rfl
      exact (List.eraseIdx_sublist _ i).append_right th.stage.actors
  | enter i => exact h.enter i
  | leave id => exact h.leave id
  | change id f keeps => exact hsame _ rfl (th.stage.map_identities_modifyDiagram keeps id) rfl rfl
  | clear =>
      refine h.of_subperm (List.Sublist.map _ ?_).subperm rfl rfl
      exact (List.nil_sublist _).append_left th.wings
  | pass elapsed => exact hsame _ rfl (th.stage.map_identities_step elapsed) rfl rfl

theorem apart_play (moves : List (Move K)) : ∀ {th : Theatre K},
    Apart th → Apart (th.play moves) := by
  induction moves with
  | nil => intro th h; exact h
  | cons m moves ih => intro th h; exact ih (apart_apply h m)

/-! ## Who stays on the stage -/

theorem mem_apply {th : Theatre K} {t : Tree ObjectId} {m : Move K} (hm : m.Keeps t.value)
    (ht : .inl t ∈ th.stage.actors.map Actor.identities) :
    .inl t ∈ (th.apply m).stage.actors.map Actor.identities := by
  cases m with
  | build | mark | rehearse | dismiss => exact ht
  | enter i =>
      rw [apply]
      split
      · rw [Stage.add, List.map_append]
        exact List.mem_append_left _ ht
      · exact ht
  | leave id =>
      rw [apply]
      split
      · obtain ⟨a, ha, hid⟩ := List.mem_map.mp ht
        refine List.mem_map.mpr ⟨a, (List.mem_eraseP_of_neg ?_).mpr ha, hid⟩
        rw [decide_eq_true_iff, ← Actor.rootOf_identities, hid]
        exact fun heq => hm heq.symm
      · exact ht
  | change id f keeps =>
      rw [apply, Stage.map_identities_modifyDiagram keeps]
      exact ht
  | clear => exact hm.elim
  | pass elapsed =>
      rw [apply, Stage.map_identities_step]
      exact ht

theorem mem_play {t : Tree ObjectId} (moves : List (Move K)) : ∀ {th : Theatre K},
    (∀ m ∈ moves, m.Keeps t.value) → .inl t ∈ th.stage.actors.map Actor.identities →
      .inl t ∈ (th.play moves).stage.actors.map Actor.identities := by
  induction moves with
  | nil => intro th _ ht; exact ht
  | cons m moves ih =>
      intro th hmoves ht
      exact ih (fun m' hm' => hmoves m' (List.mem_cons_of_mem m hm'))
        (mem_apply (hmoves m List.mem_cons_self) ht)

/-! ## The whole play -/

/-- Whatever has been built and moved about since the opening, the identities tell the nodes apart,
and the diagrams on the stage with them.

The first four statements are about nodes.  No two nodes of diagrams that were built have one
identity; a node has a larger one than the nodes below it and those of the diagrams built before;
all of them have been counted, so that a counter of 64 bits gives the same while this count fits;
and the next diagram takes as many as it has nodes, in post-order and without a gap.

The last two are about the stage.  An actor that the identity of a built diagram reaches is this
diagram.  A diagram that was put on the stage, and not taken from it since, is found with its
identity, changed and removed with it, and no other actor is. -/
theorem identities_tell (canvas : Size K) (moves : List (Move K)) :
    let th := (opening canvas).play moves
    (∀ (i j : Nat) (p q : Path) (n n' : Node K), Tree.among? th.built i p = some n →
      Tree.among? th.built j q = some n' → n.id = n'.id → i = j ∧ p = q) ∧
    (∀ (i j : Nat) (p q : Path) (n n' : Node K), Tree.among? th.built i p = some n →
      Tree.among? th.built j q = some n' → (i < j ∨ i = j ∧ q <+: p ∧ p ≠ q) →
        n.id.number < n'.id.number) ∧
    (∀ (i : Nat) (p : Path) (n : Node K), Tree.among? th.built i p = some n →
      n.id.number < th.next.number) ∧
    (∀ (measure : TextMeasure K) (layout : LayoutSettings K) (e : Expr),
      let d := (Diagram.build measure layout e th.next).1
      (th.apply (.build measure layout e)).built = th.built ++ [d] ∧
      d.numbers = List.range' th.next.number d.size ∧
      (th.apply (.build measure layout e)).next.number = th.next.number + d.size) ∧
    (∀ (k : Nat) (b : Diagram K) (a : Actor K), th.built[k]? = some b →
      th.stage.actor? b.value.id = some a → ∃ d, a = .diagram d ∧ d.map Node.id = b.map Node.id) ∧
    ∀ (i : Nat) (d : Diagram K) (more : List (Move K)), th.wings[i]? = some (.diagram d) →
      (∀ m ∈ more, m.Keeps d.value.id) →
      let s := ((th.apply (.enter i)).play more).stage
      (∃ b ∈ th.built, b.map Node.id = d.map Node.id) ∧
      ∃ before d' after, s.actors = before ++ .diagram d' :: after ∧
        d'.map Node.id = d.map Node.id ∧
        (∀ a ∈ before ++ after, a.id ≠ d.value.id) ∧
        s.actor? d.value.id = some (.diagram d') ∧
        s.diagram? d.value.id = some d' ∧
        (∀ f, (s.modifyDiagram d.value.id f).actors = before ++ .diagram (f d') :: after) ∧
        (s.remove d.value.id).actors = before ++ after := by
  intro th
  have h : Apart th := apart_play moves (apart_opening canvas)
  refine ⟨fun i j p q n n' hn hn' => h.eq_of_id_eq hn hn', ?_, ?_, ?_,
    fun k b a hb ha => h.of_actor? hb ha, ?_⟩
  · intro i j p q n n' hn hn' horder
    refine h.number_lt hn hn' ?_
    rcases horder with hlt | ⟨rfl, hbelow, hne⟩
    · exact .inl hlt
    · exact .inr ⟨rfl, Path.precedes_of_below q hbelow hne⟩
  · intro i p n hn
    exact h.used n (Tree.mem_postorderAll hn)
  · intro measure layout e
    obtain ⟨hnumbers, hnumber⟩ := Diagram.numbers_build measure layout e th.next
    exact ⟨rfl, hnumbers, hnumber⟩
  · intro i d more hd hmore
    have hmem : .inl (d.map Node.id) ∈ th.roll :=
      List.mem_map.mpr ⟨_, List.mem_append_left _ (List.mem_of_getElem? hd), rfl⟩
    have hentered : .inl (d.map Node.id) ∈
        (th.apply (.enter i)).stage.actors.map Actor.identities := by
      rw [apply, hd]
      exact List.mem_map.mpr ⟨_, List.mem_append_right _ List.mem_cons_self, rfl⟩
    have hvalue : (d.map Node.id).value = d.value.id := Tree.value_map Node.id d
    have hreached := (apart_play more (apart_apply h (.enter i))).reaches
      (mem_play more (hvalue ▸ hmore) hentered)
    rw [hvalue] at hreached
    exact ⟨(h.known _ hmem).2, hreached⟩

/-- Two diagrams are put on the stage, the second one first, and this one is taken down. -/
theorem identities_tell_two :
    let measure : TextMeasure Float := fun _ => 6
    let th := (opening ⟨800, 600⟩).play [.build measure .standard (.list [.list []]),
      .mark .atOrigin, .build measure .standard (.list []), .enter 0]
    let s := ((th.apply (.enter 1)).play [.leave ⟨3⟩]).stage
    (∃ n n', Tree.among? th.built 0 [0] = some n ∧ Tree.among? th.built 1 [] = some n' ∧
      n.id.number < n'.id.number ∧ n'.id.number < th.next.number) ∧
    (∃ d, th.stage.actor? ⟨3⟩ = some (.diagram d) ∧ d.map Node.id = .node ⟨3⟩ []) ∧
    ∃ d, s.diagram? ⟨1⟩ = some d ∧ d.map Node.id = .node ⟨1⟩ [.node ⟨0⟩ []] ∧
      (s.remove ⟨1⟩).actors.length = 0 := by
  intro measure th s
  obtain ⟨-, hlarger, hcounted, -, hbuilt, hreached⟩ := identities_tell (⟨800, 600⟩ : Size Float)
    [.build measure .standard (.list [.list []]), .mark .atOrigin,
      .build measure .standard (.list []), .enter 0]
  obtain ⟨second, hsecond, hids⟩ := hbuilt 1 _ _ rfl rfl
  have hkeeps : Move.Keeps ⟨1⟩ (.leave ⟨3⟩ : Move Float) := by
    rw [Move.Keeps]
    decide
  obtain ⟨-, before, first, after, hactors, hfirst, -, -, hfound, -, hremoved⟩ :=
    hreached 1 _ [.leave ⟨3⟩] rfl (List.forall_mem_singleton.mpr hkeeps)
  have hlength : (before ++ .diagram first :: after).length = 1 := hactors ▸ rfl
  refine ⟨⟨_, _, rfl, rfl, hlarger 0 1 [0] [] _ _ rfl rfl (.inl Nat.zero_lt_one),
    hcounted 1 [] _ rfl⟩, ⟨second, congrArg some hsecond, hids⟩, first, hfound, hfirst, ?_⟩
  have hempty : (s.remove ⟨1⟩).actors = before ++ after := hremoved
  rw [List.length_append, List.length_cons] at hlength
  rw [hempty, List.length_append]
  omega

end Theatre

end SExprViewer
