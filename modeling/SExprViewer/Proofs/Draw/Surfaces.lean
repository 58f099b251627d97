import SExprViewer.Draw.DisplayList
import SExprViewer.Draw.EncodedScene
import SExprViewer.Page.Canvas

/-! # The transforms of the surfaces

Surfaces that carry out the same instructions have the same transforms.  A canvas has a context
beside it that cannot be asked for its matrix, and makes calls to it.  If the context heeds the
calls that are made, it has the matrix and the saved matrices of the canvas after every
instruction (`matrices_run`), restoring without anything saved included (`transforms_agree`). -/
set_option autoImplicit false

namespace SExprViewer

variable {K σ : Type}

/-! ## The context of a page -/

/-- The context of a page in the state `σ`: its matrix with those it has saved, and what a call
does to it. -/
structure Context (K σ : Type) where
  matrices : σ → TransformStack K
  call : σ → PageCall K → σ

/-- Has nothing to do with matrices. -/
def PageCall.IsPlain : PageCall K → Prop
  | .save | .restore | .setTransform _ => False
  | _ => True

namespace Context

/-- A call succeeds, and does to the matrices what it says.  What comes of restoring a matrix
that was not saved is left open. -/
def Heeds (context : Context K σ) (w : σ) : PageCall K → Prop
  | .save => context.matrices (context.call w .save) =
      ⟨(context.matrices w).current, (context.matrices w).current :: (context.matrices w).saved⟩
  | .restore => ∀ m rest, (context.matrices w).saved = m :: rest →
      context.matrices (context.call w .restore) = ⟨m, rest⟩
  | .setTransform m =>
      context.matrices (context.call w (.setTransform m)) = ⟨m, (context.matrices w).saved⟩
  | call => context.matrices (context.call w call) = context.matrices w

/-- Each of the calls is heeded when its turn comes.  Nothing is asked of other calls: there are
matrices that a context does not take. -/
def Obeys (context : Context K σ) : σ → List (PageCall K) → Prop
  | _, [] => True
  | w, call :: calls => context.Heeds w call ∧ context.Obeys (context.call w call) calls

variable {context : Context K σ}

theorem Heeds.plain {w : σ} {call : PageCall K} (h : context.Heeds w call) (hplain : call.IsPlain) :
    context.matrices (context.call w call) = context.matrices w := by
  cases call <;> first | exact h | exact hplain.elim

theorem obeys_append {calls calls' : List (PageCall K)} : ∀ {w : σ},
    context.Obeys w (calls ++ calls') ↔
      context.Obeys w calls ∧ context.Obeys (calls.foldl context.call w) calls' := by
  induction calls with
  | nil => intro w; exact iff_of_eq (true_and _).symm
  | cons call calls ih =>
      intro w
      rw [List.cons_append, Obeys, Obeys, ih, and_assoc]
      rfl

theorem Obeys.foldl_plain {calls : List (PageCall K)} (hcalls : ∀ call ∈ calls, call.IsPlain) :
    ∀ {w : σ}, context.Obeys w calls →
      context.matrices (calls.foldl context.call w) = context.matrices w := by
  induction calls with
  | nil => intro w _; rfl
  | cons call calls ih =>
      rintro w ⟨hfirst, hothers⟩
      rw [List.foldl_cons, ih (fun c hc => hcalls c (List.mem_cons_of_mem _ hc)) hothers]
      exact hfirst.plain (hcalls call List.mem_cons_self)

theorem isPlain_trace (o : Outline K) : ∀ call ∈ Canvas.trace o, call.IsPlain := by
  intro call hcall
  rcases List.mem_cons.mp hcall with rfl | hcall
  · trivial
  · obtain ⟨step, _, rfl⟩ := List.mem_map.mp hcall
    cases step <;> trivial

variable [Scalar K]

/-- What is called for an instruction does to the context what the instruction does to the
transforms of the surface. -/
theorem Obeys.foldl_callsFor {w : σ} {s : TransformStack K} (hw : context.matrices w = s)
    {i : Instruction K} (h : context.Obeys w (Canvas.callsFor s i)) :
    context.matrices ((Canvas.callsFor s i).foldl context.call w) = s.apply i := by
  subst hw
  cases i with
  | save => exact h.1
  | restore =>
      cases hsaved : (context.matrices w).saved with
      | nil => simp [Canvas.callsFor, TransformStack.apply, TransformStack.restore, hsaved]
      | cons m rest =>
          simp only [Canvas.callsFor, hsaved] at h
          obtain ⟨hrestore, hset, -⟩ := h
          have hrestored := hrestore m rest hsaved
          simp only [Canvas.callsFor, TransformStack.apply, TransformStack.restore, hsaved,
            List.foldl_cons, List.foldl_nil]
          exact hset.trans (by rw [hrestored])
  | resetTransform => exact h.1
  | transform m => exact h.1
  | clearRect r => exact h.1
  | fillRect r color => exact h.foldl_plain (by simp [Canvas.callsFor, PageCall.IsPlain])
  | strokeRect r color width => exact h.foldl_plain (by simp [Canvas.callsFor, PageCall.IsPlain])
  | fillOutline o color =>
      refine h.foldl_plain (List.forall_mem_append.mpr ⟨isPlain_trace o, ?_⟩)
      simp [PageCall.IsPlain]
  | strokeOutline o color width =>
      refine h.foldl_plain (List.forall_mem_append.mpr ⟨isPlain_trace o, ?_⟩)
      simp [PageCall.IsPlain]
  | fillText text origin color => exact h.foldl_plain (by simp [Canvas.callsFor, PageCall.IsPlain])

/-! ### As documented -/

/-- A matrix that a context takes: its entries are neither infinite nor NaN. -/
def takes (m : Affine K) : Bool :=
  [m.a, m.b, m.c, m.d, m.e, m.f].all Scalar.isFinite

/-- The matrices of a context as they are documented.  It passes over a matrix that it does not
take, without failing. -/
def documented : Context K (TransformStack K) where
  matrices := id
  call s
    | .save => s.save
    | .restore => s.restore
    | .setTransform m => if takes m then ⟨m, s.saved⟩ else s
    | _ => s

theorem documented_heeds (w : TransformStack K) {call : PageCall K}
    (h : ∀ m, call = .setTransform m → takes m) : documented.Heeds w call := by
  cases call
  case restore =>
    intro m rest hsaved
    change w.saved = m :: rest at hsaved
    change w.restore = _
    rw [TransformStack.restore, hsaved]
  case setTransform m => exact if_pos (h m rfl)
  all_goals rfl

theorem documented_obeys {calls : List (PageCall K)} (h : ∀ m, .setTransform m ∈ calls → takes m) :
    ∀ w, documented.Obeys w calls := by
  induction calls with
  | nil => intro w; trivial
  | cons call calls ih =>
      intro w
      refine ⟨documented_heeds w ?_, ih (fun m hm => h m (List.mem_cons_of_mem _ hm)) _⟩
      rintro m rfl
      exact h m List.mem_cons_self

end Context

/-! ## Runs -/

theorem Page.calls_noteAll (calls : List (PageCall K)) : ∀ p : Page K,
    (p.noteAll calls).calls.toList = p.calls.toList ++ calls := by
  induction calls with
  | nil => intro p; exact (List.append_nil _).symm
  | cons call calls ih =>
      intro p
      change ((p.note call).noteAll calls).calls.toList = _
      rw [ih, note, Array.toList_push, List.append_assoc, List.singleton_append]

namespace Canvas

variable [Scalar K]

/-- The calls that carry out instructions one after the other. -/
def callsForAll (s : TransformStack K) : List (Instruction K) → List (PageCall K)
  | [] => []
  | i :: program => callsFor s i ++ callsForAll (s.apply i) program

theorem calls_run (program : List (Instruction K)) : ∀ canvas : Canvas K,
    (canvas.run program).page.calls.toList =
      canvas.page.calls.toList ++ callsForAll canvas.transforms program := by
  induction program with
  | nil => intro canvas; exact (List.append_nil _).symm
  | cons i program ih =>
      intro canvas
      have hfirst : (canvas.apply i).page.calls.toList =
          canvas.page.calls.toList ++ callsFor canvas.transforms i := Page.calls_noteAll _ _
      refine (ih (canvas.apply i)).trans ?_
      rw [hfirst, callsForAll, List.append_assoc]
      rfl

end Canvas

theorem Context.matrices_run [Scalar K] {context : Context K σ} (program : List (Instruction K)) :
    ∀ (w : σ) (s : TransformStack K), context.matrices w = s →
      context.Obeys w (Canvas.callsForAll s program) →
        context.matrices ((Canvas.callsForAll s program).foldl context.call w) =
          program.foldl TransformStack.apply s := by
  induction program with
  | nil => intro w s hw _; exact hw
  | cons i program ih =>
      intro w s hw h
      obtain ⟨hfirst, hothers⟩ := obeys_append.mp h
      rw [Canvas.callsForAll, List.foldl_append]
      exact ih _ _ (hfirst.foldl_callsFor hw) hothers

section Run
variable [Scalar K]

theorem TransformStack.apply_restore {s : TransformStack K} (h : s.saved = []) :
    s.apply .restore = s := by
  simp [apply, restore, h]

theorem DisplayList.apply_restore {list : DisplayList K} (h : list.transforms.saved = []) :
    list.apply .restore = list :=
  congrArg (DisplayList.mk · list.marks) (TransformStack.apply_restore h)

theorem EncodedScene.apply_restore {scene : EncodedScene K} (h : scene.transforms.saved = []) :
    scene.apply .restore = scene :=
  congrArg (EncodedScene.mk · scene.isEmpty) (TransformStack.apply_restore h)

theorem Canvas.apply_restore {canvas : Canvas K} (h : canvas.transforms.saved = []) :
    canvas.apply .restore = canvas := by
  rw [apply, TransformStack.apply_restore h, callsFor, h]
  rfl

theorem DisplayList.transforms_run (list : DisplayList K) (program : List (Instruction K)) :
    (list.run program).transforms = program.foldl TransformStack.apply list.transforms :=
  (List.foldl_hom DisplayList.transforms fun _ _ => rfl).symm

theorem EncodedScene.transforms_foldl (scene : EncodedScene K) (program : List (Instruction K)) :
    (program.foldl apply scene).transforms = program.foldl TransformStack.apply scene.transforms :=
  (List.foldl_hom EncodedScene.transforms fun _ _ => rfl).symm

theorem Canvas.transforms_run (canvas : Canvas K) (program : List (Instruction K)) :
    (canvas.run program).transforms = program.foldl TransformStack.apply canvas.transforms :=
  (List.foldl_hom Canvas.transforms fun _ _ => rfl).symm

/-- New surfaces that are given the same instructions have the same transforms after each, and
pass over restoring when nothing is saved.  A context that had the identity for its matrix and
nothing saved when the canvas was made, and heeds the calls of the canvas, has the matrix and the
saved matrices of the canvas. -/
theorem transforms_agree (page : Page K) (font : String) (program : List (Instruction K)) :
    let list := DisplayList.empty.run program
    let scene := program.foldl EncodedScene.apply .empty
    let canvas := (Canvas.new page font).run program
    (scene.transforms = list.transforms ∧ canvas.transforms = list.transforms) ∧
    (list.transforms.saved = [] → list.apply .restore = list ∧ scene.apply .restore = scene ∧
      canvas.apply .restore = canvas) ∧
    ∃ calls, canvas.page.calls.toList = page.calls.toList ++ calls ∧
      ∀ (σ : Type) (context : Context K σ) (w : σ), context.Obeys w calls →
        context.matrices w = ⟨.identity, []⟩ →
          context.matrices (calls.foldl context.call w) = canvas.transforms := by
  intro list scene canvas
  have hlist : list.transforms = program.foldl TransformStack.apply .initial :=
    DisplayList.transforms_run _ program
  have hscene : scene.transforms = list.transforms :=
    (EncodedScene.transforms_foldl _ program).trans hlist.symm
  have hcanvas : canvas.transforms = list.transforms :=
    (Canvas.transforms_run _ program).trans hlist.symm
  refine ⟨⟨hscene, hcanvas⟩, fun hnone => ?_, .setFont font :: Canvas.callsForAll .initial program,
    ?_, ?_⟩
  · refine ⟨DisplayList.apply_restore hnone, EncodedScene.apply_restore ?_,
      Canvas.apply_restore ?_⟩
    · rw [hscene, hnone]
    · rw [hcanvas, hnone]
  · refine (Canvas.calls_run program _).trans ?_
    change (page.calls.push (.setFont font)).toList ++ _ = _
    rw [Array.toList_push, List.append_assoc, List.singleton_append]
    rfl
  · rintro σ context w ⟨hfont, hothers⟩ hw
    rw [hcanvas, hlist, List.foldl_cons]
    exact Context.matrices_run program _ _ ((hfont.plain trivial).trans hw) hothers

/-- Restored before anything is saved, and once more than was saved at the end. -/
theorem transforms_agree_unbalanced :
    let page : Page Float := ⟨true, fun _ _ => 6, "", [], 0, [], #[]⟩
    let program : List (Instruction Float) := [.restore, .transform (.scale 2), .save,
      .resetTransform, .fillRect ⟨0, 0, 1, 1⟩ .white, .restore, .restore]
    let context : Context Float (TransformStack Float) := .documented
    context.matrices .initial = ⟨.identity, []⟩ ∧
      ∃ calls, ((Canvas.new page "serif").run program).page.calls.toList = calls ∧
        context.Obeys .initial calls ∧
        context.matrices (calls.foldl context.call .initial) =
          ⟨Affine.identity.mul (.scale 2), []⟩ := by
  intro page program context
  obtain ⟨-, -, calls, hcalls, hmatrices⟩ := transforms_agree page "serif" program
  have htakes : ∀ m, .setTransform m ∈ calls → Context.takes m := by
    obtain rfl : calls = .setFont "serif" :: Canvas.callsForAll .initial program := hcalls.symm
    intro m hm
    obtain rfl | rfl | rfl : m = Affine.identity.mul (.scale 2) ∨ m = .identity ∨
        m = Affine.identity.mul (.scale 2) := by
      simpa [program, Canvas.callsForAll, Canvas.callsFor, TransformStack.apply,
        TransformStack.initial, TransformStack.save, TransformStack.restore, TransformStack.reset,
        TransformStack.transform] using hm
    all_goals rfl
  have hobeys : context.Obeys .initial calls := Context.documented_obeys htakes _
  exact ⟨rfl, calls, hcalls, hobeys, hmatrices _ context .initial hobeys rfl⟩

end Run

end SExprViewer
