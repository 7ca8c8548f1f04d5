import Testbed.Proofs.Binding.WalkState
import Testbed.Proofs.Binding.Outcome
import Testbed.Proofs.Results

/-!
# Walks that return

A walk that has a result is back where it began: every frame that it opens it closes again. A walk
that is stopped closes nothing, but what it leaves open is on top of the frames that were open
before, and these are as they were. `Returns` says so of a walk; the functions of binding return, as
inside of a frame that they have opened they move nothing but that frame (`Stays`).

So every call of a walker keeps its state (`Walker.state_kept`), and the frames that stopped calls
leave open make no difference to those that come later.
-/

namespace Testbed

namespace Walk

variable {α β : Type}

/-! ## §1 Steps -/

/-- Whether a walk returns: with a result it is where it began, and where it is stopped it has
    opened frames on top of those that were open. -/
def Returns (w : Walk α) : Prop :=
  ∀ l, match w l with
    | .ok _ m => m = l
    | .error _ m => l.frames <:+ m.frames

/-- Whether a walk stays inside: with a result it has moved the innermost frame and no other, and
    where it is stopped the frames around that one are as they were. -/
def Stays (w : Walk α) : Prop :=
  ∀ (f : Frame) (outer : List Frame), match w ⟨f :: outer⟩ with
    | .ok _ m => ∃ g, m = ⟨g :: outer⟩
    | .error _ m => outer <:+ m.frames

namespace Returns

variable {w : Walk α} {f : α → Walk β}

theorem pure (x : α) : Returns (pure x) :=
  fun _ => rfl

theorem fail (cause : Cause) : Returns (Walk.fail cause : Walk α) :=
  fun _ => List.suffix_rfl

theorem lift (x : Except Cause α) : Returns (Walk.lift x) := by
  cases x with
  | ok x => exact pure x
  | error cause => exact fail cause

theorem bind (hw : Returns w) (hf : ∀ x, Returns (f x)) : Returns (w >>= f) := by
  intro l
  have hfirst := hw l
  simp only [Bind.bind, EStateM.bind]
  cases h : w l with
  | error e m =>
    rw [h] at hfirst
    exact hfirst
  | ok x m =>
    -- the rest begins where all of it began
    rw [h] at hfirst
    obtain rfl : m = l := hfirst
    exact hf x m

theorem located (document : Path) (hw : Returns w) : Returns (Walk.located document w) := by
  intro l
  have hsame := hw l
  simp only [Walk.located]
  cases h : w l <;> rw [h] at hsame <;> exact hsame

/-- A walk that returns stays inside, as it moves nothing. -/
theorem stays (hw : Returns w) : Stays w := by
  intro f outer
  have hplace := hw ⟨f :: outer⟩
  cases h : w ⟨f :: outer⟩ with
  | ok x m =>
    rw [h] at hplace
    exact ⟨f, hplace⟩
  | error e m =>
    rw [h] at hplace
    exact (List.suffix_cons f outer).trans hplace

end Returns

namespace Stays

variable {w : Walk α} {f : α → Walk β}

theorem atField (name : String) : Stays (modify (Location.atField name) : Walk Unit) := by
  intro f outer
  cases f with
  | field old => exact ⟨.field (some name), rfl⟩
  | index i => exact ⟨.index i, rfl⟩

theorem atIndex (i : Nat) : Stays (modify (Location.atIndex i) : Walk Unit) := by
  intro f outer
  cases f with
  | field name => exact ⟨.field name, rfl⟩
  | index old => exact ⟨.index (some i), rfl⟩

theorem bind (hw : Stays w) (hf : ∀ x, Stays (f x)) : Stays (w >>= f) := by
  intro g outer
  have hfirst := hw g outer
  simp only [Bind.bind, EStateM.bind]
  cases h : w ⟨g :: outer⟩ with
  | error e m =>
    rw [h] at hfirst
    exact hfirst
  | ok x m =>
    -- the rest begins inside of the same frames
    rw [h] at hfirst
    obtain ⟨g', rfl⟩ := hfirst
    exact hf x g' outer

/-- What stays inside of an opened frame returns when the frame is closed. -/
theorem closed (hw : Stays w) (f : Frame) (l : Location) :
    match (do let x ← w; modify Location.close; pure x : Walk α) ⟨f :: l.frames⟩ with
    | .ok _ m => m = l
    | .error _ m => l.frames <:+ m.frames := by
  have hinside := hw f l.frames
  simp only [Bind.bind, EStateM.bind]
  cases h : w ⟨f :: l.frames⟩ with
  | error e m =>
    rw [h] at hinside
    exact hinside
  | ok x m =>
    rw [h] at hinside
    obtain ⟨g, rfl⟩ := hinside
    rfl

/-- Inside of a map a walk may move the frame of the map, which is closed afterwards. -/
theorem insideMap (hw : Stays w) : Returns w.insideMap :=
  fun l => hw.closed (.field none) l

theorem insideList (hw : Stays w) : Returns w.insideList :=
  fun l => hw.closed (.index none) l

end Stays

end Walk

/-! ## §2 The functions of binding -/

/-- Binding returns. This is said of each of two runs by itself, so the first alone counts. -/
def Walk.returning : Walk.Congruence where
  Near := Eq
  Whole w _ := Returns w
  Inside w _ := Stays w
  near_self _ := rfl
  near_directory h := congrArg Path.directory h
  pure := .pure
  fail := .fail
  bind := .bind
  located _ := .located _
  inside := Returns.stays
  atField := .atField
  atIndex := .atIndex
  andThen := .bind
  insideMap := Stays.insideMap
  insideList := Stays.insideList

namespace Deeper

variable (context : Context) (n : Nat)

/-- Binding by a shape returns, on every level. -/
theorem level_assign_returns (document : Path) (data : Data) (target : Value) :
    ((level context n).assign document data target).Returns :=
  Walk.Congruence.Below.assign (Walk.returning.level n) rfl data (.refl target)

/-- Making an action returns, on every level. -/
theorem level_action_returns (document : Path) (entry : Data) :
    ((level context n).action document entry).Returns :=
  Walk.Congruence.Below.action (Walk.returning.level n) rfl entry

/-- Binding a field returns, on every level. -/
theorem level_field_returns (document : Path) (d : Directives) (data : Data) (target : Value) :
    (Binding.field context (level context n) document d data target).Returns :=
  Walk.Congruence.field (Walk.returning.level n) rfl d data target (.refl target)

end Deeper

/-! ## §3 Walkers -/

/-- Makes calls one after the other. Each finds the state as the one before has left it, with a
    result or without. -/
def StateWalk.inTurn {α β : Type} (make : β → StateWalk α) :
    List β → WalkState → List (Except Error α)
  | [], _ => []
  | x :: rest, b =>
    match make x b with
    | .ok v after => .ok v :: inTurn make rest after
    | .error e after => .error e :: inTurn make rest after

namespace Walker

variable {α : Type}

/-- Makes actions one after the other, each from where the one before has left the walker. -/
def actions (w : Walker) : List Data → List (Except Error Value)
  | [] => []
  | entry :: rest => (w.action entry).1 :: (w.action entry).2.actions rest

/-- Whether a call keeps the state of a walker: what it comes to when it changes the state, and the
    state that it leaves, against what it comes to by levels, and the walker that it leaves. -/
structure KeepsState (w : Walker) (kept : Except Error α × WalkState)
    (run : Except Error α × Walker) : Prop where
  outcome : kept.1 = run.1
  walker : run.2 = { w with location := kept.2.location }
  document : kept.2.document = w.document
  depth : kept.2.depth = w.depth
  /-- With a result the walker is where it was. -/
  returned : ∀ x, run.1 = .ok x → kept.2.location = w.location
  /-- Stopped, it has opened frames on top of those that were open. -/
  stopped : ∀ e, run.1 = .error e → w.location.frames <:+ kept.2.location.frames

/-- A call keeps the state if it goes as a walk does that returns. -/
theorem keepsState_of_agrees (w : Walker) (below : Calls) {k : Calls → StateWalk α}
    {walk : Deeper → Path → Walk α}
    (hagrees : StateWalk.Agrees w.document w.depth (k (Calls.level w.context below (maxDepth + 1)))
      (walk (Deeper.level w.context (maxDepth - w.depth)) w.document))
    (hreturns : (walk (Deeper.level w.context (maxDepth - w.depth)) w.document).Returns) :
    w.KeepsState (w.runState below k) (w.run walk) := by
  obtain ⟨peak, -, hkeep⟩ := w.runState_eq_run below hagrees
  have hplace := hreturns w.location
  rw [hkeep]
  unfold run
  cases h : walk (Deeper.level w.context (maxDepth - w.depth)) w.document w.location with
  | ok x reached =>
    rw [h] at hplace
    exact ⟨rfl, rfl, rfl, rfl, fun _ _ => hplace, fun _ he => (nomatch he)⟩
  | error e reached =>
    rw [h] at hplace
    exact ⟨rfl, rfl, rfl, rfl, fun _ hx => (nomatch hx), fun _ _ => hplace⟩

/-- Wherever a walk leads, the walker goes along and is the same otherwise. -/
theorem run_walker (w : Walker) (walk : Deeper → Path → Walk α) :
    ∃ reached, (w.run walk).2 = { w with location := reached } := by
  unfold run
  cases walk (Deeper.level w.context (maxDepth - w.depth)) w.document w.location <;>
    exact ⟨_, rfl⟩

/-- Making an action keeps the state of a walker. -/
theorem keepsState_action (w : Walker) (below : Calls) (entry : Data) :
    w.KeepsState (w.runState below (·.action entry)) (w.action entry) :=
  w.keepsState_of_agrees below ((w.calls_agree below).action _ entry)
    (Deeper.level_action_returns _ _ _ entry)

/-- Where calls change the state, actions come out one after the other as the walker makes them.
    What the state says of the peak does not matter. -/
theorem inTurn_action (w : Walker) (below : Calls) (entries : List Data) (peak : Nat) :
    StateWalk.inTurn (Calls.level w.context below (maxDepth + 1)).action entries
      { w.state with peak } = w.actions entries := by
  induction entries generalizing w peak with
  | nil => rfl
  | cons entry rest ih =>
    obtain ⟨peak', -, hcall⟩ :=
      (w.calls_agree below).action w.document entry { w.state with peak } rfl rfl
    rw [StateWalk.inTurn, hcall]
    simp only [actions, action, run, state]
    -- either way the rest starts from the walker that the call has left
    cases (Deeper.level w.context (maxDepth - w.depth)).action w.document entry w.location with
    | ok v reached => exact congrArg (Except.ok v :: ·) (ih { w with location := reached } peak')
    | error e reached =>
      exact congrArg (Except.error e :: ·) (ih { w with location := reached } peak')

/-- Each of some actions comes to what it would come to from any place. -/
theorem actions_root (w : Walker) (entries : List Data) (l : Location) :
    (w.actions entries).map (·.mapError Error.root) =
      entries.map fun entry =>
        (({ w with location := l } : Walker).action entry).1.mapError Error.root := by
  induction entries generalizing w with
  | nil => rfl
  | cons entry rest ih =>
    have hfirst : (w.action entry).1.mapError Error.root =
        (({ w with location := l } : Walker).action entry).1.mapError Error.root :=
      (w.root_action entry).trans (root_action { w with location := l } entry).symm
    -- a call moves the walker, and no more
    obtain ⟨reached, hreached⟩ := w.run_walker fun deeper document => deeper.action document entry
    have hrest := ih { w with location := reached }
    simp only [actions, List.map_cons, hfirst]
    refine congrArg _ ?_
    show List.map _ ((w.run _).2.actions rest) = _
    rw [hreached]
    exact hrest

/-- A walker keeps its state. Binding by a shape, binding a field and making an action come to the
    same when they change the state as by levels, and whatever they come to, the depth and the
    document are those from before. With a result the walker is where it was; stopped, it is inside
    of frames that it has opened on top of those that were open.

    So an action depends on no frames that stopped actions have left open: of any made one after the
    other, each comes to what it comes to from any other place. -/
theorem state_kept (w : Walker) (below : Calls) :
    (∀ data target,
      w.KeepsState (w.runState below (·.assign data target)) (w.assign data target)) ∧
    (∀ d data target,
      w.KeepsState (w.runState below (StateWalk.field w.context · d data target))
        (w.field d data target)) ∧
    (∀ entry, w.KeepsState (w.runState below (·.action entry)) (w.action entry)) ∧
    ∀ entries (l : Location),
      StateWalk.inTurn (Calls.level w.context below (maxDepth + 1)).action entries w.state =
        w.actions entries ∧
      (w.actions entries).map (·.mapError Error.root) = entries.map fun entry =>
        (({ w with location := l } : Walker).action entry).1.mapError Error.root := by
  have hagree := w.calls_agree below
  refine ⟨fun data target => ?_, fun d data target => ?_, w.keepsState_action below,
    fun entries l => ?_⟩
  · exact w.keepsState_of_agrees below (hagree.assign _ data target)
      (Deeper.level_assign_returns _ _ _ data target)
  · exact w.keepsState_of_agrees below (StateWalk.field_agree hagree d data target)
      (Deeper.level_field_returns _ _ _ d data target)
  · exact ⟨w.inTurn_action below entries w.depth, w.actions_root entries l⟩

/-- A request that is stopped at its path leaves a frame open. A benchmark after it is accepted, and
    is the one that a walker makes which has not been anywhere. -/
theorem state_kept_request :
    let walker := fresh ⟨StoredFiles.empty.fileSystem, .standard, false⟩
    let request := Data.map [("request/web", .map [("path", .int 1)])]
    let benchmark := Data.text "bench/web"
    (walker.action request).2.location.text = "path" ∧
      ∃ made, (walker.action benchmark).1 = .ok made ∧
        (walker.actions [request, benchmark]).map (·.mapError Error.root) =
          [.error (.mismatch "string" "int"), .ok made] := by
  intro walker request benchmark
  have hstopped : (walker.action request).1 =
      .error (.located "" "path" (.cause (.mismatch "string" "int"))) :=
    error_of_error?_eq_some (by decide +kernel)
  have hsome : (walker.action benchmark).1.toOption.isSome = true := by decide +kernel
  obtain ⟨made, hmade⟩ := Option.isSome_iff_exists.mp hsome
  have hok : (walker.action benchmark).1 = .ok made := ok_of_toOption_eq_some hmade
  -- nothing is called below the levels, so refusing it all will do
  let refusing : Calls := ⟨fun _ _ => .fail (.tooDeep 0), fun _ _ _ => .fail (.tooDeep 0),
    fun _ => .fail (.tooDeep 0)⟩
  obtain ⟨-, -, -, hinTurn⟩ := state_kept walker refusing
  have hroots := (hinTurn [request, benchmark] walker.location).2
  refine ⟨by decide +kernel, made, hok, hroots.trans ?_⟩
  show [(walker.action request).1.mapError Error.root,
    (walker.action benchmark).1.mapError Error.root] = _
  rw [hstopped, hok]
  rfl

end Walker

end Testbed
