import Testbed.Proofs.Binding.Congruence

/-!
# What walks come to

A walk carries a location along, and only the texts of its errors depend on it. `outcome` is what a
walk comes to when locations are left out: its result, or the cause that stopped it.

`Approximates` compares two walks: the first comes to what the second comes to, wherever the two
begin, unless it is stopped for having gone too deep. Every function of binding keeps to this
comparison when the functions one level further down do, so

- a walk with fewer levels left comes to what one with more levels comes to, or is too deep
  (`Deeper.level_approximates`), and so does one in another document of the same directory
  (`Walk.approximation`);
- no walk depends on where it begins (`Approximates.outcome_eq`), and `outcome` turns walks into
  plain computations step by step.
-/

namespace Testbed

namespace Walk

variable {α β : Type}

/-! ## §1 Outcomes -/

/-- What a walk that begins at a location comes to. -/
def outcomeFrom (l : Location) (w : Walk α) : Except Cause α :=
  match w l with
  | .ok x _ => .ok x
  | .error e _ => .error e.root

/-- What a walk comes to. -/
def outcome (w : Walk α) : Except Cause α :=
  w.outcomeFrom .outside

/-- The outcome of a walk that is stopped for having gone too deep. -/
def tooDeep : Except Cause α :=
  .error (.tooDeep maxDepth)

/-- Whether a walk comes to what another one comes to, wherever they begin, unless it is stopped
    for having gone too deep. -/
def Approximates (w w' : Walk α) : Prop :=
  ∀ l l', w.outcomeFrom l = tooDeep ∨ w.outcomeFrom l = w'.outcomeFrom l'

/-- A walk that goes on comes to what its rest comes to from where it has got. -/
theorem outcomeFrom_bind (l : Location) (w : Walk α) (f : α → Walk β) :
    (w >>= f).outcomeFrom l =
      match w l with
      | .ok x m => (f x).outcomeFrom m
      | .error e _ => .error e.root := by
  simp only [outcomeFrom, bind, EStateM.bind]
  cases w l <;> rfl

/-- A walk that begins by moving the location goes on from where it has moved to. -/
theorem modify_bind_apply (move : Location → Location) (rest : Unit → Walk β) (l : Location) :
    ((modify move : Walk Unit) >>= rest) l = rest () (move l) :=
  rfl

namespace Approximates

variable {w w' : Walk α} {f f' : α → Walk β}

theorem pure (x : α) : Approximates (pure x) (pure x) :=
  fun _ _ => .inr rfl

theorem fail (cause : Cause) : Approximates (Walk.fail cause : Walk α) (Walk.fail cause) :=
  fun _ _ => .inr rfl

theorem lift (x : Except Cause α) : Approximates (Walk.lift x) (Walk.lift x) := by
  cases x with
  | ok x => exact pure x
  | error cause => exact fail cause

/-- Moving the location is nothing that an outcome shows. -/
theorem modify (move move' : Location → Location) :
    Approximates (modify move : Walk Unit) (modify move' : Walk Unit) :=
  fun _ _ => .inr rfl

theorem bind (hw : Approximates w w') (hf : ∀ x, Approximates (f x) (f' x)) :
    Approximates (w >>= f) (w' >>= f') := by
  intro l l'
  rw [outcomeFrom_bind, outcomeFrom_bind]
  have hfirst := hw l l'
  unfold outcomeFrom at hfirst
  cases h : w l with
  | error e m =>
    rw [h] at hfirst
    rcases hfirst with hdeep | heq
    · exact .inl (by simpa [tooDeep] using hdeep)
    · -- both have failed, and for one cause
      cases h' : w' l' with
      | error e' m' => exact .inr (by simpa [h'] using heq)
      | ok x' m' => simp [h'] at heq
  | ok x m =>
    rw [h] at hfirst
    rcases hfirst with hdeep | heq
    · simp [tooDeep] at hdeep
    · -- both go on, with one result but from different places
      cases h' : w' l' with
      | error e' m' => simp [h'] at heq
      | ok x' m' =>
        obtain rfl : x = x' := by simpa [h'] using heq
        exact hf x m m'

theorem located (p q : Path) (hw : Approximates w w') :
    Approximates (Walk.located p w) (Walk.located q w') := by
  have hsame (document : Path) (l : Location) (v : Walk α) :
      (Walk.located document v).outcomeFrom l = v.outcomeFrom l := by
    simp only [outcomeFrom, Walk.located]
    cases v l <;> simp
  intro l l'
  rw [hsame, hsame]
  exact hw l l'

theorem insideMap (hw : Approximates w w') : Approximates w.insideMap w'.insideMap :=
  bind (modify _ _) fun _ => bind hw fun x => bind (modify _ _) fun _ => pure x

theorem insideList (hw : Approximates w w') : Approximates w.insideList w'.insideList :=
  bind (modify _ _) fun _ => bind hw fun x => bind (modify _ _) fun _ => pure x

end Approximates

/-! ## §2 Walks that do not depend on where they begin -/

section

variable {w : Walk α} {f : α → Walk β}

/-- A walk that approximates itself comes to the same from any two locations. -/
theorem Approximates.outcomeFrom_eq (hw : Approximates w w) (l l' : Location) :
    w.outcomeFrom l = w.outcomeFrom l' := by
  rcases hw l l' with hdeep | heq
  · rcases hw l' l with hdeep' | heq
    · rw [hdeep, hdeep']
    · exact heq.symm
  · exact heq

/-- A walk that approximates itself comes to its outcome from any location. -/
theorem Approximates.outcome_eq (hw : Approximates w w) (l : Location) :
    w.outcomeFrom l = w.outcome :=
  hw.outcomeFrom_eq l .outside

/-- A walk that approximates another one comes to the same, if it is not too deep. -/
theorem Approximates.outcome {w' : Walk α} (hw : Approximates w w') :
    w.outcome = tooDeep ∨ w.outcome = w'.outcome :=
  hw _ _

@[simp] theorem outcome_pure (x : α) : (pure x : Walk α).outcome = .ok x := rfl

@[simp] theorem outcome_fail (cause : Cause) : (fail cause : Walk α).outcome = .error cause := rfl

@[simp] theorem outcome_lift (x : Except Cause α) : (lift x).outcome = x := by
  cases x <;> rfl

/-- The outcome of a walk that goes on is computed from those of its parts. -/
theorem outcome_bind (hf : ∀ x, Approximates (f x) (f x)) :
    (w >>= f).outcome = w.outcome >>= fun x => (f x).outcome := by
  rw [outcome, outcomeFrom_bind, outcome, outcomeFrom]
  cases h : w .outside with
  | error e m => rfl
  | ok x m => exact (hf x).outcome_eq m

/-- Moving the location does not change an outcome. -/
theorem outcome_modify_bind (move : Location → Location) {f : Unit → Walk β}
    (hf : ∀ x, Approximates (f x) (f x)) :
    ((modify move : Walk Unit) >>= f).outcome = (f ()).outcome :=
  outcome_bind hf

@[simp] theorem outcome_located (document : Path) : (w.located document).outcome = w.outcome := by
  simp only [outcome, outcomeFrom, located]
  cases w .outside <;> simp

@[simp] theorem outcome_insideMap (hw : Approximates w w) : w.insideMap.outcome = w.outcome := by
  have hrest (x : α) : Approximates (do modify Location.close; pure x : Walk α)
      (do modify Location.close; pure x) :=
    .bind (.modify _ _) fun _ => .pure x
  rw [insideMap, outcome_modify_bind _ fun _ => .bind hw hrest, outcome_bind hrest]
  cases w.outcome <;> rfl

@[simp] theorem outcome_insideList (hw : Approximates w w) : w.insideList.outcome = w.outcome := by
  have hrest (x : α) : Approximates (do modify Location.close; pure x : Walk α)
      (do modify Location.close; pure x) :=
    .bind (.modify _ _) fun _ => .pure x
  rw [insideList, outcome_modify_bind _ fun _ => .bind hw hrest, outcome_bind hrest]
  cases w.outcome <;> rfl

end

end Walk

/-! ## §3 The functions of binding -/

/-- Binding keeps to the comparison. Documents in one directory are not told apart. -/
def Walk.approximation : Walk.Congruence where
  Near p q := p.directory = q.directory
  Whole := Approximates
  Inside := Approximates
  near_self _ := rfl
  near_directory h := h
  pure := .pure
  fail := .fail
  bind := .bind
  located _ := .located _ _
  inside h := h
  atField _ := .modify _ _
  atIndex _ := .modify _ _
  andThen := .bind
  insideMap := .insideMap
  insideList := .insideList

/-- Whether what a walk may call one level further down approximates what another one may call. -/
def Deeper.Approximates (d d' : Deeper) : Prop :=
  Walk.approximation.Below d d'

namespace Deeper

variable {context : Context} {d d' : Deeper}

theorem Approximates.assign (h : d.Approximates d') (document : Path) (data : Data)
    (target : Value) :
    (d.assign document data target).Approximates (d'.assign document data target) :=
  Walk.Congruence.Below.assign h rfl data (.refl target)

theorem Approximates.fill (h : d.Approximates d') (f : Factory) (document : Path) (data : Data)
    (target : Value) :
    (d.fill f document data target).Approximates (d'.fill f document data target) :=
  Walk.Congruence.Below.fill h rfl f data (.inl (.refl target))

theorem Approximates.action (h : d.Approximates d') (document : Path) (entry : Data) :
    (d.action document entry).Approximates (d'.action document entry) :=
  Walk.Congruence.Below.action h rfl entry

/-- With fewer levels left a walk comes to the same, or it is too deep. -/
theorem level_approximates {m n : Nat} (h : m ≤ n) :
    (level context m).Approximates (level context n) := by
  induction m generalizing n with
  | zero =>
    exact ⟨fun _ _ _ _ _ _ _ => .inl rfl, fun _ _ _ _ _ _ _ _ => .inl rfl,
      fun _ _ _ _ => .inl rfl⟩
  | succ m ih =>
    cases n with
    | zero => exact absurd h (by omega)
    | succ n => exact Walk.Congruence.step (ih (show m ≤ n by omega))

/-- No walk on a level depends on where it begins. -/
theorem level_self (n : Nat) : (level context n).Approximates (level context n) :=
  level_approximates (Nat.le_refl n)

end Deeper

/-! ## §4 Walkers -/

/-- What a walker's run gives is what the walk comes to at the walker's place. -/
theorem Walker.run_outcome {α : Type} (w : Walker) (walk : Deeper → Path → Walk α) :
    (w.run walk).1.mapError Error.root =
      (walk (Deeper.level w.context (maxDepth - w.depth)) w.document).outcomeFrom w.location := by
  unfold Walker.run Walk.outcomeFrom
  cases walk (Deeper.level w.context (maxDepth - w.depth)) w.document w.location <;> rfl

/-- Making an action comes to the same wherever the walker is. -/
theorem Walker.root_action (w : Walker) (entry : Data) :
    (w.action entry).1.mapError Error.root =
      ((Deeper.level w.context (maxDepth - w.depth)).action w.document entry).outcome :=
  (w.run_outcome _).trans
    (((Deeper.level_self _).action w.document entry).outcome_eq w.location)

/-- Binding by a shape comes to the same wherever the walker is. -/
theorem Walker.root_assign (w : Walker) (data : Data) (target : Value) :
    (w.assign data target).1.mapError Error.root =
      ((Deeper.level w.context (maxDepth - w.depth)).assign w.document data target).outcome :=
  (w.run_outcome _).trans
    (((Deeper.level_self _).assign w.document data target).outcome_eq w.location)

/-- Binding a field comes to the same wherever the walker is. -/
theorem Walker.root_field (w : Walker) (d : Directives) (data : Data) (target : Value) :
    (w.field d data target).1.mapError Error.root =
      (Binding.field w.context (Deeper.level w.context (maxDepth - w.depth)) w.document d data
        target).outcome := by
  have happroximates : Walk.Approximates
      (Binding.field w.context (Deeper.level w.context (maxDepth - w.depth)) w.document d data
        target)
      (Binding.field w.context (Deeper.level w.context (maxDepth - w.depth)) w.document d data
        target) :=
    Walk.Congruence.field (Deeper.level_self _) rfl d data target (.refl target)
  exact (w.run_outcome _).trans (happroximates.outcome_eq w.location)

end Testbed
