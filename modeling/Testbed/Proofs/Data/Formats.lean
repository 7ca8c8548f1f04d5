import Testbed.Document.Basic
import Testbed.Proofs.Data.Sorted
import Testbed.Proofs.Results

/-!
# Data that is read

The maps in data that is read from a document stand in the order of their keys, whatever the
document is written in, so none of them has a key twice (`Document.load_ordered`). JSON and YAML
make a map of all its entries at once. TOML puts one thing after another into tables, and what each
line does to them keeps all tables in order.
-/

namespace Testbed

theorem eq_some_of_orElse {α : Type} {o o' : Option α} {a : α} (h : (o <|> o') = some a) :
    o = some a ∨ o' = some a := by
  cases o with
  | none => exact .inr h
  | some b => exact .inl h

/-! ## §1 JSON -/

namespace Json

open Number

theorem isScalar_integerData (negative : Bool) (significand : Nat) :
    (integerData negative significand).isScalar = true := by
  unfold integerData
  split
  · rfl
  · split <;> rfl

theorem isScalar_number? {negative : Bool} {cs rest : List Char} {x : Data}
    (h : number? negative cs = some (x, rest)) : x.isScalar = true := by
  simp only [number?] at h
  split at h
  · cases h
  · cases h
  · obtain ⟨-, h⟩ := Option.ite_none_left_eq_some.mp h
    obtain ⟨⟨exponent, rest'⟩, -, h⟩ := Option.bind_eq_some_iff.mp h
    split_ifs at h
    · cases h
      exact isScalar_integerData _ _
    · obtain ⟨y, -, h⟩ := Option.bind_eq_some_iff.mp h
      cases h
      rfl

/-- What is read with some number of steps is in order. -/
theorem value?_ordered (fuel : Nat) :
    (∀ depth cs x rest, value? fuel depth cs = some (x, rest) → x.Ordered) ∧
    (∀ depth cs xs rest, items? fuel depth cs = some (xs, rest) → ∀ x ∈ xs, x.Ordered) ∧
    (∀ depth cs es rest, members? fuel depth cs = some (es, rest) → ∀ e ∈ es, e.2.Ordered) := by
  -- the three readers call each other with less fuel
  induction fuel with
  | zero => exact ⟨nofun, nofun, nofun⟩
  | succ fuel ih =>
    obtain ⟨hvalue, hitems, hmembers⟩ := ih
    refine ⟨?_, ?_, ?_⟩
    · intro depth cs x rest h
      unfold value? at h
      split at h
      · obtain ⟨_, -, heq⟩ := Option.map_eq_some_iff.mp h
        cases heq
        exact .null
      · obtain ⟨_, -, heq⟩ := Option.map_eq_some_iff.mp h
        cases heq
        exact .bool true
      · obtain ⟨_, -, heq⟩ := Option.map_eq_some_iff.mp h
        cases heq
        exact .bool false
      · obtain ⟨_, -, heq⟩ := Option.map_eq_some_iff.mp h
        cases heq
        exact .text _
      · exact .of_isScalar (isScalar_number? h)
      · split at h
        · cases h
        · split at h
          · cases h
            exact .list nofun
          · obtain ⟨_, hxs, heq⟩ := Option.map_eq_some_iff.mp h
            cases heq
            exact .list (hitems _ _ _ _ hxs)
      · split at h
        · cases h
        · split at h
          · cases h
            exact Data.ordered_nil
          · obtain ⟨_, hes, heq⟩ := Option.map_eq_some_iff.mp h
            cases heq
            -- the entries are put in order when the map is made of them
            exact .ofList (hmembers _ _ _ _ hes)
      · exact .of_isScalar (isScalar_number? h)
    · intro depth cs xs rest h
      unfold items? at h
      obtain ⟨⟨x, rest'⟩, hx, h⟩ := Option.bind_eq_some_iff.mp h
      have hx := hvalue _ _ _ _ hx
      dsimp only at h
      split at h
      · obtain ⟨_, hxs, heq⟩ := Option.map_eq_some_iff.mp h
        cases heq
        exact List.forall_mem_cons.mpr ⟨hx, hitems _ _ _ _ hxs⟩
      · cases h
        exact List.forall_mem_singleton.mpr hx
      · cases h
    · intro depth cs es rest h
      unfold members? at h
      split at h
      · obtain ⟨⟨key, rest'⟩, -, h⟩ := Option.bind_eq_some_iff.mp h
        dsimp only at h
        split at h
        · obtain ⟨⟨x, rest'⟩, hx, h⟩ := Option.bind_eq_some_iff.mp h
          have hx := hvalue _ _ _ _ hx
          dsimp only at h
          split at h
          · obtain ⟨_, hes, heq⟩ := Option.map_eq_some_iff.mp h
            cases heq
            exact List.forall_mem_cons.mpr ⟨hx, hmembers _ _ _ _ hes⟩
          · cases h
            exact List.forall_mem_singleton.mpr hx
          · cases h
        · cases h
      · cases h

/-- What is read from JSON is in order, by induction on how deep it may nest. -/
theorem read?_ordered {depth : Nat} {cs : List Char} {x : Data} (h : read? depth cs = some x) :
    x.Ordered := by
  obtain ⟨⟨y, rest⟩, hy, h⟩ := Option.bind_eq_some_iff.mp h
  dsimp only at h
  split at h
  · cases h
    exact (value?_ordered _).1 _ _ _ _ hy
  · cases h

end Json

/-! ## §2 TOML -/

namespace Toml

theorem entriesData_eq_map (es : List (String × Item)) :
    entriesData es = es.map fun e => (e.1, e.2.data) := by
  induction es with
  | nil => rfl
  | cons e rest ih => rw [entriesData, ih, List.map_cons]

theorem tablesData_eq_map (ts : List Table) : tablesData ts = ts.map Table.data := by
  induction ts with
  | nil => rfl
  | cons t rest ih => rw [tablesData, ih, List.map_cons]

namespace Table

variable {t child : Table} {key : String} {item : Item}

/-- A table is shown as the map of its entries. -/
theorem data_eq (t : Table) : t.data = .map (t.entries.map fun e => (e.1, e.2.data)) := by
  cases t
  rw [Table.data, entriesData_eq_map]
  rfl

/-- A table stays in order when an item is set. -/
theorem ordered_set (ht : t.data.Ordered) (hitem : item.data.Ordered) :
    (t.set key item).data.Ordered := by
  rw [data_eq] at ht ⊢
  rw [set, entries, Keyed.map_insert]
  exact ht.insert hitem

theorem ordered_of_get? (ht : t.data.Ordered) (h : Keyed.get? key t.entries = some item) :
    item.data.Ordered := by
  rw [data_eq] at ht
  exact ht.entry (List.mem_map_of_mem (Keyed.mem_of_get?_eq_some h))


theorem ordered_empty : empty.data.Ordered := by
  rw [data_eq]
  exact Data.ordered_nil

/-- A change that keeps a table in order keeps the tables around it in order. -/
theorem ordered_change? {byKey : Bool} {path : List String} {f : Table → Option Table} {t' : Table}
    (hf : ∀ t t', t.data.Ordered → f t = some t' → t'.data.Ordered) (ht : t.data.Ordered)
    (h : change? byKey path f t = some t') : t'.data.Ordered := by
  induction path generalizing t t' with
  | nil => exact hf t t' ht h
  | cons key path ih =>
    unfold change? at h
    split at h
    · obtain ⟨child, hchild, rfl⟩ := Option.map_eq_some_iff.mp h
      refine ordered_set ht (ih ?_ hchild)
      rw [data_eq]
      exact Data.ordered_nil
    · next child hget =>
      split at h
      · cases h
      · obtain ⟨child', hchild, rfl⟩ := Option.map_eq_some_iff.mp h
        exact ordered_set ht (ih (ordered_of_get? ht hget) hchild)
    · next earlier last hget =>
      obtain ⟨last', hlast, rfl⟩ := Option.map_eq_some_iff.mp h
      have htables : (Data.list (tablesData earlier ++ [last.data])).Ordered :=
        ordered_of_get? ht hget
      have hlast' := ih (htables.item (by simp)) hlast
      refine ordered_set ht (.list fun x hx => ?_)
      rcases List.mem_append.mp hx with hx | hx
      · exact htables.item (List.mem_append_left _ hx)
      · exact List.mem_singleton.mp hx ▸ hlast'
    · cases h

/-- A table stays in order when a dotted key is assigned. -/
theorem ordered_assign? {parts : List String} {d : Data} {t' : Table} (ht : t.data.Ordered)
    (hd : d.Ordered) (h : t.assign? parts d = some t') : t'.data.Ordered := by
  obtain ⟨⟨path, key⟩, -, h⟩ := Option.bind_eq_some_iff.mp h
  refine ordered_change? (fun inner inner' hinner h => ?_) ht h
  obtain ⟨-, h⟩ := Option.ite_none_left_eq_some.mp h
  cases h
  exact ordered_set hinner hd

/-- A table stays in order when a header opens one inside of it. -/
theorem ordered_openTable? {parts : List String} {t' : Table} (ht : t.data.Ordered)
    (h : t.openTable? parts = some t') : t'.data.Ordered := by
  obtain ⟨⟨path, key⟩, -, h⟩ := Option.bind_eq_some_iff.mp h
  refine ordered_change? (fun outer outer' houter h => ?_) ht h
  split at h
  · cases h
    exact ordered_set houter ordered_empty
  · next inner hget =>
    obtain ⟨-, h⟩ := Option.ite_none_right_eq_some.mp h
    cases h
    refine ordered_set houter ?_
    have hinner := ordered_of_get? houter hget
    rw [Item.data, data_eq] at hinner
    rw [Item.data, data_eq]
    exact hinner
  · cases h

/-- A table stays in order when a header opens the next of an array. -/
theorem ordered_openNext? {parts : List String} {t' : Table} (ht : t.data.Ordered)
    (h : t.openNext? parts = some t') : t'.data.Ordered := by
  obtain ⟨⟨path, key⟩, -, h⟩ := Option.bind_eq_some_iff.mp h
  refine ordered_change? (fun outer outer' houter h => ?_) ht h
  split at h
  · cases h
    exact ordered_set houter (.list (by simpa [tablesData] using ordered_empty))
  · next earlier last hget =>
    cases h
    have htables : (Data.list (tablesData earlier ++ [last.data])).Ordered :=
      ordered_of_get? houter hget
    refine ordered_set houter (.list fun x hx => ?_)
    rw [tablesData_eq_map, List.map_append, ← tablesData_eq_map] at hx
    rcases List.mem_append.mp hx with hx | hx
    · exact htables.item hx
    · exact List.mem_singleton.mp hx ▸ ordered_empty
  · cases h

end Table

theorem isScalar_decimal? {negative : Bool} {cs rest : List Char} {x : Data}
    (h : decimal? negative cs = some (x, rest)) : x.isScalar = true := by
  obtain ⟨⟨ds, rest'⟩, -, h⟩ := Option.bind_eq_some_iff.mp h
  obtain ⟨-, h⟩ := Option.ite_none_left_eq_some.mp h
  dsimp only at h
  split_ifs at h <;> cases h <;> rfl

theorem isScalar_named? {cs rest : List Char} {x : Data} (h : named? cs = some (x, rest)) :
    x.isScalar = true := by
  unfold named? at h
  split at h <;> cases h <;> rfl

theorem isScalar_based? {base : Nat} {cs rest : List Char} {x : Data}
    (h : based? base cs = some (x, rest)) : x.isScalar = true := by
  obtain ⟨n, -, h⟩ := Option.bind_eq_some_iff.mp h
  obtain ⟨-, h⟩ := Option.ite_none_right_eq_some.mp h
  cases h
  rfl

theorem isScalar_integer? {cs rest : List Char} {x : Data} (h : integer? cs = some (x, rest)) :
    x.isScalar = true := by
  unfold integer? at h
  split at h
  · exact isScalar_based? h
  · exact isScalar_based? h
  · exact isScalar_based? h
  · obtain ⟨_, -, h⟩ := Option.bind_eq_some_iff.mp h
    obtain ⟨-, h⟩ := Option.ite_none_right_eq_some.mp h
    cases h
    rfl

theorem isScalar_bool? {cs rest : List Char} {x : Data} (h : bool? cs = some (x, rest)) :
    x.isScalar = true := by
  unfold bool? at h
  split at h <;> cases h <;> rfl

/-- A date or a time is in order. -/
theorem moment?_ordered {cs rest : List Char} {x : Data} (h : moment? cs = some (x, rest)) :
    x.Ordered := by
  have hmoment (text : String) : Data.Ordered (.map [(momentKey, .text text)]) :=
    (Data.Ordered.text text).singleton momentKey
  unfold moment? at h
  split at h
  · split at h <;> cases h <;> exact hmoment _
  · obtain ⟨⟨text, rest'⟩, -, h⟩ := Option.bind_eq_some_iff.mp h
    cases h
    exact hmoment text

/-- Whatever TOML writes on one line without brackets is in order. -/
theorem scalar?_ordered {cs rest : List Char} {x : Data} (h : scalar? cs = some (x, rest)) :
    x.Ordered := by
  rcases eq_some_of_orElse h with h | h
  · exact .of_isScalar (isScalar_bool? h)
  rcases eq_some_of_orElse h with h | h
  · exact moment?_ordered h
  rcases eq_some_of_orElse h with h | h
  · exact .of_isScalar (isScalar_decimal? h)
  rcases eq_some_of_orElse h with h | h
  · exact .of_isScalar (isScalar_named? h)
  · exact .of_isScalar (isScalar_integer? h)

/-- What is read with some number of steps is in order. -/
theorem value?_ordered (fuel : Nat) :
    (∀ depth cs x rest, value? fuel depth cs = some (x, rest) → x.Ordered) ∧
    (∀ depth cs xs rest, items? fuel depth cs = some (xs, rest) → ∀ x ∈ xs, x.Ordered) ∧
    (∀ depth t cs t' rest, t.data.Ordered → pairs? fuel depth t cs = some (t', rest) →
      t'.data.Ordered) := by
  -- the three readers call each other with less fuel; pairs go into a table that is in order
  induction fuel with
  | zero => exact ⟨nofun, nofun, nofun⟩
  | succ fuel ih =>
    obtain ⟨hvalue, hitems, hpairs⟩ := ih
    refine ⟨?_, ?_, ?_⟩
    · intro depth cs x rest h
      unfold value? at h
      split at h
      · obtain ⟨_, -, heq⟩ := Option.map_eq_some_iff.mp h
        cases heq
        exact .text _
      · obtain ⟨_, -, heq⟩ := Option.map_eq_some_iff.mp h
        cases heq
        exact .text _
      · obtain ⟨_, hxs, heq⟩ := Option.map_eq_some_iff.mp h
        cases heq
        exact .list (hitems _ _ _ _ hxs)
      · split at h
        · cases h
          exact Data.ordered_nil
        · obtain ⟨_, ht, heq⟩ := Option.map_eq_some_iff.mp h
          cases heq
          exact hpairs _ _ _ _ _ Table.ordered_empty ht
      · exact scalar?_ordered h
    · intro depth cs xs rest h
      unfold items? at h
      obtain ⟨cs', -, h⟩ := Option.bind_eq_some_iff.mp h
      split at h
      · cases h
        exact nofun
      · obtain ⟨⟨x, rest'⟩, hx, h⟩ := Option.bind_eq_some_iff.mp h
        have hx := hvalue _ _ _ _ hx
        obtain ⟨rest'', -, h⟩ := Option.bind_eq_some_iff.mp h
        split at h
        · obtain ⟨_, hxs, heq⟩ := Option.map_eq_some_iff.mp h
          cases heq
          exact List.forall_mem_cons.mpr ⟨hx, hitems _ _ _ _ hxs⟩
        · cases h
          exact List.forall_mem_singleton.mpr hx
        · cases h
    · intro depth t cs t' rest ht h
      unfold pairs? at h
      obtain ⟨⟨key, after⟩, -, h⟩ := Option.bind_eq_some_iff.mp h
      split at h
      · obtain ⟨⟨x, rest'⟩, hx, h⟩ := Option.bind_eq_some_iff.mp h
        have hx := hvalue _ _ _ _ hx
        obtain ⟨t'', ht'', h⟩ := Option.bind_eq_some_iff.mp h
        have ht'' := Table.ordered_assign? ht hx ht''
        split at h
        · exact hpairs _ _ _ _ _ ht'' h
        · cases h
          exact ht''
        · cases h
      · cases h

/-- A line with a key keeps the document in order. -/
theorem keyLine?_ordered {p p' : Progress} {cs rest : List Char} (hp : p.root.data.Ordered)
    (h : keyLine? p cs = some (p', rest)) : p'.root.data.Ordered := by
  obtain ⟨⟨key, after⟩, -, h⟩ := Option.bind_eq_some_iff.mp h
  split at h
  · obtain ⟨⟨x, rest'⟩, hx, h⟩ := Option.bind_eq_some_iff.mp h
    have hx := (value?_ordered _).1 _ _ _ _ hx
    obtain ⟨rest'', -, h⟩ := Option.bind_eq_some_iff.mp h
    obtain ⟨root, hroot, h⟩ := Option.bind_eq_some_iff.mp h
    cases h
    exact Table.ordered_change? (fun t t' ht h => Table.ordered_assign? ht hx h) hp hroot
  · cases h

/-- A header keeps the document in order. -/
theorem headerLine?_ordered {p p' : Progress} {cs rest : List Char} (hp : p.root.data.Ordered)
    (h : headerLine? p cs = some (p', rest)) : p'.root.data.Ordered := by
  unfold headerLine? at h
  split at h
  · obtain ⟨⟨header, after⟩, -, h⟩ := Option.bind_eq_some_iff.mp h
    split at h
    · obtain ⟨rest', -, h⟩ := Option.bind_eq_some_iff.mp h
      obtain ⟨root, hroot, h⟩ := Option.bind_eq_some_iff.mp h
      cases h
      exact Table.ordered_openNext? hp hroot
    · cases h
  · obtain ⟨⟨header, after⟩, -, h⟩ := Option.bind_eq_some_iff.mp h
    split at h
    · obtain ⟨rest', -, h⟩ := Option.bind_eq_some_iff.mp h
      obtain ⟨root, hroot, h⟩ := Option.bind_eq_some_iff.mp h
      cases h
      exact Table.ordered_openTable? hp hroot
    · cases h
  · cases h

/-- The lines of a document keep it in order, one after the other. -/
theorem document?_ordered {fuel : Nat} {p p' : Progress} {cs : List Char}
    (hp : p.root.data.Ordered) (h : document? fuel p cs = some p') : p'.root.data.Ordered := by
  induction fuel generalizing p cs with
  | zero => cases h
  | succ fuel ih =>
    unfold document? at h
    obtain ⟨cs', -, h⟩ := Option.bind_eq_some_iff.mp h
    split at h
    · cases h
      exact hp
    · split at h
      · obtain ⟨⟨q, rest⟩, hq, h⟩ := Option.bind_eq_some_iff.mp h
        exact ih (headerLine?_ordered hp hq) h
      · obtain ⟨⟨q, rest⟩, hq, h⟩ := Option.bind_eq_some_iff.mp h
        exact ih (keyLine?_ordered hp hq) h

theorem read?_ordered {cs : List Char} {x : Data} (h : read? cs = some x) : x.Ordered := by
  obtain ⟨p, hp, h⟩ := Option.bind_eq_some_iff.mp h
  cases h
  exact document?_ordered Table.ordered_empty hp

end Toml

/-! ## §3 YAML -/

namespace Yaml

/-- What holds of what is made from each element holds of all that is made. -/
theorem forall_of_mapM {α β : Type} {P : β → Prop} {f : α → Resolver β}
    (hf : ∀ a left b left', f a left = some (b, left') → P b) {xs : List α} {left left' : Nat}
    {ys : List β} (h : xs.mapM f left = some (ys, left')) : ∀ y ∈ ys, P y := by
  induction xs generalizing left ys with
  | nil => cases h; exact nofun
  | cons x rest ih =>
    rw [List.mapM_cons] at h
    obtain ⟨⟨y, left₁⟩, hy, h⟩ := Option.bind_eq_some_iff.mp h
    obtain ⟨⟨zs, left₂⟩, hzs, h⟩ := Option.bind_eq_some_iff.mp h
    cases h
    exact List.forall_mem_cons.mpr ⟨hf _ _ _ _ hy, ih hzs⟩

theorem isScalar_null? {s : String} {x : Data} (h : null? s = some x) : x.isScalar = true := by
  obtain ⟨-, h⟩ := Option.ite_none_right_eq_some.mp h
  cases h
  rfl

theorem isScalar_bool? {s : String} {x : Data} (h : bool? s = some x) : x.isScalar = true := by
  unfold bool? at h
  split_ifs at h <;> cases h <;> rfl

theorem isScalar_float? {cs : List Char} {x : Data} (h : float? cs = some x) :
    x.isScalar = true := by
  unfold float? at h
  dsimp only at h
  split_ifs at h <;> try (cases h; rfl)
  split at h
  · obtain ⟨-, h⟩ := Option.ite_none_right_eq_some.mp h
    cases h
    rfl
  · cases h

theorem isScalar_integerData? {cs : List Char} {x : Data} (h : integerData? cs = some (some x)) :
    x.isScalar = true := by
  unfold integerData? at h
  split at h
  · cases h
  · split_ifs at h <;> cases h
    rfl

theorem isScalar_plainData? {s : String} {x : Data} (h : plainData? s = some x) :
    x.isScalar = true := by
  unfold plainData? at h
  dsimp only at h
  split at h
  · cases h
    rfl
  · split at h
    · next y hy =>
      cases h
      exact (eq_some_of_orElse hy).elim isScalar_null? isScalar_bool?
    · split at h
      · next hinteger =>
        subst h
        exact isScalar_integerData? hinteger
      · split at h
        · cases h
          rfl
        · cases h
          cases hfloat : float? s.toList with
          | none => rfl
          | some y => exact isScalar_float? hfloat

/-- A scalar in a YAML document is one, with a tag or without. -/
theorem isScalar_scalarData? {tag : Option String} {plain : Bool} {s : String} {x : Data}
    (h : scalarData? tag plain s = some x) : x.isScalar = true := by
  unfold scalarData? at h
  split at h
  · exact isScalar_null? h
  · exact isScalar_bool? h
  · exact isScalar_integerData? (Option.join_eq_some_iff.mp h)
  · exact isScalar_float? h
  · cases h
    rfl
  · split at h
    · exact isScalar_plainData? h
    · cases h
      rfl

/-- No equations are made for the definition, as it goes by a node that stands for the one that it
    is given. -/
theorem nodeData_zero (anchored : List (Nat × Node)) (n : Node) :
    nodeData anchored 0 n = (do
      let n ← target anchored n
      if n.hasLocalTag then fun _ => none
      else match n with
        | .scalar tag plain text => fun left => (scalarData? tag plain text).map (·, left)
        | _ => fun _ => none) := by
  delta nodeData
  refine congrArg (target anchored n >>= ·) (funext fun m => ?_)
  cases m <;> rfl

theorem nodeData_succ (anchored : List (Nat × Node)) (depth : Nat) (n : Node) :
    nodeData anchored (depth + 1) n = (do
      let n ← target anchored n
      if n.hasLocalTag then fun _ => none
      else match n with
        | .scalar tag plain text => fun left => (scalarData? tag plain text).map (·, left)
        | .sequence _ items => .list <$> items.mapM (nodeData anchored depth)
        | .mapping _ entries => do
          let es ← entries.mapM fun (k, v) => do
            let key ← keyText anchored k
            let d ← nodeData anchored depth v
            pure (key, d)
          pure (.map (Keyed.ofList es))
        | .alias _ => fun _ => none) := by
  delta nodeData
  refine congrArg (target anchored n >>= ·) (funext fun m => ?_)
  cases m <;> rfl

/-- A node of a YAML document is shown in order, aliases included. -/
theorem nodeData_ordered {anchored : List (Nat × Node)} {depth : Nat} {n : Node} {left left' : Nat}
    {x : Data} (h : nodeData anchored depth n left = some (x, left')) : x.Ordered := by
  have hscalar {tag : Option String} {plain : Bool} {text : String} {left left' : Nat} {x : Data}
      (h : (scalarData? tag plain text).map (·, left) = some (x, left')) : x.Ordered := by
    obtain ⟨y, hy, heq⟩ := Option.map_eq_some_iff.mp h
    cases heq
    exact .of_isScalar (isScalar_scalarData? hy)
  -- an alias leads to a node of any depth, so the induction is on how deep nodes may still nest
  induction depth generalizing n left x left' with
  | zero =>
    rw [nodeData_zero] at h
    obtain ⟨⟨m, left₁⟩, -, h⟩ := Option.bind_eq_some_iff.mp h
    dsimp only at h
    split at h
    · cases h
    · split at h
      · exact hscalar h
      · cases h
  | succ depth ih =>
    rw [nodeData_succ] at h
    obtain ⟨⟨m, left₁⟩, -, h⟩ := Option.bind_eq_some_iff.mp h
    dsimp only at h
    split at h
    · cases h
    · split at h
      · exact hscalar h
      · next items =>
        obtain ⟨⟨xs, left₂⟩, hxs, h⟩ := Option.bind_eq_some_iff.mp h
        cases h
        exact .list (forall_of_mapM (fun _ _ _ _ h => ih h) hxs)
      · next entries =>
        obtain ⟨⟨es, left₂⟩, hes, h⟩ := Option.bind_eq_some_iff.mp h
        cases h
        refine .ofList (forall_of_mapM (fun e left y left' h => ?_) hes)
        obtain ⟨⟨key, left₃⟩, -, h⟩ := Option.bind_eq_some_iff.mp h
        obtain ⟨⟨d, left₄⟩, hd, h⟩ := Option.bind_eq_some_iff.mp h
        cases h
        exact ih hd
      · cases h

theorem read?_ordered {cs : List Char} {x : Data} (h : read? cs = some x) : x.Ordered := by
  unfold read? at h
  split at h
  · cases h
    exact .null
  · obtain ⟨tokens, -, h⟩ := Option.bind_eq_some_iff.mp h
    obtain ⟨stream, -, h⟩ := Option.bind_eq_some_iff.mp h
    obtain ⟨⟨y, left⟩, hy, rfl⟩ := Option.map_eq_some_iff.mp h
    exact nodeData_ordered hy

end Yaml

/-! ## §4 Documents -/

namespace Document

/-- What is read from a document is in order, in any format. -/
theorem parse_ordered {format : Format} {bytes : List UInt8} {es : List (String × Data)}
    (h : parse format bytes = .ok es) : (Data.map es).Ordered := by
  unfold parse at h
  split at h
  · cases h
  · split at h
    · next cs _ x hx =>
      have hx : x.Ordered := by
        cases format with
        | json => exact Json.read?_ordered hx
        | yaml => exact Yaml.read?_ordered hx
        | toml => exact Toml.read?_ordered hx
      unfold entriesOf at h
      split at h
      · cases h
        exact hx
      · cases h
        exact Data.ordered_nil
      · cases h
    · cases h

/-- The data of a document that is loaded stands in order. -/
theorem load_ordered {files : FileSystem} {path : Path} {d : Document}
    (h : load files path = .ok d) : (Data.map d.entries).Ordered := by
  unfold load at h
  dsimp only at h
  split at h
  · next es hes =>
    cases h
    split at hes
    · cases hes
    · split at hes
      · cases hes
      · exact parse_ordered hes
  · cases h

/-- The data of documents that a pattern loads stands in order. -/
theorem loadMatching_ordered {files : FileSystem} {directory : Path} {pattern : String}
    {documents : List Document} (h : loadMatching files directory pattern = .ok documents)
    {d : Document} (hd : d ∈ documents) : (Data.map d.entries).Ordered := by
  unfold loadMatching at h
  dsimp only at h
  split at h
  · cases h
  · obtain ⟨path, -, hload⟩ := exists_mem_of_mapM h d hd
    exact load_ordered hload

end Document

end Testbed
