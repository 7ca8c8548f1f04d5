import Testbed.Proofs.Binding.Routing

/-!
# Walks around walks

What a walk does with data inside of other data is all that the walk of the whole knows of it. For
what walks come to this is said in `Position.Fills`; here it is said of the walks themselves, with
their locations and the documents that their errors are located in, and also where keys that name no
field are refused.

- Items, entries, members and slots are walked one after the other, each by a walk of its own
  (`items_eq_mapM`, `entries_eq_mapM`, `members_eq_mapM`, `fields_eq_mapM`).
- So the walk of the whole is a walk `Around` the one inside (`Enters.encloses`), and so it is along
  a route (`Leads.encloses`). Where two walks inside are the same, or one approximates the other, so
  it is with the two walks of the whole.
-/

namespace Testbed

open Walk

/-! ## §1 One walk for each element -/

namespace Walk

variable {α β γ : Type}

theorem Approximates.mapM {f f' : α → Walk β} (h : ∀ x, Approximates (f x) (f' x)) (xs : List α) :
    Approximates (xs.mapM f) (xs.mapM f') := by
  induction xs with
  | nil => exact .pure _
  | cons x rest ih =>
    rw [List.mapM_cons, List.mapM_cons]
    exact .bind (h x) fun _ => .bind ih fun _ => .pure _

/-- Whether a walk made from another one comes to what it does by what the other one comes to. -/
def Around (F : Walk α → Walk β) : Prop :=
  ∀ {w w' : Walk α}, Approximates w w' → Approximates (F w) (F w')

/-- What is around a walk that is around another one is around the latter. -/
theorem Around.comp {F : Walk β → Walk γ} {G : Walk α → Walk β} (hF : Around F) (hG : Around G) :
    Around (F ∘ G) :=
  fun h => hF (hG h)

theorem mapM_congr {f f' : α → Walk β} {xs : List α} (h : ∀ x ∈ xs, f' x = f x) :
    xs.mapM f' = xs.mapM f := by
  induction xs with
  | nil => rfl
  | cons x rest ih =>
    obtain ⟨hx, hrest⟩ := List.forall_mem_cons.mp h
    rw [List.mapM_cons, List.mapM_cons, hx, ih hrest]

/-- Where one walk is made for each element, those before and after one element are around it. -/
theorem exists_around_mapM {f : α → Walk β} (hf : ∀ x, Approximates (f x) (f x))
    (before after : List α) {g : Walk γ → Walk β} (hg : Around g) :
    ∃ F : Walk γ → Walk (List β), Around F ∧
      ∀ (f' : α → Walk β) (x : α) (w : Walk γ), (∀ y ∈ before, f' y = f y) →
        (∀ y ∈ after, f' y = f y) → f' x = g w → (before ++ x :: after).mapM f' = F w := by
  refine ⟨fun w => do
    let a ← before.mapM f
    let b ← g w
    let c ← after.mapM f
    pure (a ++ b :: c), ?_, ?_⟩
  · intro w w' h
    exact .bind (.mapM hf _) fun _ => .bind (hg h) fun _ => .bind (.mapM hf _) fun _ => .pure _
  · intro f' x w hbefore hafter hx
    rw [List.mapM_append, List.mapM_cons, mapM_congr hbefore, mapM_congr hafter, hx]
    simp only [bind_assoc, pure_bind]

end Walk

namespace Binding

open Keyed

variable {α : Type} {context : Context} {d : Deeper} {document : Path}

/-- Items are walked each on its own, at its index. -/
theorem items_eq_mapM (make : α → Walk Value) (index : Nat) (xs : List α) :
    items make index xs = (xs.zipIdx index).mapM (fun x => do
      modify (Location.atIndex x.2)
      make x.1) := by
  induction xs generalizing index with
  | nil => rfl
  | cons x rest ih =>
    rw [items, ih, List.zipIdx_cons, List.mapM_cons]
    simp only [bind_assoc]

/-- Entries in order are filled each on its own, behind those that are filled already. -/
theorem entries_eq_append {fill : α → Value → Walk Value} (element : Shape)
    {xs : List (String × α)} (hxs : Ordered xs) {filled : List (String × Value)}
    (hfilled : Before filled xs) :
    entries element fill xs filled = (filled ++ ·) <$> xs.mapM (fun x => do
      modify (Location.atField x.1)
      let v ← fill x.2 element.zero
      pure (x.1, v)) := by
  induction xs generalizing filled with
  | nil => simp [entries]
  | cons x rest ih =>
    obtain ⟨key, x⟩ := x
    rw [entries, hfilled.get?_eq_none, Option.getD_none, List.mapM_cons]
    simp only [map_eq_pure_bind, bind_assoc, pure_bind]
    congr 1
    funext _
    congr 1
    funext v
    rw [hfilled.insert, ih (ordered_cons.mp hxs).2 (hfilled.append hxs v)]
    simp only [map_eq_pure_bind, List.append_assoc, List.singleton_append]

/-- Where the keys are in order, entries are walked each on its own, under its key. -/
theorem entries_eq_mapM {fill : α → Value → Walk Value} (element : Shape)
    {xs : List (String × α)} (hxs : Ordered xs) :
    entries element fill xs [] = xs.mapM (fun x => do
      modify (Location.atField x.1)
      let v ← fill x.2 element.zero
      pure (x.1, v)) := by
  rw [entries_eq_append element hxs (before_nil xs)]
  simp

/-- Members in order are filled each on its own, behind those that are filled already. -/
theorem members_eq_append {fill : Data → Value → Walk Value} (member? : String → Option Value)
    (unknown : String → Cause) {es : List (String × Data)} (hes : Ordered es)
    {filled : List (String × Value)} (hfilled : Before filled es) :
    members member? unknown fill es filled = (filled ++ ·) <$> es.mapM (fun e => do
      modify (Location.atField e.1)
      let v ← (member? e.1).elim (fail (unknown e.1)) (fill e.2)
      pure (e.1, v)) := by
  induction es generalizing filled with
  | nil => simp [members]
  | cons e rest ih =>
    obtain ⟨key, x⟩ := e
    rw [members, List.mapM_cons]
    simp only [map_eq_pure_bind, bind_assoc, pure_bind]
    congr 1
    funext _
    cases member? key with
    | none => rfl
    | some zero =>
      simp only [Option.elim_some]
      congr 1
      funext v
      rw [hfilled.insert, ih (ordered_cons.mp hes).2 (hfilled.append hes v)]
      simp only [map_eq_pure_bind, List.append_assoc, List.singleton_append]

theorem members_eq_mapM {fill : Data → Value → Walk Value} (member? : String → Option Value)
    (unknown : String → Cause) {es : List (String × Data)} (hes : Ordered es) :
    members member? unknown fill es [] = es.mapM (fun e => do
      modify (Location.atField e.1)
      let v ← (member? e.1).elim (fail (unknown e.1)) (fill e.2)
      pure (e.1, v)) := by
  rw [members_eq_append member? unknown hes (before_nil es)]
  simp

/-! ## §2 The slots of a record -/

/-- The walk that binds one slot of a record. -/
def slotWalk (context : Context) (deeper : Deeper) (document : Path) (data : List (String × Data))
    (s : Field × Value) : Walk (Field × Value) := do
  let directives ← located document (lift (directives s.1))
  modify (Location.atField (documentName s.1 directives))
  let bound ← located document (slot context deeper document data s.1 directives s.2)
  pure (s.1, bound)

theorem fields_eq_mapM (data : List (String × Data)) (slots : Slots) :
    fields context d document data slots = slots.mapM (slotWalk context d document data) := by
  induction slots with
  | nil => rw [fields]; rfl
  | cons s rest ih =>
    obtain ⟨f, target⟩ := s
    rw [fields_cons, List.mapM_cons, ih]
    simp only [slotWalk, bind_assoc, pure_bind]

theorem slotWalk_approximates (h : d.Approximates d) (data : List (String × Data))
    (s : Field × Value) :
    Approximates (slotWalk context d document data s) (slotWalk context d document data s) :=
  .bind (.located _ _ (.lift _)) fun directives => .bind (.modify _ _) fun _ =>
    .bind (.located _ _ (Walk.Congruence.slot h rfl data s.1 directives (.refl s.2))) fun _ =>
      .pure _

variable {f : Field} {directives : Directives} {es es' : List (String × Data)}

theorem slotWalk_of_directives (hread : Binding.directives f = .ok directives) (target : Value) :
    slotWalk context d document es (f, target) = (do
      modify (Location.atField (documentName f directives))
      let bound ← located document (slot context d document es f directives target)
      pure (f, bound)) := by
  simp only [slotWalk, hread]
  rfl

/-- The walk of a slot looks under the name of its field alone. -/
theorem slotWalk_congr {name : String} (hname : f.documentName? = some name)
    (hsame : present? name es = present? name es') (target : Value) :
    slotWalk context d document es (f, target) = slotWalk context d document es' (f, target) := by
  cases hread : Binding.directives f with
  | error cause => simp only [slotWalk, hread]; rfl
  | ok directives =>
    rw [slotWalk_of_directives hread, slotWalk_of_directives hread]
    simp only [slot, documentName_eq hname hread, hsame]

/-- The walk of a slot that the document sets is that of its field, under its name. -/
theorem slotWalk_present (hread : Binding.directives f = .ok directives) {target : Value}
    (htarget : target ≠ .absent) {x : Data}
    (hx : present? (documentName f directives) es = some x) :
    slotWalk context d document es (f, target) = (do
      modify (Location.atField (documentName f directives))
      let bound ← located document (field context d document directives x target)
      pure (f, bound)) := by
  rw [slotWalk_of_directives hread]
  cases target with
  | absent => exact absurd rfl htarget
  | _ => simp only [slot, hx]

/-- The check of a record's keys looks at nothing but the keys. -/
theorem checkKeys_eq_of_keys_eq (h : Keyed.keys es' = Keyed.keys es) (slots : Slots) :
    checkKeys document es' slots = checkKeys document es slots := by
  have hfind (names : List String) :
      (es'.find? fun e => !names.contains e.1).map (·.1) =
        (es.find? fun e => !names.contains e.1).map (·.1) := by
    have hkeys (l : List (String × Data)) :
        (l.find? fun e => !names.contains e.1).map (·.1) =
          (Keyed.keys l).find? fun key => !names.contains key := by
      rw [Keyed.keys, List.find?_map]
      rfl
    rw [hkeys, hkeys, h]
  unfold checkKeys checkNames
  congr 1
  funext names
  have hnames := hfind names
  revert hnames
  cases es'.find? fun e => !names.contains e.1 with
  | none =>
    cases es.find? fun e => !names.contains e.1 with
    | none => intro _; rfl
    | some e => intro h; cases h
  | some e' =>
    cases es.find? fun e => !names.contains e.1 with
    | none => intro h; cases h
    | some e =>
      intro h
      obtain ⟨k, x⟩ := e
      obtain ⟨k', x'⟩ := e'
      obtain rfl : k' = k := Option.some.inj h
      rfl

/-- The check of a record's keys, where there is one. -/
def keysWalk (context : Context) (document : Path) (es : List (String × Data)) (slots : Slots) :
    Walk Unit :=
  if context.strict then checkKeys document es slots else pure ()

theorem keysWalk_approximates (es : List (String × Data)) (slots : Slots) :
    Approximates (keysWalk context document es slots) (keysWalk context document es slots) := by
  unfold keysWalk
  split
  · exact checkKeys_approximates document es slots
  · exact .pure _

/-- A record is walked inside of a map: first the check of its keys, then slot by slot. -/
theorem recordInside_eq (es : List (String × Data)) (slots : Slots) :
    recordInside context d document es slots = insideMap (do
      keysWalk context document es slots
      slots.mapM (slotWalk context d document es)) := by
  rw [recordInside, keysWalk, ← fields_eq_mapM]
  cases context.strict <;> rfl

end Binding

/-! ## §3 Positions -/

namespace Position

/-- The walk of data at a position, with so many levels left. -/
def walk (context : Context) (document : Path) (n : Nat) : Position → Data → Walk Value
  | value target, x => (Deeper.level context n).assign document x target
  | field d target, x => Binding.field context (Deeper.level context n) document d x target
  | entry, x => (Deeper.level context n).action document x
  | payload key, x => (Deeper.level context n).action document (.map [(key, x)])

/-- Whether the walk of data at a position is around that of the data that a step leads to, whatever
    stands there. -/
def Encloses (context : Context) (document : Path) (s : Position) (n : Nat) (x : Data) (t : Step)
    (s' : Position) : Prop :=
  ∃ n' F, Around F ∧ ∀ y, s'.Takes y →
    s.walk context document n (Data.setChild t y x) = F (s'.walk context document n' y)

variable {context : Context} {document : Path} {s s' : Position} {x : Data} {t : Step}

theorem value_walk_succ (n : Nat) (target : Value) (x : Data) :
    walk context document (n + 1) (value target) x =
      Binding.assign context (Deeper.level context n) document x target :=
  rfl

/-- Where every walk is too deep, nothing inside makes a difference. -/
theorem encloses_of_tooDeep {n : Nat}
    (h : ∀ y, s.walk context document n y = fail (.tooDeep maxDepth)) :
    Encloses context document s n x t s' :=
  ⟨0, fun _ => fail (.tooDeep maxDepth), fun _ => .fail _, fun _ _ => h _⟩

/-- The walk of a record is around that of each slot which the document sets. -/
theorem slot_encloses {variant : Option Variant} {slots : Slots}
    (hs : (value (.record variant slots)).IsTidy) {f : Field} {target : Value} {d : Directives}
    (hslot : (f, target) ∈ slots) (hd : Binding.directives f = .ok d) {es : List (String × Data)}
    (hes : Keyed.Ordered es) (hx : Keyed.get? (Binding.documentName f d) es = some x) (n : Nat) :
    Encloses context document (value (.record variant slots)) n (.map es)
      (.key (Binding.documentName f d)) (field d target) := by
  obtain ⟨e, he, hrecord⟩ := hs _ rfl
  obtain ⟨fields, hslots, ht, -⟩ := hrecord.ofRecord he
  obtain ⟨hname, e', he', htarget⟩ := hslots.of_mem ht hslot
  obtain ⟨before, after, rfl, hothers⟩ := hslots.split ht hslot
  have hident : f.ident = Binding.documentName f d := (Binding.documentName_eq hname hd).symm
  cases n with
  | zero => exact encloses_of_tooDeep fun _ => rfl
  | succ n =>
    let bind := Binding.slotWalk context (Deeper.level context n) document es
    have hbind (e : Field × Value) : Approximates (bind e) (bind e) :=
      Binding.slotWalk_approximates (Deeper.level_self n) es e
    obtain ⟨F, hF, hmapM⟩ := exists_around_mapM hbind before after (g := fun w => do
      modify (Location.atField (Binding.documentName f d))
      let bound ← located document w
      pure (f, bound)) fun h => .bind (.modify _ _) fun _ => .bind (.located _ _ h) fun _ => .pure _
    refine ⟨n, fun w => do
      let filled ← insideMap (do
        Binding.keysWalk context document es (before ++ (f, target) :: after)
        F w)
      pure (.record variant filled), ?_, ?_⟩
    · intro w w' h
      exact .bind (.insideMap (.bind (Binding.keysWalk_approximates _ _) fun _ => hF h)) fun _ =>
        .pure _
    · intro y hy
      -- no other slot looks under the name of this one, and the keys stay the same
      have hother (s : Field × Value) (hs : s ∈ before ∨ s ∈ after) :
          Binding.slotWalk context (Deeper.level context n) document
            (Keyed.insert (Binding.documentName f d) y es) s =
          Binding.slotWalk context (Deeper.level context n) document es s := by
        obtain ⟨name, hname, hne⟩ := hothers s hs
        apply Binding.slotWalk_congr hname
        rw [Binding.present?, Binding.present?, Keyed.get?_insert_of_ne (hident ▸ hne)]
      have hkeys : Binding.keysWalk context document (Keyed.insert (Binding.documentName f d) y es)
          (before ++ (f, target) :: after) =
          Binding.keysWalk context document es (before ++ (f, target) :: after) := by
        unfold Binding.keysWalk
        rw [Binding.checkKeys_eq_of_keys_eq (hes.keys_insert hx y)]
      rw [Data.setChild, value_walk_succ, Binding.assign, Binding.recordInside_eq, hkeys,
        hmapM _ _ (Binding.field context (Deeper.level context n) document d y target)
          (fun s hs => hother s (.inl hs)) (fun s hs => hother s (.inr hs))
          (Binding.slotWalk_present hd (htarget.ne_absent he') (Binding.present?_insert hy.1 _ es))]
      rfl

theorem entry_encloses {es : List (String × Data)} (hes : Keyed.Ordered es) {key : String}
    (hx : Keyed.get? key es = some x) (e : Shape) (old : List (String × Value)) (n : Nat) :
    Encloses context document (value (.map e old)) n (.map es) (.key key) (value e.zero) := by
  obtain ⟨before, after, rfl, hbefore, hinsert⟩ := hes.split hx
  cases n with
  | zero => exact encloses_of_tooDeep fun _ => rfl
  | succ n =>
    let bind (e' : String × Data) : Walk (String × Value) := do
      modify (Location.atField e'.1)
      let v ← (Deeper.level context n).assign document e'.2 e.zero
      pure (e'.1, v)
    have hbind (e' : String × Data) : Approximates (bind e') (bind e') :=
      .bind (.modify _ _) fun _ => .bind ((Deeper.level_self n).assign _ _ _) fun _ => .pure _
    obtain ⟨F, hF, hmapM⟩ := exists_around_mapM hbind before after (g := fun w => do
      modify (Location.atField key)
      let v ← w
      pure (key, v)) fun h => .bind (.modify _ _) fun _ => .bind h fun _ => .pure _
    refine ⟨n, fun w => do
      let filled ← insideMap (F w)
      pure (.map e filled), fun h => .bind (.insideMap (hF h)) fun _ => .pure _, ?_⟩
    intro y _
    have hordered : Keyed.Ordered (before ++ (key, y) :: after) := hinsert y ▸ hes.insert key y
    rw [Data.setChild, hinsert, value_walk_succ, Binding.assign,
      Binding.entries_eq_mapM e hordered,
      hmapM bind (key, y) ((value e.zero).walk context document n y) (fun _ _ => rfl)
        (fun _ _ => rfl) rfl]

theorem zipIdx_set {xs : List Data} {i : Nat} (hi : i < xs.length) (y : Data) :
    (xs.set i y).zipIdx =
      (xs.take i).zipIdx ++ (y, i) :: (xs.drop (i + 1)).zipIdx (i + 1) := by
  rw [List.set_eq_take_append_cons_drop, if_pos hi, List.zipIdx_append, List.zipIdx_cons,
    List.length_take, min_eq_left hi.le, Nat.zero_add]

/-- Items are walked one after the other, those before and after one item around it. -/
theorem items_around {make : Data → Walk Value} (hmake : ∀ x, Approximates (make x) (make x))
    {xs : List Data} {i : Nat} (hx : xs[i]? = some x) :
    ∃ F : Walk Value → Walk (List Value), Around F ∧
      ∀ y, Binding.items make 0 (xs.set i y) = F (make y) := by
  obtain ⟨hi, -⟩ := List.getElem?_eq_some_iff.mp hx
  let bind (x : Data × Nat) : Walk Value := do
    modify (Location.atIndex x.2)
    make x.1
  have hbind (x : Data × Nat) : Approximates (bind x) (bind x) :=
    .bind (.modify _ _) fun _ => hmake _
  obtain ⟨F, hF, hmapM⟩ := exists_around_mapM hbind (xs.take i).zipIdx
    ((xs.drop (i + 1)).zipIdx (i + 1)) (g := fun w => do
      modify (Location.atIndex i)
      w) fun h => .bind (.modify _ _) fun _ => h
  refine ⟨F, hF, fun y => ?_⟩
  rw [Binding.items_eq_mapM, zipIdx_set hi]
  exact hmapM bind (y, i) (make y) (fun _ _ => rfl) (fun _ _ => rfl) rfl

theorem item_encloses {xs : List Data} {i : Nat} (hx : xs[i]? = some x) (e : Shape)
    (old : List Value) (n : Nat) :
    Encloses context document (value (.list e old)) n (.list xs) (.index i) (value e.zero) := by
  cases n with
  | zero => exact encloses_of_tooDeep fun _ => rfl
  | succ n =>
    obtain ⟨F, hF, hitems⟩ := items_around (fun x => (Deeper.level_self n).assign document x e.zero)
      hx
    refine ⟨n, fun w => do
      let filled ← insideList (F w)
      pure (.list e filled), fun h => .bind (.insideList (hF h)) fun _ => .pure _, ?_⟩
    intro y _
    rw [Data.setChild, value_walk_succ, Binding.assign, hitems]
    rfl

theorem field_walk_factory {d : Directives} {name : String} {f : Factory}
    (hd : d.factory? = some name) (hf : context.factories.get? name = some f) (target : Value)
    (n : Nat) (x : Data) :
    (field d target).walk context document n x =
      (Deeper.level context n).fill f document x target :=
  Binding.field_factory hd hf x target

/-- The walk of a family is around that of each member. -/
theorem member_encloses {d : Directives} {name : String} {f : Factory} {family : Family}
    {member : Platform → Variant} (hd : d.factory? = some name)
    (hf : context.factories.get? name = some f) (hmember : f.byName? = some (family, member))
    {es : List (String × Data)} (hes : Keyed.Ordered es) {key : String}
    (hx : Keyed.get? key es = some x) {p : Platform} (hp : Platform.ofName? key = some p)
    (old : List (String × Value)) (n : Nat) :
    Encloses context document (field d (.map (.oneOf family) old)) n (.map es) (.key key)
      (value (member p).zero) := by
  obtain ⟨unknown, hfill⟩ := fill_of_byName? hmember
  obtain ⟨before, after, rfl, hbefore, hinsert⟩ := hes.split hx
  cases n with
  | zero => exact encloses_of_tooDeep fun y => by rw [field_walk_factory hd hf]; rfl
  | succ n =>
    let member? (key : String) : Option Value := (Platform.ofName? key).map fun p => (member p).zero
    let bind (e : String × Data) : Walk (String × Value) := do
      modify (Location.atField e.1)
      let v ← (member? e.1).elim (fail (unknown e.1)) ((Deeper.level context n).assign document e.2)
      pure (e.1, v)
    -- members that come before and after the one inside are walked alike, whatever stands there
    have hbind (e : String × Data) : Approximates (bind e) (bind e) := by
      refine .bind (.modify _ _) fun _ => .bind ?_ fun _ => .pure _
      cases member? e.1 with
      | none => exact .fail _
      | some zero => exact (Deeper.level_self n).assign _ _ _
    obtain ⟨F, hF, hmapM⟩ := exists_around_mapM hbind before after (g := fun w => do
      modify (Location.atField key)
      let v ← w
      pure (key, v)) fun h => .bind (.modify _ _) fun _ => .bind h fun _ => .pure _
    refine ⟨n, fun w => do
      let filled ← insideMap (F w)
      pure (.map (.oneOf family) filled), fun h => .bind (.insideMap (hF h)) fun _ => .pure _, ?_⟩
    intro y _
    -- with another value under the key the keys are still in order
    have hordered : Keyed.Ordered (before ++ (key, y) :: after) := hinsert y ▸ hes.insert key y
    have hbound : bind (key, y) = (do
        modify (Location.atField key)
        let v ← (value (member p).zero).walk context document n y
        pure (key, v)) := by
      simp only [bind, member?, hp]
      rfl
    have hmembers : Binding.members member? unknown ((Deeper.level context n).assign document)
        (before ++ (key, y) :: after) [] = F ((value (member p).zero).walk context document n y) :=
      (Binding.members_eq_mapM member? unknown hordered).trans
        (hmapM bind (key, y) _ (fun _ _ => rfl) (fun _ _ => rfl) hbound)
    rw [Data.setChild, hinsert, field_walk_factory hd hf, level_fill, hfill, Binding.byName,
      if_pos rfl]
    exact congrArg (fun w => do
      let filled ← insideMap w
      pure (Value.map (.oneOf family) filled)) hmembers

theorem action_encloses {d : Directives} {name : String} (hd : d.factory? = some name)
    (hf : context.factories.get? name = some .actions) {xs : List Data} {i : Nat}
    (hx : xs[i]? = some x) (old : List Value) (n : Nat) :
    Encloses context document (field d (.list (.oneOf .action) old)) n (.list xs) (.index i)
      Position.entry := by
  cases n with
  | zero => exact encloses_of_tooDeep fun y => by rw [field_walk_factory hd hf]; rfl
  | succ n =>
    have hmake (x : Data) : Approximates ((Deeper.level context n).action document x)
        ((Deeper.level context n).action document x) := (Deeper.level_self n).action document x
    obtain ⟨F, hF, hitems⟩ := items_around hmake hx
    refine ⟨n, fun w => do
      let filled ← insideList (F w)
      pure (.list (.oneOf .action) filled),
      fun h => .bind (.insideList (hF h)) fun _ => .pure _, ?_⟩
    intro y _
    rw [Data.setChild, field_walk_factory hd hf, level_fill, Binding.fill, hitems]
    rfl

/-- A field whose data has something inside is bound by its shape, after its checks. -/
theorem field_walk {d : Directives} (hd : d.factory? = none) {target : Value}
    (hx : x.isScalar = false) (n : Nat) :
    (field d target).walk context document n x = (do
      lift (Binding.checkValue d (Binding.taken d target x))
      if d.isPath then
        lift (Binding.existingPath context document (Binding.taken d target x) target)
      else (value target).walk context document n (Binding.taken d target x)) := by
  have hbare : ¬ Binding.IsBare d target x := by
    rintro ⟨_, raw, _, _, -, rfl, -⟩
    simp [Data.isScalar] at hx
  have htaken : (Binding.taken d target x).isScalar = false := by
    unfold Binding.taken
    split
    · split <;> rfl
    · exact hx
  refine (Binding.field_value hd hbare).trans ?_
  generalize Binding.taken d target x = y at htaken
  cases y <;> first | rfl | simp [Data.isScalar] at htaken

/-- A field without a factory is walked as its value is, where the tag takes the data as it
    stands. -/
theorem plain_encloses {d : Directives} (hd : d.factory? = none) {target : Value}
    (hx : x.IsOrdered) {y : Data} (hy : Data.child? t x = some y) {n : Nat}
    (hsame : ∀ z, s'.Takes z → Binding.taken d target (Data.setChild t z x) =
      Data.setChild t z (Binding.taken d target x))
    (h : Encloses context document (value target) n (Binding.taken d target x) t s') :
    Encloses context document (field d target) n x t s' := by
  obtain ⟨n', F, hF, hwalk⟩ := h
  have hinside : x.isScalar = false := Data.isScalar_of_child? hy
  obtain ⟨y', hy'⟩ : ∃ y', Data.child? t (Binding.taken d target x) = some y' :=
    Binding.child?_taken hy
  refine ⟨n', fun w => do
    lift (Binding.checkValue d (Binding.taken d target x))
    if d.isPath then
      lift (Binding.existingPath context document (Binding.taken d target x) target)
    else F w, ?_, ?_⟩
  · intro w w' h
    refine .bind (.lift _) fun _ => ?_
    split
    · exact .lift _
    · exact hF h
  · intro z hz
    have hset : (Data.setChild t z x).isScalar = false := by rwa [Data.isScalar_setChild]
    rw [field_walk hd hset, hsame z hz, hwalk z hz,
      Binding.checkValue_setChild (Binding.isOrdered_taken hx) hy',
      Binding.existingPath_setChild (Data.isScalar_of_child? hy')]

/-- The walk of a field with one action is that of its entry. -/
theorem single_encloses {d : Directives} {name : String} {k : ActionKind} {slots : Slots}
    (hd : d.factory? = some name) (hf : context.factories.get? name = some .action)
    (hentry : ∀ n, Encloses context document Position.entry n x t s) (n : Nat) :
    Encloses context document (field d (.record (some (.action k)) slots)) n x t s := by
  cases n with
  | zero => exact encloses_of_tooDeep fun _ => by rw [field_walk_factory hd hf]; rfl
  | succ n =>
    obtain ⟨n', F, hF, hwalk⟩ := hentry n
    refine ⟨n', F, hF, fun z hz => ?_⟩
    rw [← hwalk z hz, field_walk_factory hd hf, level_fill]
    rfl

/-- The payload of an entry is bound by the fields of its kind, and finished with what the key
    says. -/
theorem payload_walk_succ {key : String} {plan : Plan} (h : Entry.readKeyed key x = .ok plan)
    (n : Nat) :
    walk context document (n + 1) (payload key) x = (do
      let bound ← walk context document n (value (Variant.action plan.kind).zero)
        (.map plan.payload)
      pure (plan.finish bound)) := by
  have hread : Entry.read (.map [(key, x)]) = .ok plan := h
  show Binding.action (Deeper.level context n) document (.map [(key, x)]) = _
  rw [Binding.action, hread]
  rfl

/-- The plan for a payload is the same, whatever is set inside of the payload. -/
theorem payload_encloses {key : String} {es : List (String × Data)} {plan : Plan}
    (hplan : Entry.readKeyed key (.map es) = .ok plan) (hes : Keyed.Ordered es) {y : Data}
    (hy : Data.child? t (.map es) = some y)
    (hvalue : ∀ n,
      Encloses context document (value (Variant.action plan.kind).zero) n (.map es) t s)
    (n : Nat) : Encloses context document (payload key) n (.map es) t s := by
  obtain rfl := Entry.payload_of_readKeyed_map hplan
  cases n with
  | zero => exact encloses_of_tooDeep fun _ => rfl
  | succ n =>
    obtain ⟨n', F, hF, hwalk⟩ := hvalue n
    refine ⟨n', fun w => do
      let bound ← F w
      pure (plan.finish bound), fun h => .bind (hF h) fun _ => .pure _, ?_⟩
    intro z hz
    cases t with
    | index i => simp [Data.child?] at hy
    | key name =>
      have hkeys := hes.keys_insert hy z
      have hread : Entry.readKeyed key (.map (Keyed.insert name z plan.payload)) =
          .ok { plan with payload := Keyed.insert name z plan.payload } := by
        rw [Entry.readKeyed_map (fun _ => Entry.expectationKind_eq_of_keys_eq none hkeys)
          fun _ => Keyed.has_eq_of_keys_eq hkeys "action", hplan]
        rfl
      rw [Data.setChild, payload_walk_succ hread]
      exact congrArg (fun w => do
        let bound ← w
        pure (plan.finish bound)) (hwalk z hz)

/-- The plan for a list is the same, whatever is set inside of the list. -/
theorem group_encloses {key : String} {xs : List Data} {plan : Plan}
    (hplan : Entry.readKeyed key (.list xs) = .ok plan)
    (hactions : ∀ n, Encloses context document (value (Variant.action plan.kind).zero) n
      (.map [("actions", .list xs)]) (.key "actions") s)
    (hitem : ∀ n, Encloses context document s n (.list xs) t s') (n : Nat) :
    Encloses context document (payload key) n (.list xs) t s' := by
  cases n with
  | zero => exact encloses_of_tooDeep fun _ => rfl
  | succ n =>
    obtain ⟨n₁, F, hF, hwalk⟩ := hactions n
    obtain ⟨n₂, F', hF', hwalk'⟩ := hitem n₁
    refine ⟨n₂, fun w => do
      let bound ← F (F' w)
      pure (plan.finish bound), fun h => .bind (hF (hF' h)) fun _ => .pure _, ?_⟩
    intro z hz
    obtain ⟨xs', hxs'⟩ : ∃ xs', Data.setChild t z (.list xs) = .list xs' := by
      cases t <;> exact ⟨_, rfl⟩
    have hread : Entry.readKeyed key (.list xs') =
        .ok { plan with payload := [("actions", .list xs')] } := by
      rw [Entry.readKeyed_list xs, hplan]
      rfl
    have hset : Data.setChild (.key "actions") (.list xs') (.map [("actions", .list xs)]) =
        .map [("actions", .list xs')] := by simp [Data.setChild, Keyed.insert]
    have hgroup := hwalk (.list xs') ⟨by simp, by simp⟩
    rw [hset, ← hxs', hwalk' z hz, hxs'] at hgroup
    rw [hxs', payload_walk_succ hread]
    exact congrArg (fun w => do
      let bound ← w
      pure (plan.finish bound)) hgroup

/-- The walk of data at a position is around that of data inside. -/
theorem Enters.encloses (h : Enters context s x t s') (hs : s.IsTidy) (hx : x.IsOrdered) {y : Data}
    (hy : Data.child? t x = some y) (n : Nat) : Encloses context document s n x t s' := by
  -- by induction on the step: those into fields and payloads go on by the shape of a value
  induction h generalizing y n with
  | slot hslot hd => exact slot_encloses hs hslot hd (hx _ rfl) hy n
  | entry => exact entry_encloses (hx _ rfl) hy _ _ n
  | item => exact item_encloses hy _ _ n
  | plain hd h ih =>
    obtain ⟨y', hy'⟩ := Binding.child?_taken hy
    exact plain_encloses hd hx hy (fun z hz => h.taken_setChild hz)
      (ih hs (Binding.isOrdered_taken hx) hy' n)
  | member hd hf hmember hp => exact member_encloses hd hf hmember (hx _ rfl) hy hp _ n
  | action hd hf => exact action_encloses hd hf hy _ n
  | single hd hf h ih =>
    exact single_encloses hd hf (fun n => ih (by simp [IsTidy, target?]) hx hy n) n
  | key =>
    refine ⟨n, id, id, ?_⟩
    intro z _
    simp [Data.setChild, Keyed.insert, walk]
  | payload hplan h ih =>
    exact payload_encloses hplan (hx _ rfl) hy (fun n => ih (isTidy_variant _) hx hy n) n
  | group hplan h h' ih ih' =>
    have hmap {xs : List Data} : (Data.map [("actions", .list xs)]).IsOrdered := by
      rintro _ ⟨rfl⟩
      simp [Keyed.Ordered]
    have hactions {xs : List Data} : Data.child? (.key "actions") (.map [("actions", .list xs)]) =
        some (.list xs) := by simp [Data.child?, Keyed.get?]
    exact group_encloses hplan (fun n => ih (isTidy_variant _) hmap hactions n)
      (fun n => ih' (h.isTidy (isTidy_variant _)) (by simp [Data.IsOrdered]) hy n) n

/-! ## §4 Routes -/

/-- The walk of a whole is around that of the data at the end of a route. -/
theorem Leads.encloses {within : Position → Prop} {r : Route} (document : Path)
    (h : Leads context within s x r s') (hs : s.IsTidy) (hx : x.Ordered) (n : Nat) :
    ∃ n' F, Around F ∧ ∀ y, s'.Takes y →
      s.walk context document n (Data.put r y x) = F (s'.walk context document n' y) := by
  induction h generalizing n with
  | here => exact ⟨n, id, id, fun _ _ => rfl⟩
  | @step s s' s'' x y t r h hwithin hy hrest ih =>
    obtain ⟨n₁, F, hF, hwalk⟩ : Encloses context document s n x t s' :=
      h.encloses hs hx.isOrdered hy n
    obtain ⟨n₂, F', hF', hwalk'⟩ := ih (h.isTidy hs) (hx.child? hy) n₁
    refine ⟨n₂, F ∘ F', hF.comp hF', fun z hz => ?_⟩
    rw [Data.put, hy, Option.getD_some, hwalk _ (hrest.takes hz), hwalk' z hz]
    rfl

section

variable {within : Position → Prop} {r : Route} {y y' : Data}

/-- Where two walks at the end of a route are the same, so are the two walks of the whole. -/
theorem Leads.walk_put_congr (document : Path) (h : Leads context within s x r s')
    (hs : s.IsTidy) (hx : x.Ordered) (hy : s'.Takes y) (hy' : s'.Takes y')
    (hsame : ∀ n, s'.walk context document n y = s'.walk context document n y') (n : Nat) :
    s.walk context document n (Data.put r y x) = s.walk context document n (Data.put r y' x) := by
  obtain ⟨n', F, -, hwalk⟩ := h.encloses document hs hx n
  rw [hwalk y hy, hwalk y' hy', hsame]

/-- Where a walk at the end of a route approximates another one, so it is with the two walks of the
    whole. -/
theorem Leads.walk_put_approximates (document : Path) (h : Leads context within s x r s')
    (hs : s.IsTidy) (hx : x.Ordered) (hy : s'.Takes y) (hy' : s'.Takes y')
    (happrox : ∀ n, Approximates (s'.walk context document n y) (s'.walk context document n y'))
    (n : Nat) :
    Approximates (s.walk context document n (Data.put r y x))
      (s.walk context document n (Data.put r y' x)) := by
  obtain ⟨n', F, hF, hwalk⟩ := h.encloses document hs hx n
  rw [hwalk y hy, hwalk y' hy']
  exact hF (happrox n')

end

end Position

/-- What a document is bound to is what the walk of the whole gives that begins outside of it. -/
theorem Rig.bindDocument_eq (context : Context) (d : Document) :
    bindDocument context d =
      match whole.walk context d.path (maxDepth + 1) d.data .outside with
      | .ok x _ => .ok x
      | .error e _ => .error e := by
  have hrun (w : Walker) (walk : Deeper → Path → Walk Value) : (w.run walk).1 =
      match walk (Deeper.level w.context (maxDepth - w.depth)) w.document w.location with
      | .ok x _ => .ok x
      | .error e _ => .error e := by
    unfold Walker.run
    cases walk (Deeper.level w.context (maxDepth - w.depth)) w.document w.location <;> rfl
  exact hrun _ _

/-- Documents that are bound alike can stand for each other among others. -/
theorem Rig.resolve_congr {context : Context} {d d' : Document}
    (h : bindDocument context d' = bindDocument context d) (before after : List Document)
    (overwrites : List (String × String)) :
    resolve context (before ++ d' :: after) overwrites =
      resolve context (before ++ d :: after) overwrites := by
  rw [resolve, resolve, mapM_append_cons, mapM_append_cons, h]

end Testbed
