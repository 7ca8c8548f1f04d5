import Testbed.Proofs.Binding.Comparing

/-!
# Walks that refuse unknown keys

`Stricter L K w w'` compares two walks: from wherever they begin, both come to one result and one
location, or the first is stopped by an error of `L`, and then the second is stopped as well or the
error is one of `K`. There is a rule for each step that walks are made of. By these rules binding is
stricter than binding that takes unknown keys, at every place (`Place.strictness`), where

- `Blames` are the errors that name one document and a location in it, and a cause, once: the
  document that is walked, or one that a pattern loads and that cannot be bound for that cause;
- `RefusesKey` are the errors that refuse a key of a map which is bound as a record and has no field
  with that name.
-/

namespace Testbed

/-! ## §1 Two walks -/

namespace Walk

variable {α β : Type}

/-- Whether two walks from one location come to the same, or the first is stopped by an error of
    `L`, and the second is stopped as well or the error is one of `K`. -/
def StricterAt (L K : Error → Prop) (w w' : Walk α) (l : Location) : Prop :=
  (∃ x m, w l = .ok x m ∧ w' l = .ok x m) ∨
    ∃ e m, w l = .error e m ∧ L e ∧ (K e ∨ ∃ e' m', w' l = .error e' m')

/-- Whether two walks come to the same from wherever they begin, or are stopped so. -/
def Stricter (L K : Error → Prop) (w w' : Walk α) : Prop :=
  ∀ l, StricterAt L K w w' l

namespace Stricter

variable {L K L' K' : Error → Prop} {w w' : Walk α} {f f' : α → Walk β}

theorem mono (h : Stricter L K w w') (hL : ∀ e, L e → L' e) (hK : ∀ e, K e → K' e) :
    Stricter L' K' w w' := by
  intro l
  rcases h l with hsame | ⟨e, m, he, hLe, hstop⟩
  · exact .inl hsame
  · exact .inr ⟨e, m, he, hL e hLe, hstop.imp_left (hK e)⟩

theorem pure (x : α) : Stricter L K (Pure.pure x) (Pure.pure x) :=
  fun l => .inl ⟨x, l, rfl, rfl⟩

theorem modify (move : Location → Location) :
    Stricter L K (modify move : Walk Unit) (modify move) :=
  fun l => .inl ⟨(), move l, rfl, rfl⟩

theorem fail {cause : Cause} (h : L (.cause cause)) :
    Stricter L K (Walk.fail cause : Walk α) (Walk.fail cause) :=
  fun l => .inr ⟨_, l, rfl, h, .inr ⟨_, l, rfl⟩⟩

/-- A walk is stricter from a location if its rest is, from wherever its first part leads. -/
theorem bindAt {l : Location} (hw : StricterAt L K w w' l)
    (hf : ∀ x m, w l = .ok x m → StricterAt L K (f x) (f' x) m) :
    StricterAt L K (w >>= f) (w' >>= f') l := by
  unfold StricterAt
  simp only [Bind.bind, EStateM.bind]
  rcases hw with ⟨x, m, hx, hx'⟩ | ⟨e, m, he, hLe, hstop⟩
  · simp only [hx, hx']
    exact hf x m hx
  · -- the first walk stops before the step, and what the second does then is left open
    refine .inr ⟨e, m, by simp only [he], hLe, hstop.imp_right ?_⟩
    rintro ⟨e', m', he'⟩
    exact ⟨e', m', by simp only [he']⟩

/-- What is walked next begins where something was given before. -/
theorem bind (hw : Stricter L K w w')
    (hf : ∀ x l m, w l = .ok x m → Stricter L K (f x) (f' x)) :
    Stricter L K (w >>= f) (w' >>= f') :=
  fun l => bindAt (hw l) fun x m hx => hf x l m hx m

/-- Inside of a map walks begin at a location where the map is open. -/
theorem insideMap_of (h : ∀ l : Location, StricterAt L K w w' l.openMap) :
    Stricter L K w.insideMap w'.insideMap := by
  intro l
  refine bindAt (modify Location.openMap l) ?_
  rintro _ _ ⟨⟩
  refine bindAt (h l) fun x m _ => ?_
  exact bind (modify Location.close) (fun _ _ _ _ => pure x) m

end Stricter

end Walk

/-! ## §2 Errors -/

namespace Place

open Binding

/-- The errors that name a document and a location in it, and a cause, once: the document of a
    place, or one that is loaded on the way from there and is not bound for that cause. -/
inductive Blames (context : Context) (p : Place) : Error → Prop
  | here (location : String) (cause : Cause) :
      Blames context p (.located p.document.path location (.cause cause))
  | loaded {q : Place} {d : Document} {e : Shape} {v : Value} {n : Nat} {cause : Cause}
      (location : String) (hq : Reaches context.files p q) (hload : q.Loads context.files d e)
      (hv : v.Built e)
      (hfails : ((Deeper.level context n).assign d.path d.data v).outcome = .error cause) :
      Blames context p (.located d.path location (.cause cause))

/-- The errors that are plain causes, or name a document as above. -/
def Stops (context : Context) (p : Place) (e : Error) : Prop :=
  (∃ cause, e = .cause cause) ∨ Blames context p e

/-- The errors that refuse a key of a map which is bound as a record, on the way from a place, where
    the record has no field with that name. -/
inductive RefusesKey (files : FileSystem) (p : Place) : Error → Prop
  | mk {document : Document} {fs : Fields} {es : List (String × Data)} {before key : String}
      (hreach : Reaches files p ⟨document, .value (.record fs), .map es⟩)
      (hkey : key ∈ Keyed.keys es) (hunknown : ¬ Fields.Knows fs key) :
      RefusesKey files p (.located document.path (before ++ key) (.cause (.unknownKey key)))

variable {α : Type} {context : Context} {p q : Place} {e : Error} {w w' : Walk α}

/-- What is blamed at a place that a walk comes to is blamed at the place where the walk began,
    within one document. -/
theorem Blames.of_reaches (h : Reaches context.files p q) (hsame : q.document = p.document)
    (he : Blames context q e) : Blames context p e := by
  cases he with
  | here location cause =>
    rw [hsame]
    exact .here location cause
  | loaded location hq hload hv hfails => exact .loaded location (h.trans hq) hload hv hfails

theorem Stops.of_reaches (h : Reaches context.files p q) (hsame : q.document = p.document)
    (he : Stops context q e) : Stops context p e :=
  he.imp_right (.of_reaches h hsame)

/-- A key that is refused at a place that a walk comes to is refused at the place where it began. -/
theorem RefusesKey.of_reaches {files : FileSystem} (h : Reaches files p q)
    (he : RefusesKey files q e) : RefusesKey files p e := by
  cases he with
  | mk hreach hkey hunknown => exact .mk (h.trans hreach) hkey hunknown

/-- An error that names its document is not located again. -/
theorem Blames.locate_eq (he : Blames context p e) (path : Path) (location : String) :
    e.locate path location = e := by
  cases he <;> rfl

/-- Whether of two walks that bind a place the first is stricter, but for refused keys. -/
def Stricter (context : Context) (p : Place) (w w' : Walk α) : Prop :=
  Walk.Stricter (Stops context p) (RefusesKey context.files p) w w'

/-- Whether it is so, and all its errors name their documents. -/
def StricterLocated (context : Context) (p : Place) (w w' : Walk α) : Prop :=
  Walk.Stricter (Blames context p) (RefusesKey context.files p) w w'

/-- A comparison at a place that a step goes to holds at the place that it comes from. -/
theorem Stricter.of_enters (h : Stricter context q w w') (hstep : Enters context.files p q)
    (hsame : q.document = p.document) : Stricter context p w w' :=
  h.mono (fun _ => .of_reaches hstep.reaches hsame) fun _ => .of_reaches hstep.reaches

/-- What stops a walk in a document is located there, if it is not located yet. -/
theorem Stricter.located (h : Stricter context p w w') :
    StricterLocated context p (w.located p.document.path) (w'.located p.document.path) := by
  intro l
  unfold Walk.StricterAt Walk.located
  rcases h l with ⟨x, m, hx, hx'⟩ | ⟨e, m, he, hstops, hstop⟩
  · exact .inl ⟨x, m, by simp only [hx], by simp only [hx']⟩
  · have hlocated : RefusesKey context.files p e →
        RefusesKey context.files p (e.locate p.document.path m.text) := by
      rintro ⟨hreach, hkey, hunknown⟩
      exact .mk hreach hkey hunknown
    refine .inr ⟨e.locate p.document.path m.text, m, by simp only [he], ?_, ?_⟩
    · rcases hstops with ⟨cause, rfl⟩ | hblames
      · exact .here m.text cause
      · rwa [hblames.locate_eq]
    · refine hstop.imp hlocated ?_
      rintro ⟨e', m', he'⟩
      exact ⟨e'.locate p.document.path m'.text, m', by simp only [he']⟩

/-- What stops the walk of a document that is loaded is located in it. -/
theorem Stricter.loaded {d : Document} {s : Shape} {v : Value} {n : Nat} {w' : Walk Value}
    (hload : p.Loads context.files d s) (hv : v.Built s)
    (h : Stricter context ⟨d, .value s, d.data⟩
      ((Deeper.level context n).assign d.path d.data v) w') :
    StricterLocated context p
      (((Deeper.level context n).assign d.path d.data v).located d.path) (w'.located d.path) := by
  have hreach := (Enters.load hload).reaches
  intro l
  rcases h.located l with hsame | ⟨e, m, he, hblames, hstop⟩
  · exact .inl hsame
  · refine .inr ⟨e, m, he, ?_, hstop.imp_left (.of_reaches hreach)⟩
    cases hblames with
    | here location cause =>
      refine .loaded location .refl hload hv (n := n) ?_
      -- locating keeps the cause, and the cause does not depend on where the walk begins
      have hself : (Deeper.level context n).Approximates (Deeper.level context n) :=
        Deeper.level_self n
      have happrox := (hself.assign d.path d.data v).located d.path d.path
      rw [← Walk.outcome_located d.path, ← happrox.outcome_eq l, Walk.outcomeFrom, he]
      rfl
    | loaded location hq hload' hv' hfails =>
      exact .loaded location (hreach.trans hq) hload' hv' hfails

end Place

/-! ## §3 Keys -/

namespace Binding

open Walk Value Place

variable {context : Context} {slots : Slots} {fs : Fields} {es : List (String × Data)}
  {document : Document} {names : List String}

/-- The names of a record's fields are known to be those of its fields. -/
theorem mem_documentNames (h : SlotsBuilt slots fs) (hnames : documentNames slots = .ok names)
    {name : String} (hname : Fields.Knows fs name) : name ∈ names := by
  induction slots generalizing fs names with
  | nil =>
    cases h
    obtain ⟨f, s, hf, -⟩ := hname
    cases hf
  | cons e rest ih =>
    cases h with
    | cons _ hslots =>
      rw [documentNames] at hnames
      obtain ⟨d, hd, hnames⟩ := exists_ok_of_bind hnames
      obtain ⟨others, hothers, hnames⟩ := exists_ok_of_bind hnames
      obtain rfl := Except.ok.inj hnames
      obtain ⟨f, s, hf, hname⟩ := hname
      rcases List.mem_cons.mp hf with heq | hf
      · obtain ⟨rfl, rfl⟩ := Prod.mk.inj heq
        exact List.mem_cons.mpr (.inl (documentName_eq hname hd).symm)
      · exact List.mem_cons_of_mem _ (ih hslots hothers ⟨f, s, hf, hname⟩)

/-- Where the tag of a field cannot be read, the fields cannot be bound. -/
theorem exists_error_of_fields {cause : Cause} (hnames : documentNames slots = .error cause)
    (deeper : Deeper) (path : Path) (l : Location) :
    ∃ e m, fields context deeper path es slots l = .error e m := by
  induction slots generalizing l with
  | nil => cases hnames
  | cons e rest ih =>
    obtain ⟨f, target⟩ := e
    cases hread : directives f with
    | error fault =>
      refine ⟨.located path l.text (.cause fault), l, ?_⟩
      rw [fields_cons, hread]
      rfl
    | ok d =>
      rw [documentNames, hread, ok_bind] at hnames
      have hrest : documentNames rest = .error cause := by
        cases hothers : documentNames rest with
        | ok others => simp [hothers, ok_bind] at hnames
        | error fault =>
          rw [hothers] at hnames
          exact hnames
      rw [fields_cons_of_directives hread, Walk.modify_bind_apply]
      simp only [Bind.bind, EStateM.bind]
      cases Walk.located path (slot context deeper path es f d target)
          (l.atField (documentName f d)) with
      | error e m => exact ⟨e, m, rfl⟩
      | ok bound m =>
        obtain ⟨e, m', he⟩ := ih hrest m
        exact ⟨e, m', by simp only [he]⟩

/-- The check of a record's keys does nothing, or refuses a key that is not known, or it cannot read
    the tag of a field. -/
theorem checkKeys_cases (path : Path) (h : SlotsBuilt slots fs) (es : List (String × Data)) :
    checkKeys path es slots = pure () ∨
      (∃ key ∈ Keyed.keys es, ¬ Fields.Knows fs key ∧ checkKeys path es slots = (do
        modify (Location.atField key)
        Walk.located path (Walk.fail (.unknownKey key)))) ∨
      ∃ cause, documentNames slots = .error cause ∧ ∀ l : Location,
        checkKeys path es slots l = .error (.located path l.text (.cause cause)) l := by
  cases hnames : documentNames slots with
  | error cause =>
    refine .inr (.inr ⟨cause, rfl, fun l => ?_⟩)
    rw [checkKeys, checkNames, hnames]
    rfl
  | ok names =>
    have hlookup : Walk.located path (Walk.lift (.ok names)) = pure names := rfl
    rw [checkKeys, checkNames, hnames, hlookup, pure_bind]
    split
    · exact .inl rfl
    · next key x hfind =>
      have hmem := List.mem_of_find?_eq_some hfind
      have hunknown := List.find?_some hfind
      refine .inr (.inl ⟨key, List.mem_map.mpr ⟨_, hmem, rfl⟩, ?_, rfl⟩)
      intro hknows
      simp [mem_documentNames h hnames hknows] at hunknown

/-- The text of a location in a map ends with the field that is looked at. -/
theorem exists_text_atField (l : Location) (key : String) :
    ∃ before, (l.openMap.atField key).text = before ++ key := by
  refine ⟨Location.framesText l.frames ++ if l.frames.isEmpty then "" else ".", ?_⟩
  rw [String.append_assoc]
  rfl

/-- The check of a record's keys is all that a walk which takes unknown keys leaves out. -/
theorem recordInside_stricter {d d' : Deeper} (h : SlotsBuilt slots fs)
    (hfields : StricterLocated context ⟨document, .value (.record fs), .map es⟩
      (fields context d document.path es slots)
      (fields (context.withStrict false) d' document.path es slots)) :
    StricterLocated context ⟨document, .value (.record fs), .map es⟩
      (recordInside context d document.path es slots)
      (recordInside (context.withStrict false) d' document.path es slots) := by
  unfold recordInside
  refine .insideMap_of fun l => ?_
  -- the strict walk looks at the keys first, and goes on like the other where they are known
  cases hstrict : context.strict with
  | false => exact hfields l.openMap
  | true =>
    rcases checkKeys_cases document.path h es with
      hcheck | ⟨key, hkey, hunknown, hcheck⟩ | ⟨cause, hnames, hcheck⟩
    · simpa only [hcheck, if_true, pure_bind, ite_self] using hfields l.openMap
    · -- the walk stops at the first such key, before any field
      obtain ⟨before, hbefore⟩ := exists_text_atField l key
      have hrefuses : checkKeys document.path es slots l.openMap =
          .error (.located document.path (before ++ key) (.cause (.unknownKey key)))
            (l.openMap.atField key) := by
        rw [hcheck, ← hbefore]
        rfl
      refine .inr ⟨.located document.path (before ++ key) (.cause (.unknownKey key)),
        l.openMap.atField key, ?_, .here _ _, .inl (.mk .refl hkey hunknown)⟩
      simp only [if_true, Bind.bind, EStateM.bind, hrefuses]
    · -- a tag that cannot be read stops both
      have hstop : ∃ e m, fields (context.withStrict false) d' document.path es slots l.openMap =
          .error e m :=
        exists_error_of_fields hnames d' document.path l.openMap
      refine .inr ⟨.located document.path l.openMap.text (.cause cause), l.openMap, ?_, .here _ _,
        .inr hstop⟩
      simp only [if_true, Bind.bind, EStateM.bind, hcheck]

end Binding

/-! ## §4 Places -/

/-- Binding is stricter than binding that takes unknown keys. -/
def Place.strictness (context : Context) : Comparison context false where
  Compares := Stricter context
  Names := StricterLocated context
  of_names h := h.mono (fun _ => .inr) fun _ hK => hK
  of_pure x := .pure x
  of_modify move := .modify move
  of_fail _ := .fail (.inl ⟨_, rfl⟩)
  located h := h.located
  bind hw hf := Walk.Stricter.bind hw hf
  bind_names hw hf := Walk.Stricter.bind hw hf
  checked hslots hfields := Binding.recordInside_stricter hslots hfields
  enters h hstep hsame := h.of_enters hstep hsame
  loads hload hv h := h.loaded hload hv

end Testbed
