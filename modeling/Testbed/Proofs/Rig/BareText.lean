import Testbed.Proofs.Binding.Enclosing
import Testbed.Proofs.Rig.Absent
import Testbed.Proofs.Rig.Tags

/-!
# Bare texts and what they are short for

A directive may name a field inside of a field, and a bare text is short for the record that has the
text in that field alone: a hook for its command, a script for its content, the body of a response
for its content. Among the entries of a map, texts are put into records before anything else is
done, so nothing tells the two apart. For a record by itself the text is bound where the field is,
and the record that it is short for one level further down; so the two are bound to the same, unless
the longer one is too deep (`Shortens.approximates`).

That no check stands in the way of the longer one is a fact about the declarations of a rig: every
field that takes bare texts takes the record with that one field (`variant_lenient`), and so do all
fields that the walk of a document comes to (`Leads.isLenient`).
-/

namespace Testbed

open Binding Walk

/-! ## §1 Declarations -/

/-- Whether a field takes the record that a bare text is short for, where it takes bare texts: it is
    bound by its shape, and its checks let the record pass. -/
def Directives.isLenient (d : Directives) : Bool :=
  d.string?.all fun sub => d.factory?.isNone && d.allowed?.isNone && !d.isPath &&
    d.keys?.all fun keys => keys.contains sub

/-- What a field that takes bare texts lets pass. -/
structure Directives.Lenient (d : Directives) (sub : String) : Prop where
  factory : d.factory? = none
  allowed : d.allowed? = none
  path : d.isPath = false
  keys : ∀ keys, d.keys? = some keys → sub ∈ keys

/-- A tag that passes the check lets the record pass that a bare text is short for. -/
theorem Directives.lenient_of_isLenient {d : Directives} (h : d.isLenient = true) {sub : String}
    (hstring : d.string? = some sub) : d.Lenient sub := by
  simp only [isLenient, hstring, Option.all_some, Bool.and_eq_true, Option.isNone_iff_eq_none,
    Bool.not_eq_true', Option.all_eq_true, List.contains_iff_mem] at h
  obtain ⟨⟨⟨hfactory, hallowed⟩, hpath⟩, hkeys⟩ := h
  exact ⟨hfactory, hallowed, hpath, hkeys⟩

/-- Whether a field takes what a bare text is short for. -/
def Field.isLenient (f : Field) : Bool :=
  match directives f with
  | .ok d => d.isLenient
  | .error _ => true

mutual
/-- Whether the fields of a shape take what bare texts are short for, up to those of families. -/
def Shape.isLenient : Shape → Bool
  | .list e => e.isLenient
  | .map e => e.isLenient
  | .record fields => lenientFields fields
  | _ => true
/-- Whether the fields of a record, and those inside of them, take what bare texts are short for. -/
def lenientFields : Fields → Bool
  | [] => true
  | (field, s) :: rest => field.isLenient && s.isLenient && lenientFields rest
end

theorem lenientFields_eq_all (fs : Fields) :
    lenientFields fs = fs.all fun e => e.1.isLenient && e.2.isLenient := by
  induction fs with
  | nil => rfl
  | cons e rest ih => rw [lenientFields, ih, List.all_cons]

theorem lenient_of_mem {fs : Fields} (h : lenientFields fs = true) {f : Field} {s : Shape}
    (hf : (f, s) ∈ fs) {d : Directives} (hd : directives f = .ok d) :
    d.isLenient = true ∧ s.isLenient = true := by
  rw [lenientFields_eq_all, List.all_eq_true] at h
  simpa only [Field.isLenient, hd, Bool.and_eq_true] using h _ hf

namespace Rig

/-- The fields of a configuration take what bare texts are short for. -/
theorem config_lenient : lenientFields config = true := by
  decide +kernel

/-- The fields of members of families take what bare texts are short for. -/
theorem variant_lenient (variant : Variant) : lenientFields variant.fields = true := by
  rw [lenientFields_eq_all]
  refine all_variant (fun p => ?_) (fun p => ?_) (fun k => ?_) variant
  · cases p <;> decide +kernel
  · cases p <;> decide +kernel
  · have hconduct := @all_conduct (fun e => e.1.isLenient && e.2.isLenient) (fun _ _ _ _ => rfl)
      (by decide +kernel)
    cases k <;> simp only [action, lifeCycle, expectation, hconduct] <;> decide +kernel

end Rig

/-! ## §2 Positions -/

namespace Position

variable {context : Context} {document : Path} {s s' : Position} {x : Data} {t : Step} {r : Route}

/-- Whether the value that is bound at a position is of a shape whose fields take what bare texts
    are short for; and so does the field itself, if one is bound. -/
def IsLenient : Position → Prop
  | value target => ∃ e : Shape, e.isLenient = true ∧ Value.HasShape target e
  | field d target => d.isLenient = true ∧ ∃ e : Shape, e.isLenient = true ∧ Value.HasShape target e
  | _ => True

/-- Where a shape takes what bare texts are short for, so does its new value. -/
theorem isLenient_zero {e : Shape} (he : e.isLenient = true) : (value e.zero).IsLenient :=
  ⟨e, he, Value.hasShape_zero e⟩

theorem isLenient_variant (v : Variant) : (value v.zero).IsLenient :=
  ⟨.oneOf v.family, rfl, .member (Value.slotsHave_zero v.fields)⟩

theorem Enters.isLenient (h : Enters context s x t s') (hs : s.IsLenient) : s'.IsLenient := by
  induction h with
  | slot hslot hd =>
    obtain ⟨e, he, hrecord⟩ := hs
    obtain ⟨fields, hfields, hslots⟩ : ∃ fields, lenientFields fields = true ∧
        Value.SlotsHave _ fields := by
      cases hrecord with
      | record hslots => exact ⟨_, by simpa only [Shape.isLenient] using he, hslots⟩
      | member hslots => exact ⟨_, Rig.variant_lenient _, hslots⟩
    obtain ⟨e', hmem, htarget⟩ := hslots.exists_field hslot
    obtain ⟨hlenient, he'⟩ := lenient_of_mem hfields hmem hd
    exact ⟨hlenient, e', he', htarget⟩
  | entry =>
    obtain ⟨e, he, hmap⟩ := hs
    cases hmap
    exact isLenient_zero he
  | item =>
    obtain ⟨e, he, hlist⟩ := hs
    cases hlist
    exact isLenient_zero he
  | plain hd h ih => exact ih hs.2
  | member => exact isLenient_variant _
  | action => trivial
  | single hd hf h ih => exact ih trivial
  | key => trivial
  | payload hplan h ih => exact ih (isLenient_variant _)
  | group hplan h h' ih ih' => exact ih' (ih (isLenient_variant _))

/-- Routes keep to positions that take what bare texts are short for. -/
theorem Leads.isLenient {within : Position → Prop} (h : Leads context within s x r s')
    (hs : s.IsLenient) : s'.IsLenient := by
  induction h with
  | here => exact hs
  | step h _ _ _ ih => exact ih (h.isLenient hs)

end Position

/-! ## §3 Walks -/

namespace Binding

/-- A text among entries is put into a record as the record itself would be. -/
theorem expanded_insert_text (sub key raw : String) (es : List (String × Data)) :
    expanded sub (Keyed.insert key (.text raw) es) =
      expanded sub (Keyed.insert key (.map [(sub, .text raw)]) es) := by
  induction es with
  | nil => rfl
  | cons e rest ih =>
    obtain ⟨k, v⟩ := e
    simp only [Keyed.insert]
    split_ifs
    · rfl
    · rfl
    · cases v <;> simp only [expanded, ih]

end Binding

namespace Position

variable {context : Context} {document : Path} {s : Position} {long short : Data}

/-- Whether some data at a position differs from other data only in that a bare text stands for a
    record: in place of the record that a field is, or of one in the map that a field is. -/
inductive Shortens : Position → Data → Data → Prop
  | record {d : Directives} {variant : Option Variant} {slots : Slots} {sub raw : String}
      (hstring : d.string? = some sub) :
      Shortens (field d (.record variant slots)) (.map [(sub, .text raw)]) (.text raw)
  | entry {d : Directives} {e : Shape} {old : List (String × Value)} {sub key raw : String}
      {es : List (String × Data)} (hstring : d.string? = some sub) (he : e.isRecord = true) :
      Shortens (field d (.map e old)) (.map (Keyed.insert key (.map [(sub, .text raw)]) es))
        (.map (Keyed.insert key (.text raw) es))

/-- The record that a bare text is short for passes the checks of its field. -/
theorem checkValue_lenient {d : Directives} {sub : String} (hd : d.Lenient sub) (raw : String) :
    checkValue d (.map [(sub, .text raw)]) = .ok () := by
  rw [checkValue_eq, allowedCheck, hd.allowed, ok_bind, presenceCheck]
  cases hkeys : d.keys? with
  | none => rfl
  | some keys =>
    have hany : keys.any (Keyed.has · [(sub, Data.text raw)]) = true :=
      List.any_eq_true.mpr ⟨sub, hd.keys keys hkeys, by simp [Keyed.has, Keyed.get?]⟩
    simp only [hany, if_true]

/-- The record is bound to what its text is bound to, or it is too deep. -/
theorem Shortens.approximates (h : s.Shortens long short) (hs : s.IsLenient) (n : Nat) :
    Approximates (s.walk context document n long) (s.walk context document n short) := by
  cases h with
  | @record d variant slots sub raw hstring =>
    have hd := Directives.lenient_of_isLenient hs.1 hstring
    have htaken : taken d (.record variant slots) (.map [(sub, .text raw)]) =
        .map [(sub, .text raw)] := by
      unfold taken
      cases d.string? <;> rfl
    have hshort : (field d (.record variant slots)).walk context document n (.text raw) = (do
        let filled ← recordInside context (Deeper.level context n) document [(sub, .text raw)] slots
        pure (.record variant filled)) := field_bare hd.factory hstring raw variant slots
    rw [field_walk hd.factory rfl, htaken, checkValue_lenient hd, hd.path, hshort]
    cases n with
    | zero => exact fun _ _ => .inl rfl
    | succ n =>
      have hbelow : (Deeper.level context n).Approximates (Deeper.level context (n + 1)) :=
        Deeper.level_approximates n.le_succ
      exact .bind (Walk.Congruence.recordInside hbelow rfl _ (.refl _)) fun _ => .pure _
  | @entry d e old sub key raw es hstring he =>
    have hd := Directives.lenient_of_isLenient hs.1 hstring
    have htaken (es : List (String × Data)) :
        taken d (.map e old) (.map es) = .map (expanded sub es) := by
      simp only [taken, hstring, he, if_true]
    rw [field_walk hd.factory rfl, field_walk hd.factory rfl, htaken, htaken, expanded_insert_text]
    refine .bind (.lift _) fun _ => ?_
    split
    · exact .lift _
    · exact (Deeper.level_self n).assign _ _ _

end Position

/-! ## §4 Documents -/

namespace Rig

open Position

variable {context : Context}

/-- A document is bound to what its walk comes to. -/
theorem bindDocument_root (d : Document) :
    (bindDocument context d).mapError Error.root =
      (whole.walk context d.path (maxDepth + 1) d.data).outcome :=
  Walker.run_outcome _ _

/-- A document whose walk approximates that of another one is bound to what the other one is bound
    to, or it is too deep. -/
theorem bindDocument_of_approximates {d d' : Document} {c : Value}
    (h : Approximates (whole.walk context d'.path (maxDepth + 1) d'.data)
      (whole.walk context d.path (maxDepth + 1) d.data)) (hd : bindDocument context d = .ok c) :
    bindDocument context d' = .ok c ∨
      ∃ e, bindDocument context d' = .error e ∧ e.root = .tooDeep maxDepth := by
  have hcome := Walk.Approximates.outcome h
  rw [← bindDocument_root, ← bindDocument_root, hd] at hcome
  rcases hcome with hdeep | hsame
  · exact .inr (exists_error_of_mapError hdeep)
  · exact .inl (ok_of_mapError_eq_ok hsame)

/-- A document is bound to what another one is bound to whose walk approximates its own. -/
theorem bindDocument_of_over {d d' : Document} {c : Value}
    (h : Approximates (whole.walk context d.path (maxDepth + 1) d.data)
      (whole.walk context d'.path (maxDepth + 1) d'.data)) (hd : bindDocument context d = .ok c) :
    bindDocument context d' = .ok c := by
  have hcome := Walk.Approximates.outcome h
  rw [← bindDocument_root, ← bindDocument_root, hd] at hcome
  rcases hcome with hdeep | hsame
  · cases hdeep
  · exact ok_of_mapError_eq_ok hsame.symm

/-- Where documents are resolved, each of them has been bound. -/
theorem exists_bindDocument_of_resolve {documents : List Document}
    {overwrites : List (String × String)} {c : Value}
    (h : resolve context documents overwrites = .ok c) :
    ∀ d ∈ documents, ∃ v, bindDocument context d = .ok v := by
  obtain ⟨configs, hconfigs, -⟩ := exists_ok_of_bind h
  exact exists_ok_of_mapM hconfigs

/-- Where a document among others is bound to what another one is bound to, or is too deep, so it is
    with all of them. -/
theorem resolve_of_or_tooDeep {d d' : Document} {v c : Value} (hd : bindDocument context d = .ok v)
    (h : bindDocument context d' = .ok v ∨
      ∃ e, bindDocument context d' = .error e ∧ e.root = .tooDeep maxDepth)
    {before after : List Document} {overwrites : List (String × String)}
    (hresolve : resolve context (before ++ d :: after) overwrites = .ok c) :
    resolve context (before ++ d' :: after) overwrites = .ok c ∨
      ∃ e, resolve context (before ++ d' :: after) overwrites = .error e ∧
        e.root = .tooDeep maxDepth := by
  rcases h with hsame | ⟨e, he, hroot⟩
  · exact .inl (by rw [resolve_congr (hsame.trans hd.symm), hresolve])
  · -- those before it are bound as they were
    obtain ⟨vs, hvs⟩ : ∃ vs, before.mapM (bindDocument context) = .ok vs :=
      exists_mapM_eq_ok fun x hx =>
        exists_bindDocument_of_resolve hresolve x (List.mem_append_left _ hx)
    refine .inr ⟨e, ?_, hroot⟩
    rw [resolve, mapM_append_cons, hvs, he]
    rfl

/-- A bare text and the record that it is short for are interchangeable in a document that is
    accepted: with the text in place of the record it stands for the same configuration, and with
    the record in place of the text it does, or is too deep. -/
theorem shorthand_alike {d : Document} (hd : d.data.Ordered) {r : Route} {s : Position}
    (hlead : Leads context (fun _ => True) whole d.data r s) {long short : Data}
    (h : s.Shortens long short) (before after : List Document)
    {overwrites : List (String × String)} {c : Value}
    (hresolve : resolve context (before ++ d :: after) overwrites = .ok c) :
    (Data.at? r d.data = some long →
      resolve context (before ++ d.put r short :: after) overwrites = .ok c) ∧
    (Data.at? r d.data = some short →
      resolve context (before ++ d.put r long :: after) overwrites = .ok c ∨
        ∃ e, resolve context (before ++ d.put r long :: after) overwrites = .error e ∧
          e.root = .tooDeep maxDepth) := by
  have hlenient : s.IsLenient := hlead.isLenient ⟨.record config, config_lenient,
    Value.isConfig_empty⟩
  have htakes (x : Data) (hx : x ≠ .null) : s.Takes x := by
    refine ⟨hx, ?_⟩
    rintro ⟨variant, slots, rfl⟩
    cases h
  have hlong : s.Takes long := htakes long (by cases h <;> simp)
  have hshort : s.Takes short := htakes short (by cases h <;> simp)
  -- the whole document is no field that takes a bare text
  have hne : r ≠ [] := by
    rintro rfl
    cases hlead
    cases h
  have hdata (x : Data) : (d.put r x).data = Data.put r x d.data :=
    Document.data_put fun hr => absurd hr hne
  -- the record is one level deeper than the text, so its walk approximates that of the text
  have happrox : Approximates
      (whole.walk context d.path (maxDepth + 1) (Data.put r long d.data))
      (whole.walk context d.path (maxDepth + 1) (Data.put r short d.data)) :=
    hlead.walk_put_approximates d.path whole_isTidy hd hlong hshort
      (fun n => h.approximates hlenient n) _
  obtain ⟨v, hv⟩ := exists_bindDocument_of_resolve hresolve d (by simp)
  refine ⟨?_, ?_⟩
  · intro hat
    have hover : bindDocument context (d.put r short) = .ok v := by
      apply bindDocument_of_over _ hv
      rw [hdata, Document.path_put]
      rwa [hd.put_at? hat] at happrox
    rw [resolve_congr (hover.trans hv.symm), hresolve]
  · intro hat
    apply resolve_of_or_tooDeep hv _ hresolve
    apply bindDocument_of_approximates _ hv
    rw [hdata, Document.path_put]
    rwa [hd.put_at? hat] at happrox

/-- The content of a response, in place of a body that has nothing else. -/
theorem shorthand_alike_body :
    let expecting (body : Data) := acting "expect/web" [("response", .map [("body", body)])]
    ∃ c, resolve withoutFiles [expecting (.map [("content", .text "ok")])] [] = .ok c ∧
      resolve withoutFiles [expecting (.text "ok")] [] = .ok c := by
  intro expecting
  let d := expecting (.map [("content", .text "ok")])
  have hordered : d.data.Ordered := Data.ordered_of_isSorted _ (by decide +kernel)
  have haccepted : (resolve withoutFiles [d] []).toOption.isSome = true := by decide +kernel
  have hresponse : directives ⟨"ResponseExpectationAction", "response", "response"⟩ =
      .ok ⟨[("name", "response")]⟩ := rfl
  have hbody : directives
      ⟨"ResponseExpectation", "body", "body,keys=content|pattern,string=content"⟩ =
      .ok ⟨[("keys", "content|pattern"), ("name", "body"), ("string", "content")]⟩ := rfl
  let payload := [("response", Data.map [("body", .map [("content", .text "ok")])])]
  have hplan : Entry.readKeyed "expect/web" (.map payload) =
      .ok ⟨.expectResponse, payload, some "web", none⟩ := rfl
  have hlead := leads_acting "expect/web" payload
    (.step (.payload hplan (.slot (List.mem_of_getElem? (i := 2) rfl) hresponse)) trivial rfl
      (.step (.plain rfl (.slot (List.mem_of_getElem? (i := 2) rfl) hbody)) trivial rfl
        (.here _ _)))
  obtain ⟨c, hc⟩ := Option.isSome_iff_exists.mp haccepted
  have hresolve := ok_of_toOption_eq_some hc
  exact ⟨c, hresolve, (shorthand_alike hordered hlead (.record rfl) [] [] hresolve).1 rfl⟩

end Rig

end Testbed
