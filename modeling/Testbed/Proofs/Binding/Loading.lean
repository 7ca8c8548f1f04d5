import Testbed.Proofs.Binding.Alike
import Testbed.Proofs.Binding.Routing

/-!
# Patterns for documents

A pattern under a loadable field stands for the documents that match it. In a list they stand one
after the other, as if their maps were written there, if they are in the directory of the document
that has the pattern: binding looks at nothing else of where a document is (`Walk.approximation`),
and what is loaded has one more level to go down. In a map each stands under its name, and of
several with one name the last one counts, as if it were the only one: what those before it have
left is bound again like a value that is new (`Deeper.level_blind`). Both is
`Walker.field_loadable`.
-/

namespace Testbed

open Binding Walk

/-! ## §1 Entries that are filled again -/

namespace Keyed

variable {α : Type}

/-- A key has a last entry. -/
theorem exists_last_of_mem_keys {key : String} {entries : List (String × α)}
    (h : key ∈ keys entries) :
    ∃ before x after, entries = before ++ (key, x) :: after ∧ key ∉ keys after := by
  induction entries with
  | nil => cases h
  | cons e rest ih =>
    by_cases hrest : key ∈ keys rest
    · obtain ⟨before, x, after, rfl, hafter⟩ := ih hrest
      exact ⟨e :: before, x, after, rfl, hafter⟩
    · obtain ⟨k, x⟩ := e
      obtain rfl : key = k := by simpa [hrest] using h
      exact ⟨[], x, rest, rfl, hrest⟩

end Keyed

namespace Binding

variable {α : Type}

/-- Whether entries come of filling the keys of some things: something is made of each of them,
    which stands under its key unless the key comes again; and every other key is as it was filled
    before. -/
structure EachFilled (made : String → α → Value → Prop) (xs : List (String × α))
    (filled es : List (String × Value)) : Prop where
  each : ∀ before key x after, xs = before ++ (key, x) :: after →
    ∃ v, made key x v ∧ (key ∉ Keyed.keys after → Keyed.get? key es = some v)
  rest : ∀ key, key ∉ Keyed.keys xs → Keyed.get? key es = Keyed.get? key filled

section

variable {made : String → α → Value → Prop} {xs : List (String × α)}
  {filled es : List (String × Value)}

theorem eachFilled_nil (es : List (String × Value)) : EachFilled made [] es es :=
  ⟨by simp, fun _ _ => rfl⟩

theorem EachFilled.mono {made' : String → α → Value → Prop} (h : EachFilled made xs filled es)
    (hmade : ∀ key x v, made key x v → made' key x v) : EachFilled made' xs filled es := by
  refine ⟨fun before key x after heq => ?_, h.rest⟩
  obtain ⟨v, hv, hstands⟩ := h.each before key x after heq
  exact ⟨v, hmade key x v hv, hstands⟩

theorem EachFilled.cons {key : String} {x : α} {v : Value} (hmade : made key x v)
    (h : EachFilled made xs (Keyed.insert key v filled) es) :
    EachFilled made ((key, x) :: xs) filled es := by
  constructor
  · intro before key' y after heq
    cases before with
    | nil =>
      obtain ⟨hhead, rfl⟩ := List.cons.inj heq
      obtain ⟨rfl, rfl⟩ := Prod.mk.inj hhead
      refine ⟨v, hmade, fun hafter => ?_⟩
      rw [h.rest key hafter, Keyed.get?_insert_self]
    | cons b before => exact h.each before key' y after (List.cons.inj heq).2
  · intro other hother
    obtain ⟨hne, hrest⟩ : other ≠ key ∧ other ∉ Keyed.keys xs := by simpa using hother
    rw [h.rest other hrest, Keyed.get?_insert_of_ne hne]

/-- The keys after filling are those from before and those of what was filled in. -/
theorem EachFilled.mem_keys_iff (h : EachFilled made xs filled es) {key : String} :
    key ∈ Keyed.keys es ↔ key ∈ Keyed.keys filled ∨ key ∈ Keyed.keys xs := by
  rw [← not_iff_not, not_or, ← Keyed.get?_eq_none_iff, ← Keyed.get?_eq_none_iff]
  by_cases hkey : key ∈ Keyed.keys xs
  · obtain ⟨before, x, after, heq, hafter⟩ := Keyed.exists_last_of_mem_keys hkey
    obtain ⟨v, -, hv⟩ := h.each before key x after heq
    simp [hv hafter, hkey]
  · simp [h.rest key hkey, hkey]

end

/-- Whether values of a shape that were filled are filled again like one that is new, wherever the
    walk begins. -/
structure FillsAfresh (fill : α → Value → Walk Value) (e : Shape) : Prop where
  again : ∀ x {v}, v.Alike e.zero → fill x v = fill x e.zero
  kept : ∀ x, Ensures (Value.Alike · e.zero) (fill x e.zero)
  approximates : ∀ x v, Approximates (fill x v) (fill x v)

/-- Filling a map leaves under each key what its last entry comes to. An earlier one with the same
    key leaves a value like a new one, so it does not matter. -/
theorem entries_ensures_each {fill : α → Value → Walk Value} {e : Shape} (h : FillsAfresh fill e)
    (xs : List (String × α)) {filled : List (String × Value)}
    (hfilled : EachEntry (fun _ v => v.Alike e.zero) filled) :
    Ensures (EachFilled (fun _ x v => (fill x e.zero).outcome = .ok v) xs filled)
      (entries e fill xs filled) := by
  induction xs generalizing filled with
  | nil => exact .pure (eachFilled_nil filled)
  | cons entry rest ih =>
    obtain ⟨key, x⟩ := entry
    have hold : ((Keyed.get? key filled).getD e.zero).Alike e.zero := by
      cases hget : Keyed.get? key filled with
      | none => exact .refl _
      | some v => exact hfilled.each key v (Keyed.mem_of_get?_eq_some hget)
    refine .after fun _ => ?_
    rw [h.again x hold]
    refine ((h.kept x).and (h.approximates x _).ensures).bind fun v hv => ?_
    exact (ih (hfilled.insert hv.1)).mono fun es hes => hes.cons hv.2

/-- Making members leaves under each key what its last entry comes to. -/
theorem members_ensures_each {fill : Data → Value → Walk Value}
    (happrox : ∀ x v, Approximates (fill x v) (fill x v)) (member? : String → Option Value)
    (unknown : String → Cause) (es : List (String × Data)) (filled : List (String × Value)) :
    Ensures
      (EachFilled (fun key x v => ∃ zero, member? key = some zero ∧ (fill x zero).outcome = .ok v)
        es filled)
      (members member? unknown fill es filled) := by
  induction es generalizing filled with
  | nil => exact .pure (eachFilled_nil filled)
  | cons entry rest ih =>
    obtain ⟨key, x⟩ := entry
    refine .after fun _ => ?_
    cases hmember : member? key with
    | none => exact .fail _
    | some zero =>
      refine (happrox x zero).ensures.bind fun v hv => ?_
      exact (ih _).mono fun es hes => hes.cons ⟨zero, hmember, hv⟩

end Binding

namespace Deeper

variable {context : Context}

/-- On every level a value that was bound is bound again like one that is new. -/
theorem level_fillsAfresh (n : Nat) (document : Path) (e : Shape) :
    FillsAfresh ((level context n).assign document) e where
  again x _ hv := level_blind n document x hv
  kept x := level_renews n document x e
  approximates x v := (level_self n).assign document x v

/-- Documents that are loaded fill values in the same way, each in itself. -/
theorem level_fillsAfresh_loaded (n : Nat) (e : Shape) :
    FillsAfresh (fun (m : Document) v =>
      located m.path ((level context n).assign m.path (.map m.entries) v)) e where
  again m _ hv := congrArg (located m.path) ((level_fillsAfresh n m.path e).again m.data hv)
  kept m := .located _ ((level_fillsAfresh n m.path e).kept m.data)
  approximates m v := .located _ _ ((level_self n).assign m.path m.data v)

end Deeper

/-! ## §2 Loadable fields -/

/-- Whether a tag says nothing but a name and that documents are loaded. -/
structure Directives.OnlyLoadable (d : Directives) : Prop where
  loadable : d.isLoadable = true
  others : ∀ key, key ≠ "name" → key ≠ "loadable" → d.get? key = none

namespace Binding

variable {context : Context} {deeper : Deeper} {document : Path} {d : Directives}

/-- A field that loads documents and does nothing else is bound as its value is. -/
theorem field_onlyLoadable (hd : d.OnlyLoadable) (data : Data) (target : Value) :
    field context deeper document d data target =
      value context deeper document d data target := by
  have hfactory : d.factory? = none := hd.others _ (by decide) (by decide)
  have hstring : d.string? = none := hd.others _ (by decide) (by decide)
  have hbare : ¬ IsBare d target data := by
    rintro ⟨sub, _, _, _, hsub, -⟩
    cases hstring.symm.trans hsub
  have htaken : taken d target data = data := by
    simp only [taken, hstring]
  rw [field_value hfactory hbare, htaken]

theorem field_pattern (hd : d.OnlyLoadable) (pattern : String) (target : Value) :
    field context deeper document d (.text pattern) target =
      loaded context deeper document pattern target := by
  rw [field_onlyLoadable hd]
  simp only [value, hd.loadable, if_true]

theorem field_inline_outcome (hdeeper : deeper.Approximates deeper) (hd : d.OnlyLoadable)
    (xs : List Data) (target : Value) :
    (field context deeper document d (.list xs) target).outcome =
      (deeper.assign document (.list xs) target).outcome := by
  have hallowed : d.allowed? = none := by
    rw [Directives.allowed?, hd.others _ (by decide) (by decide)]
    rfl
  have hkeys : d.keys? = none := by
    rw [Directives.keys?, hd.others _ (by decide) (by decide)]
    rfl
  have hpath : d.isPath = false := by
    rw [Directives.isPath, hd.others _ (by decide) (by decide)]
    rfl
  have hcheck : checkValue d (.list xs) = .ok () := by
    simp only [checkValue, hallowed, hkeys]
    rfl
  rw [field_onlyLoadable hd, value_outcome hdeeper (by rintro s ⟨⟩), hcheck, hpath]
  rfl

/-- Maps that are written into a list come to what the documents that hold them come to, if these
    are in the directory of the list, or they are too deep: a document begins one level higher. -/
theorem assign_list_loaded (n : Nat) (documents : List Document)
    (hdirectory : ∀ m ∈ documents, m.path.directory = document.directory) (e : Shape)
    (old : List Value) {pattern : String}
    (hload : Document.loadMatching context.files document.directory pattern = .ok documents) :
    ((Deeper.level context n).assign document (.list (documents.map Document.data))
        (.list e old)).outcome = tooDeep ∨
      ((Deeper.level context n).assign document (.list (documents.map Document.data))
        (.list e old)).outcome =
      (loaded context (Deeper.level context n) document pattern (.list e old)).outcome := by
  cases n with
  | zero => exact .inl rfl
  | succ n =>
    let inline (m : Document) : Except Cause Value :=
      ((Deeper.level context n).assign document m.data e.zero).outcome
    let loaded (m : Document) : Except Cause Value :=
      ((Deeper.level context (n + 1)).assign m.path m.data e.zero).outcome
    -- in line an item is one level deeper than loaded, so it alone may be too deep
    have hitem (m : Document) (hm : m ∈ documents) : inline m = tooDeep ∨ inline m = loaded m := by
      have hlevels : approximation.Below (Deeper.level context n) (Deeper.level context (n + 1)) :=
        Deeper.level_approximates n.le_succ
      exact Approximates.outcome
        (hlevels.assign (hdirectory m hm).symm m.data (.refl e.zero))
    have hitems : documents.mapM inline = tooDeep ∨ documents.mapM inline = documents.mapM loaded :=
      mapM_eq_error_or hitem
    have hinline : ((Deeper.level context (n + 1)).assign document
        (.list (documents.map Document.data)) (.list e old)).outcome =
        .list e <$> documents.mapM inline := by
      show (assign context (Deeper.level context n) document
        (.list (documents.map Document.data)) (.list e old)).outcome = _
      rw [assign_list_outcome (Deeper.level_self n), List.mapM_map]
      rfl
    rw [hinline, loaded_list_outcome (Deeper.level_self (n + 1)), hload]
    rcases hitems with hdeep | heq
    · exact .inl (by rw [hdeep]; rfl)
    · exact .inr (by rw [heq]; rfl)

/-- A map for which a pattern stands has an entry for each name of a document that the pattern
    loads. Every document is bound, like one that is alone, and the last one with a name stands
    there. -/
theorem loaded_map_outcome (n : Nat) {pattern : String} {documents : List Document} {e : Shape}
    {old : List (String × Value)} {v : Value}
    (hload : Document.loadMatching context.files document.directory pattern = .ok documents)
    (h : (loaded context (Deeper.level context n) document pattern (.map e old)).outcome = .ok v) :
    ∃ es, v = .map e es ∧ Keyed.Ordered es ∧
      EachFilled
        (fun _ (m : Document) x =>
          ((Deeper.level context n).assign m.path m.data e.zero).outcome = .ok x)
        (documents.map fun m => (m.name, m)) [] es := by
  have hafresh : FillsAfresh (fun (m : Document) x =>
      located m.path ((Deeper.level context n).assign m.path (.map m.entries) x)) e :=
    Deeper.level_fillsAfresh_loaded n e
  have hentries (documents : List Document) := Approximates.insideMap
    (approximation.entries hafresh.approximates e (documents.map fun m => (m.name, m)) [])
  rw [loaded, outcome_bind fun documents => .bind (hentries documents) fun _ => .pure _,
    outcome_lift, hload, ok_bind, outcome_bind fun _ => .pure _,
    outcome_insideMap (approximation.entries hafresh.approximates e _ [])] at h
  obtain ⟨es, hes, hv⟩ := exists_ok_of_bind h
  have heach := (entries_ensures_each hafresh (documents.map fun m => (m.name, m))
    eachEntry_nil).outcome hes
  have horder := (entries_ensures (P := fun _ => True) trivial
    (fun _ _ _ _ _ _ _ => trivial) (documents.map fun m => (m.name, m)) eachEntry_nil).outcome hes
  simp only [outcome_located] at heach
  exact ⟨es, (Except.ok.inj hv).symm, horder.order, heach⟩

end Binding

/-! ## §3 Walkers -/

namespace Walker

variable {w : Walker} {d : Directives} {pattern : String} {documents : List Document}

/-- A pattern under a field that loads documents, and does nothing else, stands for the documents
    that match it, in the order of their paths. If they are in the directory of the document that
    has the pattern, a list is bound as if their maps were written into it, with the same result or
    an error of the same cause; only what would be too deep may be accepted. A map has the names of
    the documents as its keys, and under each the last document with the name, bound afresh. -/
theorem field_loadable (hd : d.OnlyLoadable)
    (hload : Document.loadMatching w.context.files w.document.directory pattern = .ok documents)
    (e : Shape) :
    (∀ old : List Value, (∀ m ∈ documents, m.path.parent? = w.document.parent?) →
      let inline := (w.field d (.list (documents.map Document.data)) (.list e old)).1
      let loaded := (w.field d (.text pattern) (.list e old)).1
      (∀ v, inline = .ok v → loaded = .ok v) ∧
        ∀ error, inline = .error error → error.root ≠ .tooDeep maxDepth →
          ∃ error', loaded = .error error' ∧ error'.root = error.root) ∧
    ∀ (old : List (String × Value)) (v : Value),
      (w.field d (.text pattern) (.map e old)).1 = .ok v →
      ∃ es, v = .map e es ∧ Keyed.Ordered es ∧
        (∀ key, key ∈ Keyed.keys es ↔ key ∈ documents.map Document.name) ∧
        ∀ before m after, documents = before ++ m :: after →
          m.name ∉ after.map Document.name →
          ∃ x, Keyed.get? m.name es = some x ∧
            ({ w with document := m.path }.assign m.data e.zero).1 = .ok x := by
  constructor
  · intro old hparent inline loaded
    -- what is loaded is bound in a document of the same directory, so relative paths mean the same
    have hdirectory : ∀ m ∈ documents, m.path.directory = w.document.directory :=
      fun m hm => by rw [Path.directory, Path.directory, hparent m hm]
    have hinline : inline.mapError Error.root = _ := w.root_field d _ _
    have hloaded : loaded.mapError Error.root = _ := w.root_field d _ _
    have hsame : inline.mapError Error.root = tooDeep ∨
        inline.mapError Error.root = loaded.mapError Error.root := by
      rw [hinline, hloaded, field_inline_outcome (Deeper.level_self _) hd, field_pattern hd]
      exact assign_list_loaded (maxDepth - w.depth) documents hdirectory e old hload
    constructor
    · intro v hv
      rw [hv] at hsame
      rcases hsame with hdeep | heq
      · cases hdeep
      · exact ok_of_mapError_eq_ok heq.symm
    · intro error herror hroot
      rw [herror] at hsame
      rcases hsame with hdeep | heq
      · exact absurd (Except.error.inj hdeep) hroot
      · exact exists_error_of_mapError heq.symm
  · intro old v hv
    have hloaded := w.root_field d (.text pattern) (.map e old)
    rw [field_pattern hd, hv] at hloaded
    obtain ⟨es, rfl, horder, heach⟩ := loaded_map_outcome _ hload hloaded.symm
    refine ⟨es, rfl, horder, ?_, ?_⟩
    · intro key
      rw [heach.mem_keys_iff, Keyed.keys, Keyed.keys, List.map_map]
      simp [Function.comp_def]
    · intro before m after heq hafter
      have hkeys : m.name ∉ Keyed.keys (after.map fun m => (m.name, m)) := by
        rwa [Keyed.keys, List.map_map]
      -- of the documents with one name the last counts, as nothing after it has that key
      obtain ⟨x, hmade, hx⟩ := heach.each (before.map fun m => (m.name, m)) m.name m
        (after.map fun m => (m.name, m)) (by rw [heq]; simp)
      have hassign := Walker.root_assign { w with document := m.path } m.data e.zero
      exact ⟨x, hx hkeys, ok_of_mapError_eq_ok (hassign.trans hmade)⟩

/-- Two files of one name, the later one with another text. -/
def sameNames : StoredFiles :=
  (StoredFiles.empty.insert "/r/a.json" [123, 34, 107, 34, 58, 34, 120, 34, 125]).insert
    "/r/a.toml" [107, 61, 34, 121, 34]

/-- A walker in the directory of these files. -/
def besideNames : Walker :=
  ⟨⟨sameNames.fileSystem, .standard, true⟩, "/r/main.yaml", 3, .outside⟩

/-- What the two files hold. -/
def namedDocuments : List Document :=
  [⟨"/r/a.json", [("k", .text "x")]⟩, ⟨"/r/a.toml", [("k", .text "y")]⟩]

/-- The pattern finds documents whose names are the same up to the extension. -/
theorem loadMatching_sameNames : Document.loadMatching besideNames.context.files
    besideNames.document.directory "*" = .ok namedDocuments := by
  have hglob : besideNames.context.files.glob (Path.join besideNames.document.directory "*") =
      .ok ["/r/a.json", "/r/a.toml"] := ok_of_toOption_eq_some (by decide +kernel)
  have hsorted : Path.sorted ["/r/a.json", "/r/a.toml"] = ["/r/a.json", "/r/a.toml"] :=
    List.mergeSort_of_pairwise (by decide +kernel)
  simp only [Document.loadMatching, hglob, hsorted]
  rfl

/-- In a list both files stand, in a map the later one alone. -/
theorem field_loadable_same :
    let d : Directives := ⟨[("loadable", "true"), ("name", "texts")]⟩
    (∃ v, (besideNames.field d (.text "*") (.list (.map .text) [])).1 = .ok v ∧
      v.items.length = 2) ∧
    ∃ es x, (besideNames.field d (.text "*") (.map (.map .text) [])).1 =
        .ok (.map (.map .text) es) ∧
      Keyed.get? "a" es = some x ∧ (Keyed.get? "k" x.entries).bind Value.text? = some "y" := by
  intro d
  have hd : d.OnlyLoadable := by
    refine ⟨by decide, fun key hname hloadable => ?_⟩
    simp [d, Directives.get?, Keyed.get?, hname.symm, hloadable.symm]
  obtain ⟨hlist, hmap⟩ := field_loadable hd loadMatching_sameNames (.map .text)
  constructor
  · -- a list has both documents, and a map the last of the two that share a name
    have hinline : ((besideNames.field d (.list (namedDocuments.map Document.data))
        (.list (.map .text) [])).1.toOption.map fun v => v.items.length) = some 2 := by
      decide +kernel
    obtain ⟨v, hv, hlength⟩ := Option.map_eq_some_iff.mp hinline
    obtain ⟨hsame, -⟩ := hlist [] (by decide +kernel)
    exact ⟨v, hsame v (ok_of_toOption_eq_some hv), hlength⟩
  · have hbinds : (besideNames.field d (.text "*") (.map (.map .text) [])).1.toOption.isSome := by
      rw [Walker.field, Walker.run, field_pattern hd, loaded, loadMatching_sameNames]
      decide +kernel
    obtain ⟨v, hv⟩ := Option.isSome_iff_exists.mp hbinds
    obtain ⟨es, rfl, -, -, hlast⟩ := hmap [] v (ok_of_toOption_eq_some hv)
    obtain ⟨x, hx, hmade⟩ := hlast [⟨"/r/a.json", [("k", .text "x")]⟩]
      ⟨"/r/a.toml", [("k", .text "y")]⟩ [] rfl (by simp)
    have hmade' : ({ besideNames with document := "/r/a.toml" }.assign
        (.map [("k", .text "y")]) (Shape.map .text).zero).1 = .ok x := hmade
    have htext : (({ besideNames with document := "/r/a.toml" }.assign
        (.map [("k", .text "y")]) (Shape.map .text).zero).1.toOption.map
          fun v : Value => (Keyed.get? "k" v.entries).bind Value.text?) = some (some "y") := by
      decide +kernel
    rw [hmade'] at htext
    exact ⟨es, x, ok_of_toOption_eq_some hv, hx, Option.some.inj htext⟩

end Walker

end Testbed
