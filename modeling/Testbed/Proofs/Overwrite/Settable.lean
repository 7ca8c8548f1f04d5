import Testbed.Proofs.Number.Float
import Testbed.Proofs.Overwrite.Setting
import Testbed.Proofs.Overwrite.Spelling
import Testbed.Proofs.Value.Shaped

/-!
# Which overwrites succeed

An overwrite of a configuration succeeds exactly where its route spells segments that name a leaf,
and its text is one that the leaf takes (`overwrite_done_iff`). Segments name fields of records and
entries of maps, with an index exactly where there is a list; and the last of them may name an entry
that a map of scalars does not have yet.
-/

namespace Testbed.Value

open Number

/-! ## §1 What segments name -/

/-- Whether a value is under a name in another one: in a field that has the name in documents, or in
    the entry of a map. -/
inductive StandsUnder (name : String) : Value → Value → Prop
  | field {variant : Option Variant} {slots : Slots} {f : Field} {w : Value}
      (hmem : (f, w) ∈ slots) (hname : f.documentName? = some name) :
      StandsUnder name (record variant slots) w
  | entry {e : Shape} {entries : List (String × Value)} {w : Value}
      (hmem : (name, w) ∈ entries) : StandsUnder name (map e entries) w

/-- Whether one segment leads from a value to another: under its name there is a list, and it has
    the index of an item, or something else, and it has none. -/
inductive Enters : Segment → Value → Value → Prop
  | name {name : String} {v w : Value} (h : StandsUnder name v w)
      (hw : ∀ e items, w ≠ list e items) : Enters ⟨name, none⟩ v w
  | item {name : String} {i : Nat} {v w : Value} {e : Shape} {items : List Value}
      (h : StandsUnder name v (list e items)) (hi : items[i]? = some w) : Enters ⟨name, some i⟩ v w

/-- Whether segments name a leaf: the scalar that they lead to, or the zero value that a map of
    scalars has ready for a key that is not there. -/
inductive Names : List Segment → Value → Value → Prop
  | here {v : Value} (h : v.isSettable = true) : Names [] v v
  | inside {s : Segment} {rest : List Segment} {v w x : Value} (h : Enters s v w)
      (hrest : Names rest w x) : Names (s :: rest) v x
  | missing {name : String} {e : Shape} {entries : List (String × Value)}
      (hname : name ∉ Keyed.keys entries) (he : e.zero.isSettable = true) :
      Names [⟨name, none⟩] (map e entries) e.zero

/-- Whether a scalar takes a text: any one where a text stands, a numeral in the range of an
    integer, and the numeral of a float. -/
inductive Takes (raw : String) : Value → Prop
  | text (s : String) : Takes raw (text s)
  | int {w : IntWidth} {n m : Int} (hraw : IsInteger raw.toList m) (hm : w.holds m = true) :
      Takes raw (int w n)
  | float {w : FloatWidth} {x : Binary} (hraw : IsFloat raw.toList) : Takes raw (float w x)

/-! ## §2 Leaves by their segments -/

variable {v w x : Value} {s : Shape} {name : String}

/-- A name leads to a field that has it. -/
theorem exists_field_of_slotNamed? {slots : Slots} (h : slotNamed? name slots = some w) :
    ∃ f, (f, w) ∈ slots ∧ f.documentName? = some name := by
  induction slots with
  | nil => cases h
  | cons e rest ih =>
    obtain ⟨f, v⟩ := e
    rw [slotNamed?] at h
    split at h
    · cases h
    · next n hn =>
      split at h
      · next hname =>
        obtain rfl := Option.some.inj h
        exact ⟨f, List.mem_cons_self, hname ▸ hn⟩
      · obtain ⟨f', hmem, hf'⟩ := ih h
        exact ⟨f', List.mem_cons_of_mem _ hmem, hf'⟩

/-- No two fields have one name, and no two entries one key, so a name leads to what it holds. -/
theorem standsUnder_iff (h : HasShape v s) (hs : s.isTidy = true) :
    StandsUnder name v w ↔ child? (.key name) v = some w := by
  constructor
  · intro hholds
    cases hholds with
    | @field variant slots f w hmem hname =>
      obtain ⟨fields, hslots, ht, -⟩ := h.ofRecord hs
      obtain rfl := Option.some.inj ((hslots.of_mem ht hmem).1.symm.trans hname)
      exact hslots.slotNamed?_of_mem ht hmem
    | entry hmem =>
      cases h with
      | map horder _ => exact Keyed.get?_eq_some_of_mem horder.nodup_keys hmem
  · intro hchild
    cases v with
    | record variant slots =>
      obtain ⟨f, hmem, hname⟩ := exists_field_of_slotNamed? hchild
      exact .field hmem hname
    | map e entries => exact .entry (Keyed.mem_of_get?_eq_some hchild)
    | _ => simp [Value.child?] at hchild

/-- What a segment leads to has a tidy shape too. -/
theorem Enters.hasShape {segment : Segment} (henters : Enters segment v w) (h : HasShape v s)
    (hs : s.isTidy = true) : ∃ e : Shape, e.isTidy = true ∧ HasShape w e := by
  cases henters with
  | name hholds _ => exact h.child? hs ((standsUnder_iff h hs).mp hholds)
  | @item _ i _ _ _ _ hholds hi =>
    obtain ⟨e, he, hlist⟩ := h.child? hs ((standsUnder_iff h hs).mp hholds)
    exact hlist.child? (t := .index i) he hi

/-- A list has no leaf where an index is missing. -/
theorem leaf?_route_list (segments : List Segment) (e : Shape) (items : List Value) :
    leaf? (Segment.route segments) (list e items) = none := by
  cases segments with
  | nil => rfl
  | cons segment rest => simp [Segment.route_cons, leaf?, Value.child?, fresh?]

/-- What a segment leads to holds the leaves of the segments behind it. -/
theorem leaf?_of_enters (h : HasShape v s) (hs : s.isTidy = true) {segment : Segment}
    (henters : Enters segment v w) (r : Route) : leaf? (segment.steps ++ r) v = leaf? r w := by
  cases henters with
  | name hholds _ => simp [Segment.steps, leaf?, (standsUnder_iff h hs).mp hholds]
  | @item _ i _ _ e items hholds hi =>
    have hindex : Value.child? (.index i) (list e items) = some w := hi
    simp [Segment.steps, leaf?, (standsUnder_iff h hs).mp hholds, hindex]

/-- A segment leads on to its leaf, or is the last one and names a new entry of a map. -/
theorem leaf?_cons_cases (h : HasShape v s) (hs : s.isTidy = true) {segment : Segment}
    {rest : List Segment} (hleaf : leaf? (Segment.route (segment :: rest)) v = some x) :
    (∃ w, Enters segment v w) ∨
      ∃ e entries, v = map e entries ∧ segment.index = none ∧ rest = [] ∧
        segment.name ∉ Keyed.keys entries ∧ e.zero.isSettable = true ∧ x = e.zero := by
  obtain ⟨name, index⟩ := segment
  rw [Segment.route_cons, leaf?] at hleaf
  cases hchild : Value.child? (.key name) v with
  | some y =>
    left
    have hholds := (standsUnder_iff h hs).mpr hchild
    simp only [hchild] at hleaf
    cases index with
    | none =>
      refine ⟨y, .name hholds ?_⟩
      rintro e items rfl
      have hnone : leaf? (Segment.route rest) (list e items) = some x := hleaf
      rw [leaf?_route_list] at hnone
      cases hnone
    | some i =>
      -- only in a list does an index lead anywhere
      cases y with
      | list e items =>
        cases hi : items[i]? with
        | none => simp [leaf?, Value.child?, fresh?, hi] at hleaf
        | some w => exact ⟨w, .item hholds hi⟩
      | _ => simp [leaf?, Value.child?, fresh?] at hleaf
  | none =>
    right
    simp only [hchild] at hleaf
    split at hleaf
    · next hlast =>
      obtain ⟨hindex, hroute⟩ := List.append_eq_nil_iff.mp hlast
      obtain ⟨hfresh, hset⟩ := Option.filter_eq_some_iff.mp hleaf
      cases v with
      | map e entries =>
        obtain rfl : e.zero = x := Option.some.inj hfresh
        refine ⟨e, entries, rfl, by simpa using hindex, Segment.route_eq_nil_iff.mp hroute, ?_,
          hset, rfl⟩
        exact Keyed.get?_eq_none_iff.mp hchild
      | _ => cases hfresh
    · cases hleaf

/-- Segments name the leaf at their route. -/
theorem names_iff (h : HasShape v s) (hs : s.isTidy = true) {segments : List Segment} :
    Names segments v x ↔ leaf? (Segment.route segments) v = some x := by
  induction segments generalizing v s with
  | nil =>
    constructor
    · rintro ⟨hset⟩
      simp [leaf?, hset]
    · intro hleaf
      have hset := isSettable_of_leaf?_nil hleaf
      obtain rfl : v = x := by simpa [leaf?, hset] using hleaf
      exact .here hset
  | cons segment rest ih =>
    -- what a segment leads to has a shape again
    have hinside {w : Value} (henters : Enters segment v w) :
        Names rest w x ↔ leaf? (Segment.route (segment :: rest)) v = some x := by
      obtain ⟨e, he, hw⟩ := henters.hasShape h hs
      exact (ih hw he).trans (leaf?_of_enters h hs henters _ ▸ Iff.rfl)
    constructor
    · intro hnames
      cases hnames with
      | inside henters hrest => exact (hinside henters).mp hrest
      | missing hname he =>
        have hnone := Keyed.get?_eq_none_iff.mpr hname
        simp [Segment.route_cons, leaf?, Value.child?, hnone, fresh?, Option.filter, he]
    · intro hleaf
      rcases leaf?_cons_cases h hs hleaf with
        ⟨w, henters⟩ | ⟨e, entries, rfl, hindex, rfl, hname, he, rfl⟩
      · exact .inside henters ((hinside henters).mpr hleaf)
      · obtain ⟨name, index⟩ := segment
        obtain rfl : index = none := hindex
        exact .missing hname he

/-! ## §3 Texts -/

/-- Every integer of a configuration fits a signed word. -/
theorem holds_i64 {w : IntWidth} (hw : w ≠ .u64) {n : Int} (h : w.holds n = true) :
    IntWidth.i64.low ≤ n ∧ n ≤ IntWidth.i64.high := by
  simp only [IntWidth.holds, Bool.and_eq_true, decide_eq_true_eq] at h
  cases w with
  | u64 => exact absurd rfl hw
  | _ =>
    simp only [IntWidth.low, IntWidth.high, IntWidth.bits] at h ⊢
    omega

/-- A leaf of a configuration takes a text exactly where the text can be stored in its place. -/
theorem takes_iff (h : HasShape x s) (hs : s.isTidy = true) {raw : String} :
    Takes raw x ↔ ∃ w, store? raw x = some w := by
  cases h with
  | text r => exact ⟨fun _ => ⟨_, store?_text raw r⟩, fun _ => .text r⟩
  | @int k n hn =>
    have hk : k ≠ .u64 := by simpa [Shape.isTidy] using hs
    simp only [store?_int, Option.bind_eq_some_iff, ofInt?_eq_some_iff]
    constructor
    · rintro (_ | ⟨hraw, hm⟩)
      obtain ⟨hlow, hhigh⟩ := holds_i64 hk hm
      refine ⟨_, _, ?_, hm, rfl⟩
      rw [(readInt_eq_ok_iff (by decide) (by decide)).mpr ⟨hraw, hlow, hhigh, fun _ => by decide⟩]
      rfl
    · rintro ⟨_, m, hread, hm, rfl⟩
      have hok := ok_of_toOption_eq_some hread
      exact .int ((readInt_eq_ok_iff (by decide) (by decide)).mp hok).1 hm
  | @float k y hy =>
    -- a double takes whatever is read
    obtain rfl : k = .f64 := by simpa [Shape.isTidy] using hs
    simp only [store?_float, Option.bind_eq_some_iff]
    constructor
    · rintro (_ | _ | hraw)
      obtain ⟨z, hz⟩ := readFloat_ok_iff.mpr hraw
      exact ⟨_, z, by rw [hz]; rfl, rfl⟩
    · rintro ⟨_, z, hread, -⟩
      exact .float (readFloat_ok_iff.mp ⟨z, ok_of_toOption_eq_some hread⟩)
  | _ =>
    constructor
    · rintro ⟨⟩
    · rintro ⟨w, hw⟩
      simp [store?, setScalar] at hw

/-! ## §4 Overwrites -/

/-- An overwrite of a configuration succeeds exactly where its route is not empty and spells
    segments that name a leaf of the configuration, and the leaf takes the text. -/
theorem overwrite_done_iff {c : Value} (hc : IsConfig c) (route raw : String) :
    (∃ c', overwrite route raw c = .done c') ↔
      route ≠ "" ∧ ∃ segments leaf, Segment.SpellsRoute route segments ∧ Names segments c leaf ∧
        Takes raw leaf := by
  have htidy : (Shape.record Rig.config).isTidy = true := Rig.config_tidy
  simp only [← After.toOption_eq_some_iff, overwrite_toOption, Option.bind_eq_some_iff,
    setLeaf?_eq_some_iff]
  constructor
  · rintro ⟨c', segments, hread, leaf, w, hleaf, hstore, -⟩
    have hspells := Segment.readRoute_eq_ok_iff.mp (ok_of_toOption_eq_some hread)
    have hnames : Names segments c leaf := (names_iff hc htidy).mpr hleaf
    obtain ⟨e, he, hshape, -⟩ := HasShape.leaf? hc htidy hleaf
    refine ⟨?_, segments, leaf, hspells, hnames, (takes_iff hshape he).mpr ⟨w, hstore⟩⟩
    rintro rfl
    -- a configuration is not a leaf itself
    obtain rfl := Segment.spellsRoute_empty_iff.mp hspells
    cases hnames with
    | here hset =>
      cases hc
      cases hset
  · rintro ⟨-, segments, leaf, hspells, hnames, htakes⟩
    have hleaf := (names_iff hc htidy).mp hnames
    obtain ⟨e, he, hshape, -⟩ := HasShape.leaf? hc htidy hleaf
    obtain ⟨w, hstore⟩ := (takes_iff hshape he).mp htakes
    refine ⟨_, segments, ?_, leaf, w, hleaf, hstore, rfl⟩
    rw [Segment.readRoute_eq_ok_iff.mpr hspells]
    rfl

/-- A new parameter of a server, whose index is written with a sign. -/
theorem overwrite_done_iff_parameter :
    IsConfig oneServer ∧
      Segment.SpellsRoute "servers[+0].parameters.limit"
        [⟨"servers", some 0⟩, ⟨"parameters", none⟩, ⟨"limit", none⟩] ∧
      ∃ c', overwrite "servers[+0].parameters.limit" "1G" oneServer = .done c' := by
  have hindex : Segment.IsIndex (['+'] ++ ['0']) 0 :=
    .mk (.inr rfl) (by decide) (by simp) (by decide)
  have hname : Step.IsName "servers" := by decide
  have hserver : Segment.Spells "servers[+0]".toList ⟨"servers", some 0⟩ := .index hname hindex
  have hspells : Segment.SpellsRoute "servers[+0].parameters.limit"
      [⟨"servers", some 0⟩, ⟨"parameters", none⟩, ⟨"limit", none⟩] :=
    ⟨["servers[+0]".toList, "parameters".toList, "limit".toList], by decide,
      .cons hserver (.cons (.name (by decide)) (.cons (.name (by decide)) .nil))⟩
  have hfound : (leaf? (Segment.route [⟨"servers", some 0⟩, ⟨"parameters", none⟩, ⟨"limit", none⟩])
      oneServer).bind text? = some "" := by decide +kernel
  obtain ⟨leaf, hleaf, htext⟩ := Option.bind_eq_some_iff.mp hfound
  have htakes : Takes "1G" leaf := by
    cases leaf with
    | text r => exact .text r
    | _ => cases htext
  have hnames := (names_iff isConfig_oneServer Rig.config_tidy).mpr hleaf
  exact ⟨isConfig_oneServer, hspells, (overwrite_done_iff isConfig_oneServer _ _).mpr
    ⟨by decide, _, leaf, hspells, hnames, htakes⟩⟩

end Testbed.Value
