import Testbed.Proofs.Number.Decimal
import Testbed.Proofs.Overwrite.Reading
import Testbed.Proofs.Value.Serialized

/-!
# Listed leaves

A listing shows every scalar of a configuration under its route. The route can be read back into
segments, as fields have the names in documents that they are shown under and no list is directly
inside another; and the text of a scalar is read back as that scalar. So overwriting a leaf with
what it is listed with changes nothing.
-/

namespace Testbed.Value

open Number Number.Binary

/-! ## §1 The text of a scalar -/

/-- Whether a scalar is listed as a text that can be stored again. -/
def isListed : Value → Bool
  | int _ _ => true
  | float _ x => x.isFinite
  | text _ => true
  | _ => false

/-- The text that a scalar is listed with is stored as that scalar. -/
theorem store?_leafText {v : Value} {s : Shape} (h : HasShape v s) (hs : s.isTidy = true)
    (hv : v.isListed = true) : store? (Data.leafText v.toData) v = some v := by
  cases h with
  | text r => rfl
  | @int w n hn =>
    -- every width but the one that no field has is inside a signed word
    have hw : w ≠ .u64 := by simpa [Shape.isTidy] using hs
    have hlow : IntWidth.i64.low ≤ w.low := by cases w <;> decide
    have hhigh : w.high ≤ IntWidth.i64.high := by
      cases w <;> first | decide | exact absurd rfl hw
    obtain ⟨hge, hle⟩ : w.low ≤ n ∧ n ≤ w.high := by simpa [IntWidth.holds] using hn
    have hread : readInt IntWidth.i64.low IntWidth.i64.high (toString n).toList = .ok n :=
      readInt_toString (by decide) (by decide) (hlow.trans hge) (hle.trans hhigh)
    show store? (toString n) (.int w n) = _
    rw [store?_int, hread]
    simp [Except.toOption, ofInt?, hn]
  | @float w x hx =>
    obtain rfl : w = .f64 := by simpa [Shape.isTidy] using hs
    cases x with
    | finite negative m e =>
      have hread := readFloat_dataText (x := .finite negative m e) hx.1 rfl
      show store? (Layout.scientific.ofFinite negative m e) (.float .f64 (.finite negative m e)) = _
      rw [store?_float, hread]
      rfl
    | infinite negative => simp [isListed, Binary.isFinite] at hv
    | nan => simp [isListed, Binary.isFinite] at hv
  | _ => simp [isListed] at hv

/-! ## §2 The segments of a route -/

/-- The key that a step looks up, where it leads into a map. -/
def mapKey? : Step → Value → Option String
  | .key name, map _ _ => some name
  | _, _ => none

/-- The keys of maps on the way along a route. -/
def mapKeys : Route → Value → List String
  | [], _ => []
  | t :: r, v => (mapKey? t v).toList ++ ((child? t v).map (mapKeys r)).getD []

/-- The names of slots can be written in routes. -/
theorem SlotsHave.isName {slots : Slots} {fields : Fields} (h : SlotsHave slots fields)
    (ht : tidyFields fields = true) {name : String} {v : Value}
    (hv : slotNamed? name slots = some v) : Step.IsName name := by
  induction slots generalizing fields with
  | nil => simp [slotNamed?] at hv
  | cons e rest ih =>
    cases h with
    | @cons field w s _ fields hw hslots =>
      obtain ⟨hname, hident, -, -, hrest⟩ := tidyFields_cons.mp ht
      simp only [slotNamed?, hname] at hv
      split at hv
      · next heq => exact heq ▸ hident
      · exact ih hslots hrest hv

/-- A route that leads somewhere is made of segments, behind an index if it starts in a list. -/
theorem exists_segments {v x : Value} {s : Shape} (h : HasShape v s) (hs : s.isTidy = true)
    {r : Route} (hr : at? r v = some x) (hkeys : ∀ name ∈ mapKeys r v, Step.IsName name) :
    ∃ (index : Option Nat) (segments : List Segment),
      r = (index.map Step.index).toList ++ Segment.route segments ∧
        (index ≠ none → s.isList = true) ∧ (∀ i ∈ index, (i : Int) ≤ Segment.indexMax) ∧
        ∀ segment ∈ segments, segment.IsWritable := by
  induction r generalizing v s with
  | nil => exact ⟨none, [], rfl, by simp, by simp, by simp⟩
  | cons t r ih =>
    obtain ⟨y, hy, hat⟩ := Option.bind_eq_some_iff.mp hr
    have hinner : ∀ name ∈ mapKeys r y, Step.IsName name := by
      intro name hname
      apply hkeys name
      rw [mapKeys, hy]
      exact List.mem_append_right _ hname
    cases t with
    | key name =>
      -- the name and the index behind it, if there is one, are a segment
      have hname : Step.IsName name := by
        cases v with
        | record variant slots =>
          obtain ⟨fields, hslots, ht, -⟩ := h.ofRecord hs
          exact hslots.isName ht hy
        | map e entries =>
          apply hkeys name
          simp [mapKeys, mapKey?]
        | _ => simp [child?] at hy
      obtain ⟨e, he, hye⟩ := h.child? hs hy
      obtain ⟨index, segments, rfl, -, hindex, hsegments⟩ := ih hye he hat hinner
      refine ⟨none, ⟨name, index⟩ :: segments, rfl, by simp, by simp, ?_⟩
      exact List.forall_mem_cons.mpr ⟨⟨hname, hindex⟩, hsegments⟩
    | index i =>
      cases h with
      | @list e items hlength hitems =>
        have hget : items[i]? = some y := hy
        have hmem : y ∈ items := List.mem_of_getElem? hget
        simp only [Shape.isTidy, Bool.and_eq_true, Bool.not_eq_true'] at hs
        obtain ⟨index, segments, rfl, hlist, -, hsegments⟩ := ih (hitems y hmem) hs.2 hat hinner
        -- the items are no lists, so no second index follows
        have hnone : index = none := by
          by_contra hne
          exact absurd (hlist hne) (by simp [hs.1])
        subst hnone
        refine ⟨some i, segments, rfl, fun _ => rfl, ?_, hsegments⟩
        -- no list is longer than an index can say
        rintro j ⟨rfl⟩
        obtain ⟨hi, -⟩ := List.getElem?_eq_some_iff.mp hget
        omega
      | _ => simp [child?] at hy

/-! ## §3 Overwriting with what is listed -/

/-- A leaf that is listed as one that can be set is of a kind that can. -/
theorem isSettable_of_isListed {v : Value} (h : v.isListed = true) : v.isSettable = true := by
  cases v <;> first | rfl | simp [isListed] at h

/-- A leaf of a configuration can be overwritten with its own text. -/
theorem overwrite_leafText {c v : Value} (hc : IsConfig c) {r : Route} (hr : at? r c = some v)
    (hv : v.isListed = true) (hkeys : ∀ name ∈ mapKeys r c, Step.IsName name) :
    overwrite (Route.text r) (Data.leafText v.toData) c = .done c := by
  have htidy : (Shape.record Rig.config).isTidy = true := Rig.config_tidy
  obtain ⟨e, he, hve⟩ := HasShape.at? hc htidy hr
  obtain ⟨index, segments, rfl, hlist, -, hsegments⟩ := exists_segments hc htidy hr hkeys
  obtain rfl : index = none := by
    -- a configuration is no list
    by_contra hne
    exact absurd (hlist hne) (by simp [Shape.isList])
  rw [Option.map_none, Option.toList_none, List.nil_append] at hr ⊢
  have hne : segments ≠ [] := by
    -- the configuration itself is no scalar
    rintro rfl
    obtain rfl := Option.some.inj hr
    cases hc
    simp [isListed] at hv
  have hleaf := leaf?_of_at? hr (isSettable_of_isListed hv)
  have hstore := store?_leafText hve he hv
  rw [← After.toOption_eq_some_iff, overwrite_toOption, Segment.readRoute_text hne hsegments]
  exact setLeaf?_eq_some_iff.mpr ⟨v, v, hleaf, hstore, put_at? hr⟩

/-- A scalar that is shown is the data of the value at its place. -/
theorem isListed_of_toData {v : Value} {s : Shape} (h : HasShape v s) (hs : s.isTidy = true)
    (hscalar : v.toData.isScalar = true) (hbool : ∀ b, v.toData ≠ .bool b)
    (hfinite : ∀ x, v.toData = .float x → x.isFinite = true) : v.isListed = true := by
  cases v with
  | bool b => exact absurd rfl (hbool b)
  | int w n => rfl
  | float w x => exact hfinite x rfl
  | text r => rfl
  | absent => exact absurd rfl (h.ne_absent hs)
  | _ => exact absurd hscalar (by simp [toData, Data.isScalar])

/-- A listing of a configuration has one entry for each scalar that it shows, with its route and its
    value as text; and to overwrite such a route with such a text succeeds and changes nothing, for
    every scalar but truth values and floats that are not finite, where the keys of maps on the way
    can be written in a route. -/
theorem overwrite_listed {c : Value} (hc : IsConfig c) :
    (Data.leaves c.toData).entries =
        (Data.places c.toData).map (fun p => (Route.text p.1, Data.leafText p.2)) ∧
      ∀ r l, (r, l) ∈ Data.places c.toData → (∀ b, l ≠ .bool b) →
        (∀ x, l = .float x → x.isFinite = true) → (∀ name ∈ mapKeys r c, Step.IsName name) →
        overwrite (Route.text r) (Data.leafText l) c = .done c := by
  have htidy : (Shape.record Rig.config).isTidy = true := Rig.config_tidy
  refine ⟨Data.leaves_entries _, ?_⟩
  intro r l hmem hbool hfinite hkeys
  -- what is shown at the place is the data of the leaf that stands there
  obtain ⟨hat, hscalar⟩ := Data.at?_of_mem_places (HasShape.ordered hc) hmem
  rw [toData_at? hc htidy] at hat
  obtain ⟨v, hv, rfl⟩ := Option.map_eq_some_iff.mp hat
  obtain ⟨e, he, hve⟩ := HasShape.at? hc htidy hv
  exact overwrite_leafText hc hv (isListed_of_toData hve he hscalar hbool hfinite) hkeys

/-- A port is overwritten with the text that it is listed with. -/
theorem overwrite_listed_port :
    IsConfig oneServer ∧ overwrite "servers[0].port" "0" oneServer = .done oneServer := by
  have hmem : ([.key "servers", .index 0, .key "port"], .int 0) ∈ Data.places oneServer.toData :=
    List.mem_of_getElem? (i := 4) rfl
  exact ⟨isConfig_oneServer, (overwrite_listed isConfig_oneServer).2 _ _ hmem (by simp) (by simp)
    (by decide)⟩

end Testbed.Value
