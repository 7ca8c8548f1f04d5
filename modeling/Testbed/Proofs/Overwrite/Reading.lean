import Testbed.Proofs.Data.Leaves
import Testbed.Proofs.Number.Digits
import Testbed.Proofs.Overwrite.Setting
import Testbed.Proofs.Text.Pieces

/-!
# Reading routes back

A listing writes a route as its segments with points between them, a segment being a name and, where
it leads into a list, an index in brackets. Reading such a text gives the segments back, as long as
their names can be written and their indices are not too large.
-/

namespace Testbed

open Number

namespace Segment

/-- Whether a segment can be written: its name holds nothing that ends a name, and its index is not
    larger than can be read. -/
def IsWritable (s : Segment) : Prop :=
  Step.IsName s.name ∧ ∀ i ∈ s.index, (i : Int) ≤ indexMax

/-- The characters of a segment. -/
def chars (s : Segment) : List Char :=
  s.name.toList ++ match s.index with
    | none => []
    | some i => '[' :: (Nat.toDigits 10 i ++ [']'])

/-! ## §1 Writing -/

theorem route_cons_append (s : Segment) (segments : List Segment) :
    route (s :: segments) = s.steps ++ route segments :=
  rfl

theorem textFrom_append (start : String) (q r : Route) :
    Route.textFrom start (q ++ r) = Route.textFrom (Route.textFrom start q) r := by
  induction q generalizing start with
  | nil => rfl
  | cons t q ih => cases t <;> exact ih _

/-- A segment is written behind the point that separates it from what it starts from. -/
theorem toList_textFrom_steps (start : String) (s : Segment) :
    (Route.textFrom start s.steps).toList =
      (if start = "" then [] else start.toList ++ ['.']) ++ s.chars := by
  obtain ⟨name, index⟩ := s
  have hkey : (Data.keyRoute start name).toList =
      (if start = "" then [] else start.toList ++ ['.']) ++ name.toList := by
    unfold Data.keyRoute
    split <;> simp
  -- behind the name there is nothing, or an index in brackets
  cases index with
  | none =>
    show (Data.keyRoute start name).toList = _
    rw [hkey, chars, List.append_nil]
  | some i =>
    show (Data.indexRoute (Data.keyRoute start name) i).toList = _
    simp only [Data.indexRoute, String.toList_append, toString, hkey, chars, Nat.toList_repr]
    simp

theorem textFrom_steps_ne_empty (start : String) {s : Segment} (h : s.IsWritable) :
    Route.textFrom start s.steps ≠ "" := by
  intro hempty
  have hlist := toList_textFrom_steps start s
  rw [hempty] at hlist
  have hname : s.name.toList ≠ [] := by simpa using h.1.1
  simp [chars, hname] at hlist

/-- Behind a start, segments are written each with a point in front. -/
theorem toList_textFrom_route {start : String} (hstart : start ≠ "") {segments : List Segment}
    (h : ∀ s ∈ segments, s.IsWritable) :
    (Route.textFrom start (route segments)).toList =
      start.toList ++ (segments.map chars).flatMap ('.' :: ·) := by
  induction segments generalizing start with
  | nil => simp [Route.textFrom]
  | cons s segments ih =>
    obtain ⟨hs, hsegments⟩ := List.forall_mem_cons.mp h
    rw [route_cons_append, textFrom_append, ih (textFrom_steps_ne_empty start hs) hsegments,
      toList_textFrom_steps, if_neg hstart]
    simp

/-- The text of a route is its segments with points between them. -/
theorem toList_text_route {s : Segment} {segments : List Segment}
    (h : ∀ s' ∈ s :: segments, s'.IsWritable) :
    (Route.text (route (s :: segments))).toList =
      s.chars ++ (segments.map chars).flatMap ('.' :: ·) := by
  obtain ⟨hs, hsegments⟩ := List.forall_mem_cons.mp h
  rw [Route.text, route_cons_append, textFrom_append,
    toList_textFrom_route (textFrom_steps_ne_empty "" hs) hsegments, toList_textFrom_steps]
  simp

/-! ## §2 Reading -/

/-- A segment that can be written has no point. -/
theorem point_not_mem_chars {s : Segment} (h : s.IsWritable) : '.' ∉ s.chars := by
  obtain ⟨⟨-, hname⟩, -⟩ := h
  intro hmem
  rcases List.mem_append.mp hmem with hmem | hmem
  · exact (hname '.' hmem).1 rfl
  · split at hmem
    · simp at hmem
    · next i hi =>
      -- only a digit could be a point
      have hdigit : '.' ∈ Nat.toDigits 10 i := by simpa using hmem
      exact absurd (isDigit_of_mem_toDigits hdigit) (by decide)

/-- A segment is read back. -/
theorem read_chars {s : Segment} (h : s.IsWritable) : read (String.ofList s.chars) = .ok s := by
  obtain ⟨name, index⟩ := s
  obtain ⟨⟨hne, hname⟩, hindex⟩ := h
  have hnil : name.toList ≠ [] := by simpa using hne
  have hopen : '[' ∉ name.toList := fun hmem => (hname '[' hmem).2.1 rfl
  have hclose : ']' ∉ name.toList := fun hmem => (hname ']' hmem).2.2 rfl
  have hsplit : split? (String.ofList (chars ⟨name, index⟩)).toList = some (name.toList, index) := by
    rw [String.toList_ofList, split?]
    cases index with
    | none =>
      -- without a bracket the whole segment is the name
      have hcut : Text.cutFirstOf '[' (chars ⟨name, none⟩) = none := by
        rw [Text.cutFirstOf_eq_none_iff, chars, List.append_nil]
        exact hopen
      rw [hcut]
      simp [chars]
    | some i =>
      have hcut : Text.cutFirstOf '[' (chars ⟨name, some i⟩) =
          some (name.toList, Nat.toDigits 10 i ++ [']']) := Text.cutFirstOf_append_sep hopen _
      have hdigits : beforeBracket? (Nat.toDigits 10 i ++ [']']) = some (Nat.toDigits 10 i) := by
        simp [beforeBracket?]
      -- an index is read with no negative numbers, so no sign may stand in front of it
      have hhead : (Nat.toDigits 10 i).head? ≠ some '-' := by
        intro hhead
        have hmem := List.mem_of_mem_head? hhead
        exact absurd (isDigit_of_mem_toDigits hmem) (by decide)
      have hread : readInt 0 indexMax (Nat.toDigits 10 i) = .ok i :=
        (readInt_eq_ok_iff le_rfl (by decide)).mpr
          ⟨isInteger_toDigits i, by omega, hindex i rfl, fun hminus => absurd hminus hhead⟩
      rw [hcut]
      simp [hdigits, hread]
  rw [read, hsplit]
  simp [hnil, hclose]

/-- Segments that were written are read back one by one. -/
theorem mapM_read_chars {segments : List Segment} (h : ∀ s ∈ segments, s.IsWritable) :
    ((segments.map chars).map String.ofList).mapM read = Except.ok segments := by
  induction segments with
  | nil => rfl
  | cons s segments ih =>
    obtain ⟨hs, hsegments⟩ := List.forall_mem_cons.mp h
    rw [List.map_cons, List.map_cons, List.mapM_cons, read_chars hs, ih hsegments]
    rfl

/-- The text of a route is read as the segments that it was written from. -/
theorem readRoute_text {segments : List Segment} (hne : segments ≠ [])
    (h : ∀ s ∈ segments, s.IsWritable) : readRoute (Route.text (route segments)) = .ok segments := by
  obtain ⟨s, rest, rfl⟩ := List.exists_cons_of_ne_nil hne
  have htext := toList_text_route h
  obtain ⟨hs, hrest⟩ := List.forall_mem_cons.mp h
  have hempty : Route.text (route (s :: rest)) ≠ "" := by
    intro hempty
    rw [hempty] at htext
    have hname : s.name.toList ≠ [] := by simpa using hs.1.1
    simp [chars, hname] at htext
  -- no segment holds a point, so the points are where the text is cut
  have hpieces : Text.pieces '.' (Route.text (route (s :: rest))) =
      ((s :: rest).map chars).map String.ofList := by
    rw [Text.pieces, htext, Text.piecesOf_append_flatMap (point_not_mem_chars hs)]
    · rfl
    · intro q hq
      obtain ⟨s', hs', rfl⟩ := List.mem_map.mp hq
      exact point_not_mem_chars (hrest s' hs')
  rw [readRoute, if_neg hempty, hpieces, mapM_read_chars h]

end Segment

end Testbed
