import Testbed.Proofs.Data.Route
import Testbed.Proofs.Number.Digits
import Testbed.Proofs.Results
import Testbed.Proofs.Text.Pieces
import Testbed.Value.Overwrite

/-!
# Which texts are routes

The text of a route is its segments with points between them. A segment is a name, and behind it,
where it leads into a list, an index in brackets; in front of the digits of an index there may be a
plus sign. A text is read as segments exactly where it spells them (`readRoute_eq_ok_iff`).
-/

namespace Testbed

open Number

namespace Segment

/-- Whether characters write an index: digits, with a plus sign in front of them or not, for a
    number that a word can hold. -/
inductive IsIndex : List Char → Nat → Prop
  | mk {sign ds : List Char} (hsign : sign = [] ∨ sign = ['+']) (hne : ds ≠ [])
      (hds : ∀ c ∈ ds, c.isDigit) (hmax : Nat.ofDigitChars 10 ds 0 < 2 ^ 64) :
      IsIndex (sign ++ ds) (Nat.ofDigitChars 10 ds 0)

/-- Whether characters spell a segment: a name, and an index in brackets where there is one. -/
inductive Spells : List Char → Segment → Prop
  | name {name : String} (hname : Step.IsName name) : Spells name.toList ⟨name, none⟩
  | index {name : String} {digits : List Char} {i : Nat} (hname : Step.IsName name)
      (hindex : IsIndex digits i) : Spells (name.toList ++ '[' :: (digits ++ [']'])) ⟨name, some i⟩

/-- Whether a text spells segments, with points between them. -/
def SpellsRoute (route : String) (segments : List Segment) : Prop :=
  ∃ pieces, route.toList = ['.'].intercalate pieces ∧ List.Forall₂ Spells pieces segments

/-! ## §1 Segments -/

/-- An index is read from its digits, with a sign perhaps. -/
theorem readInt_index_iff {cs : List Char} {n : Int} :
    readInt 0 indexMax cs = .ok n ↔ ∃ i, IsIndex cs i ∧ n = i := by
  have hmax : indexMax = 2 ^ 64 - 1 := rfl
  rw [readInt_eq_ok_iff le_rfl (by decide)]
  constructor
  · rintro ⟨hinteger, -, hle, hsign⟩
    cases hinteger with
    | plain hne hds => exact ⟨_, .mk (.inl rfl) hne hds (by omega), rfl⟩
    | plus hne hds => exact ⟨_, .mk (.inr rfl) hne hds (by omega), rfl⟩
    | minus hne hds => exact absurd (hsign rfl) (lt_irrefl 0)
  · rintro ⟨i, ⟨rfl | rfl, hne, hds, hlt⟩, rfl⟩
    · refine ⟨.plain hne hds, by omega, by omega, ?_⟩
      intro hminus
      exact absurd (hds '-' (List.mem_of_mem_head? hminus)) (by decide)
    · exact ⟨.plus hne hds, by omega, by omega, by simp⟩

theorem beforeBracket?_eq_some_iff {cs before : List Char} :
    beforeBracket? cs = some before ↔ cs = before ++ [']'] := by
  unfold beforeBracket?
  constructor
  · intro h
    split at h
    · next hlast =>
      rw [← Option.some.inj h]
      exact (List.dropLast_append_getLast? _ hlast).symm
    · cases h
  · rintro rfl
    simp

/-- A text is cut at the first opening bracket; behind it there is an index, and a closing one. -/
theorem split?_eq_some_iff {cs name : List Char} {index : Option Nat} :
    split? cs = some (name, index) ↔
      '[' ∉ name ∧ (index = none ∧ cs = name ∨
        ∃ digits i, index = some i ∧ IsIndex digits i ∧ cs = name ++ '[' :: (digits ++ [']'])) := by
  unfold split?
  cases hcut : Text.cutFirstOf '[' cs with
  | none =>
    -- without a bracket the piece is a name
    have hopen := Text.cutFirstOf_eq_none_iff.mp hcut
    simp only [Option.some.injEq, Prod.mk.injEq]
    constructor
    · rintro ⟨rfl, rfl⟩
      exact ⟨hopen, .inl ⟨rfl, rfl⟩⟩
    · rintro ⟨-, ⟨rfl, rfl⟩ | ⟨digits, i, -, -, rfl⟩⟩
      · exact ⟨rfl, rfl⟩
      · simp at hopen
  | some parts =>
    obtain ⟨before, after⟩ := parts
    obtain ⟨rfl, hbefore⟩ := Text.cutFirstOf_eq_some hcut
    simp only [Option.bind_eq_some_iff, beforeBracket?_eq_some_iff]
    constructor
    · rintro ⟨digits, rfl, h⟩
      split at h
      · next n hread =>
        obtain ⟨i, hindex, rfl⟩ := readInt_index_iff.mp hread
        obtain ⟨rfl, rfl⟩ := Prod.mk.inj (Option.some.inj h)
        exact ⟨hbefore, .inr ⟨digits, i, rfl, hindex, rfl⟩⟩
      · cases h
    · rintro ⟨hname, ⟨rfl, rfl⟩ | ⟨digits, i, rfl, hindex, heq⟩⟩
      · simp at hname
      · -- both cut at the first bracket
        have hsame := Text.cutFirstOf_append_sep hname (digits ++ [']'])
        rw [← heq, hcut] at hsame
        obtain ⟨rfl, rfl⟩ := Prod.mk.inj (Option.some.inj hsame)
        refine ⟨digits, rfl, ?_⟩
        rw [readInt_index_iff.mpr ⟨i, hindex, rfl⟩]
        rfl

/-- No point is inside of brackets. -/
theorem IsIndex.point_not_mem {digits : List Char} {i : Nat} (h : IsIndex digits i) :
    '.' ∉ digits := by
  obtain ⟨hsign, -, hds, -⟩ := h
  intro hmem
  rcases List.mem_append.mp hmem with hmem | hmem
  · rcases hsign with rfl | rfl <;> simp at hmem
  · exact absurd (hds '.' hmem) (by decide)

theorem Spells.point_not_mem {cs : List Char} {s : Segment} (h : Spells cs s) : '.' ∉ cs := by
  cases h with
  | name hname => exact fun hmem => (hname.2 '.' hmem).1 rfl
  | index hname hindex =>
    have hpoint := hindex.point_not_mem
    intro hmem
    rcases List.mem_append.mp hmem with hmem | hmem
    · exact (hname.2 '.' hmem).1 rfl
    · simp [hpoint] at hmem

/-- A name without a point can be written where brackets are not in it. -/
theorem isName_ofList_iff {name : List Char} (hpoint : '.' ∉ name) :
    Step.IsName (String.ofList name) ↔ name ≠ [] ∧ '[' ∉ name ∧ ']' ∉ name := by
  rw [Step.IsName, String.toList_ofList]
  constructor
  · rintro ⟨hne, hall⟩
    refine ⟨fun hnil => hne (by rw [hnil]), fun hmem => ?_, fun hmem => ?_⟩
    · exact (hall '[' hmem).2.1 rfl
    · exact (hall ']' hmem).2.2 rfl
  · rintro ⟨hne, hopen, hclose⟩
    refine ⟨fun hempty => hne (by simpa using congrArg String.toList hempty), fun c hc => ?_⟩
    refine ⟨?_, ?_, ?_⟩
    · rintro rfl
      exact hpoint hc
    · rintro rfl
      exact hopen hc
    · rintro rfl
      exact hclose hc

/-- A piece without a point is read as a segment exactly where it spells the segment. -/
theorem read_eq_ok_iff {cs : List Char} (hpoint : '.' ∉ cs) {s : Segment} :
    read (String.ofList cs) = .ok s ↔ Spells cs s := by
  rw [read, String.toList_ofList]
  constructor
  · intro h
    split at h
    · next name index hsplit =>
      split at h
      · cases h
      · next hname =>
        obtain rfl := Except.ok.inj h
        obtain ⟨hne, hclose⟩ := not_or.mp hname
        obtain ⟨hopen, ⟨rfl, rfl⟩ | ⟨digits, i, rfl, hindex, rfl⟩⟩ := split?_eq_some_iff.mp hsplit
        · have hspelled := Spells.name ((isName_ofList_iff hpoint).mpr ⟨hne, hopen, hclose⟩)
          rwa [String.toList_ofList] at hspelled
        · have hbefore : '.' ∉ name := fun hmem => hpoint (List.mem_append_left _ hmem)
          have hspelled :=
            Spells.index ((isName_ofList_iff hbefore).mpr ⟨hne, hopen, hclose⟩) hindex
          rwa [String.toList_ofList] at hspelled
    · cases h
  · intro h
    have hparts {name : String} (hname : Step.IsName name) :
        name.toList ≠ [] ∧ '[' ∉ name.toList ∧ ']' ∉ name.toList := by
      have hpoint : '.' ∉ name.toList := fun hmem => (hname.2 '.' hmem).1 rfl
      rw [← isName_ofList_iff hpoint, String.ofList_toList]
      exact hname
    cases h with
    | name hname =>
      obtain ⟨hne, hopen, hclose⟩ := hparts hname
      rw [split?_eq_some_iff.mpr ⟨hopen, .inl ⟨rfl, rfl⟩⟩]
      simp [hne, hclose]
    | index hname hindex =>
      obtain ⟨hne, hopen, hclose⟩ := hparts hname
      rw [split?_eq_some_iff.mpr ⟨hopen, .inr ⟨_, _, rfl, hindex, rfl⟩⟩]
      simp [hne, hclose]

/-! ## §2 Routes -/

/-- Pieces without points are read as the segments that they spell, one by one. -/
theorem mapM_read_eq_ok_iff {pieces : List (List Char)} (hpoint : ∀ p ∈ pieces, '.' ∉ p)
    {segments : List Segment} :
    (pieces.map String.ofList).mapM read = .ok segments ↔ List.Forall₂ Spells pieces segments := by
  rw [mapM_eq_ok_iff, List.forall₂_map_left_iff]
  constructor
  · intro h
    induction h with
    | nil => exact .nil
    | cons hread _ ih =>
      obtain ⟨hfirst, hrest⟩ := List.forall_mem_cons.mp hpoint
      exact .cons ((read_eq_ok_iff hfirst).mp hread) (ih hrest)
  · intro h
    exact h.imp fun p s hspells => (read_eq_ok_iff hspells.point_not_mem).mpr hspells

theorem point_not_mem_of_spells {pieces : List (List Char)} {segments : List Segment}
    (h : List.Forall₂ Spells pieces segments) : ∀ p ∈ pieces, '.' ∉ p := by
  induction h with
  | nil => simp
  | cons hspells _ ih => exact List.forall_mem_cons.mpr ⟨hspells.point_not_mem, ih⟩

/-- A segment is not spelled by nothing. -/
theorem Spells.ne_nil {cs : List Char} {s : Segment} (h : Spells cs s) : cs ≠ [] := by
  cases h with
  | name hname => simpa using hname.1
  | index _ _ => simp

/-- An empty text spells an empty route. -/
theorem spellsRoute_empty_iff {segments : List Segment} :
    SpellsRoute "" segments ↔ segments = [] := by
  constructor
  · rintro ⟨pieces, hroute, hpieces⟩
    cases hpieces with
    | nil => rfl
    | @cons p s pieces segments hp hrest =>
      have hne := hp.ne_nil
      cases pieces with
      | nil => exact absurd hroute.symm (by simpa using hne)
      | cons q pieces => simp [List.intercalate_cons_cons] at hroute
  · rintro rfl
    exact ⟨[], rfl, .nil⟩

/-- A text is read as segments exactly where it spells them. -/
theorem readRoute_eq_ok_iff {route : String} {segments : List Segment} :
    readRoute route = .ok segments ↔ SpellsRoute route segments := by
  rw [readRoute]
  split
  · next hempty =>
    rw [hempty, spellsRoute_empty_iff, Except.ok.injEq, eq_comm]
  · next hempty =>
    rw [Text.pieces, mapM_read_eq_ok_iff fun p => Text.not_mem_of_mem_piecesOf '.' _ p]
    constructor
    · intro h
      exact ⟨_, (Text.intercalate_piecesOf _).symm, h⟩
    · rintro ⟨pieces, hroute, hpieces⟩
      have hne : pieces ≠ [] := by
        rintro rfl
        exact hempty (by simpa [List.intercalate] using hroute)
      rwa [hroute, Text.piecesOf_intercalate hne (point_not_mem_of_spells hpieces)]

end Segment

end Testbed
