/-!
# Pieces of a text

Cutting a text at a separator. `pieces` keeps every piece, the empty ones included, so that
putting the separator back between them gives the text again; `cutFirst` cuts once, at the
first separator.
-/

namespace Testbed.Text

/-! ## §1 Every separator cuts -/

/-- The pieces of `cs` between the characters `sep`; a text without `sep` is one piece. -/
def piecesOf (sep : Char) : List Char → List (List Char)
  | [] => [[]]
  | c :: cs =>
    if c = sep then [] :: piecesOf sep cs
    else match piecesOf sep cs with
      | [] => [[c]]
      | p :: ps => (c :: p) :: ps

/-- The pieces of a text between the characters `sep`. -/
def pieces (sep : Char) (s : String) : List String :=
  (piecesOf sep s.toList).map String.ofList

/-- There is always a piece. -/
theorem piecesOf_ne_nil (sep : Char) (cs : List Char) : piecesOf sep cs ≠ [] := by
  cases cs with
  | nil => simp [piecesOf]
  | cons c cs =>
    unfold piecesOf
    split
    · simp
    · split <;> simp

/-- The separator itself cuts. -/
theorem piecesOf_sep (sep : Char) (cs : List Char) :
    piecesOf sep (sep :: cs) = [] :: piecesOf sep cs := by
  simp [piecesOf]

/-- Any other character joins the first piece of what follows. -/
theorem piecesOf_cons_of_ne {sep c : Char} (h : c ≠ sep) {cs p : List Char}
    {ps : List (List Char)} (hp : piecesOf sep cs = p :: ps) :
    piecesOf sep (c :: cs) = (c :: p) :: ps := by
  simp [piecesOf, h, hp]

/-- No piece holds the separator. -/
theorem not_mem_of_mem_piecesOf (sep : Char) (cs : List Char) :
    ∀ p ∈ piecesOf sep cs, sep ∉ p := by
  induction cs with
  | nil => simp [piecesOf]
  | cons c cs ih =>
    by_cases h : c = sep
    · subst h
      rw [piecesOf_sep]
      simpa using ih
    · obtain ⟨p, ps, hp⟩ := List.exists_cons_of_ne_nil (piecesOf_ne_nil sep cs)
      rw [piecesOf_cons_of_ne h hp]
      rw [hp] at ih
      intro q hq
      rcases List.mem_cons.mp hq with rfl | hq
      · simpa [Ne.symm h] using ih p (by simp)
      · exact ih q (by simp [hq])

/-! ## §2 The first separator cuts -/

/-- What stands before and after the first `sep`; `none` where there is none. -/
def cutFirstOf (sep : Char) : List Char → Option (List Char × List Char)
  | [] => none
  | c :: cs =>
    if c = sep then some ([], cs)
    else (cutFirstOf sep cs).map fun (before, after) => (c :: before, after)

/-- What stands before and after the first `sep` of a text. -/
def cutFirst (sep : Char) (s : String) : Option (String × String) :=
  (cutFirstOf sep s.toList).map fun (before, after) => (String.ofList before, String.ofList after)

/-- A cut gives the text back with the separator put in, and cuts at the first one. -/
theorem cutFirstOf_eq_some {sep : Char} {cs before after : List Char}
    (h : cutFirstOf sep cs = some (before, after)) :
    cs = before ++ sep :: after ∧ sep ∉ before := by
  induction cs generalizing before with
  | nil => simp [cutFirstOf] at h
  | cons c cs ih =>
    unfold cutFirstOf at h
    split at h
    · rename_i hc
      simp only [Option.some.injEq, Prod.mk.injEq] at h
      obtain ⟨rfl, rfl⟩ := h
      simp [hc]
    · rename_i hc
      obtain ⟨⟨b, a⟩, hb, he⟩ := Option.map_eq_some_iff.mp h
      simp only [Prod.mk.injEq] at he
      obtain ⟨rfl, rfl⟩ := he
      obtain ⟨rfl, hn⟩ := ih hb
      exact ⟨rfl, by simp [hn, Ne.symm hc]⟩

/-- There is no cut exactly where there is no separator. -/
theorem cutFirstOf_eq_none_iff {sep : Char} {cs : List Char} :
    cutFirstOf sep cs = none ↔ sep ∉ cs := by
  induction cs with
  | nil => simp [cutFirstOf]
  | cons c cs ih =>
    by_cases h : c = sep
    · simp [cutFirstOf, h]
    · simp [cutFirstOf, h, ih, Ne.symm h]

end Testbed.Text
