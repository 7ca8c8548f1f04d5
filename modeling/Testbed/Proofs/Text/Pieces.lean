import Testbed.Text.Pieces

/-!
# Cutting what was put together

Cutting is the inverse of putting pieces together with a separator that none of them holds.
-/

namespace Testbed.Text

variable {sep : Char}

/-! ## §1 Pieces -/

/-- A piece without the separator is cut off at the separator behind it. -/
theorem piecesOf_append_sep {p : List Char} (h : sep ∉ p) (cs : List Char) :
    piecesOf sep (p ++ sep :: cs) = p :: piecesOf sep cs := by
  induction p with
  | nil => exact piecesOf_sep sep cs
  | cons c p ih =>
    rw [List.mem_cons, not_or] at h
    obtain ⟨hc, hp⟩ := h
    rw [List.cons_append, piecesOf_cons_of_ne (Ne.symm hc) (ih hp)]

/-- A text without separators is a single piece. -/
theorem piecesOf_of_not_mem {p : List Char} (h : sep ∉ p) : piecesOf sep p = [p] := by
  induction p with
  | nil => rfl
  | cons c p ih =>
    rw [List.mem_cons, not_or] at h
    obtain ⟨hc, hp⟩ := h
    rw [piecesOf_cons_of_ne (Ne.symm hc) (ih hp)]

/-- Pieces put together with separators are the pieces of the whole. -/
theorem piecesOf_append_flatMap {p : List Char} {ps : List (List Char)} (hp : sep ∉ p)
    (hps : ∀ q ∈ ps, sep ∉ q) : piecesOf sep (p ++ ps.flatMap (sep :: ·)) = p :: ps := by
  induction ps generalizing p with
  | nil => rw [List.flatMap_nil, List.append_nil, piecesOf_of_not_mem hp]
  | cons q ps ih =>
    obtain ⟨hq, hps⟩ := List.forall_mem_cons.mp hps
    rw [List.flatMap_cons, List.cons_append, piecesOf_append_sep hp, ih hq hps]

/-- Pieces without separators that are put together come apart again. -/
theorem piecesOf_intercalate {ps : List (List Char)} (hne : ps ≠ []) (h : ∀ p ∈ ps, sep ∉ p) :
    piecesOf sep ([sep].intercalate ps) = ps := by
  induction ps with
  | nil => exact absurd rfl hne
  | cons p ps ih =>
    obtain ⟨hp, hps⟩ := List.forall_mem_cons.mp h
    cases ps with
    | nil => rw [List.intercalate_singleton, piecesOf_of_not_mem hp]
    | cons q ps =>
      rw [List.intercalate_cons_cons, List.append_assoc, List.singleton_append,
        piecesOf_append_sep hp, ih (List.cons_ne_nil _ _) hps]

/-- The pieces of a text put together with separators are the text. -/
theorem intercalate_piecesOf (cs : List Char) : [sep].intercalate (piecesOf sep cs) = cs := by
  induction cs with
  | nil => rfl
  | cons c cs ih =>
    obtain ⟨p, ps, hp⟩ := List.exists_cons_of_ne_nil (piecesOf_ne_nil sep cs)
    by_cases hc : c = sep
    · rw [hc, piecesOf_sep, hp, List.intercalate_cons_cons, ← hp, ih]
      rfl
    · rw [piecesOf_cons_of_ne hc hp]
      rw [hp] at ih
      -- the character stands in front of the first piece, whatever follows that
      cases ps with
      | nil => rw [List.intercalate_singleton] at ih ⊢; rw [ih]
      | cons q ps =>
        rw [List.intercalate_cons_cons] at ih ⊢
        rw [← ih]
        simp

/-! ## §2 The first separator -/

/-- A text is cut at the first separator. -/
theorem cutFirstOf_append_sep {before : List Char} (h : sep ∉ before) (after : List Char) :
    cutFirstOf sep (before ++ sep :: after) = some (before, after) := by
  induction before with
  | nil => simp [cutFirstOf]
  | cons c before ih =>
    rw [List.mem_cons, not_or] at h
    obtain ⟨hc, hbefore⟩ := h
    simp [cutFirstOf, Ne.symm hc, ih hbefore]

end Testbed.Text
