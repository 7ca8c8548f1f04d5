import Testbed.Value.Basic

/-!
# Merging

Putting a later value over an earlier one of the same shape. A text counts when it is not empty,
lists are put one behind the other, of two entries under one key the later one counts as a whole,
and records are merged field by field.
-/

namespace Testbed.Value

mutual
/-- An earlier value with a later one put over it. -/
def merge : Value → Value → Value
  | text a, text b => if b = "" then text a else text b
  | list e xs, list _ ys => list e (xs ++ ys)
  | map e es, map _ fs => map e (Keyed.union es fs)
  | record v slots, record _ others => record v (mergeSlots slots others)
  | _, w => w
/-- The slots of two records merged pairwise. -/
def mergeSlots : Slots → Slots → Slots
  | (field, v) :: rest, (_, w) :: others => (field, v.merge w) :: mergeSlots rest others
  | slots, _ => slots
end

/-- Values merged in order; nothing to merge gives nothing. -/
def mergeAll? : List Value → Option Value
  | [] => none
  | v :: rest => some (rest.foldl merge v)

end Testbed.Value
