import ArcSelection.Identifier

/-!
# Random ids

Overlays give new nodes and arcs random ids.  The random source is a list of draws that
is used up from the front, so that an allocation is a function of its input.
-/

namespace ArcSelection

/-- The id made of 128 random bits: the upper 62 of them, or one if they are all zero. -/
def idOfBits (bits : Nat) : Int :=
  if bits / Nat.pow 2 66 = 0 then 1 else (bits / Nat.pow 2 66 : Nat)

/-- What an allocation did: the id it took, the ids it asked about, and the draws left. -/
structure Allocation where
  id : Int
  asked : List Int
  rest : List Int

/-- Takes the first draw that is free; nothing when every draw is taken. -/
def allocate? (taken : Int -> Bool) : (draws : List Int) -> Option Allocation
  | [] => none
  | id :: rest =>
      if taken id then
        (allocate? taken rest).map fun r => { r with asked := id :: r.asked }
      else some ⟨id, [id], rest⟩

end ArcSelection
