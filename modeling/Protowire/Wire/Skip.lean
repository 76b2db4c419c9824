import Protowire.Wire.Reader

/-!
Skipping the value of a field that a schema does not declare. A group is a run of fields between two
tags of one number; groups nest, and the open ones are kept in a list, innermost first.
-/

namespace Protowire.Wire

open Reader

/-- Skips a value that is no group. -/
def skipPlain (number : Nat) : WireType → Reader DecodeError Unit
  | .varint => (fun _ => ()) <$> readVarint
  | .fixed64 => mapError .buffer (skip 8)
  | .lengthDelimited => (fun _ => ()) <$> readBytes
  | .fixed32 => mapError .buffer (skip 4)
  | .startGroup | .endGroup => throw (.unexpectedEndGroup number)

theorem advances_skipPlain (number : Nat) (wire : WireType) : Advances (skipPlain number wire) := by
  cases wire
  · exact advances_map advances_readVarint _
  · exact advances_mapError (advances_map (advances_take (by decide)) _) _
  · exact advances_map advances_readBytes _
  · intro bs u rest h
    cases h
  · intro bs u rest h
    cases h
  · exact advances_mapError (advances_map (advances_take (by decide)) _) _

/-- Skips to the end of the outermost of the groups `opened`, which are open inside `depth` messages
and groups of which nothing more is known. -/
def skipGroups (nesting : Nesting) : (opened : List Nat) → Reader DecodeError Unit
  | [], bs => .ok () bs
  | number :: _, [] => .error (.unterminatedGroup number) []
  | number :: outer, b :: bs =>
    match _ : readTag (b :: bs) with
    | .error e rest => .error e rest
    | .ok (inner, .endGroup) rest =>
      if inner = number then skipGroups nesting outer rest
      else .error (.unexpectedEndGroup inner) rest
    | .ok (inner, .startGroup) rest =>
      if nesting.limit ≤ nesting.depth + (outer.length + 1) then
        .error (.recursionLimitExceeded nesting.limit) rest
      else skipGroups nesting (inner :: number :: outer) rest
    | .ok (inner, wire) rest =>
      match _ : skipPlain inner wire rest with
      | .error e rest' => .error e rest'
      | .ok () rest' => skipGroups nesting (number :: outer) rest'
termination_by _ bs => bs.length
decreasing_by
  · exact advances_readTag.lt ‹_›
  · exact advances_readTag.lt ‹_›
  · exact Nat.lt_trans ((advances_skipPlain _ _).lt ‹skipPlain _ _ _ = _›)
      (advances_readTag.lt ‹readTag _ = _›)

/-- Skips the value after a tag. -/
def skipField (nesting : Nesting) (number : Nat) (wire : WireType) :
    Reader DecodeError Unit := fun bs =>
  if wire = .startGroup then
    if nesting.limit ≤ nesting.depth then .error (.recursionLimitExceeded nesting.limit) bs
    else skipGroups nesting [number] bs
  else skipPlain number wire bs

theorem skipGroups_ok {nesting : Nesting} {opened : List Nat} {bs rest : List UInt8}
    (h : skipGroups nesting opened bs = .ok () rest) : rest.length ≤ bs.length := by
  fun_induction skipGroups nesting opened bs with
  | case1 => cases h; exact Nat.le_refl _
  | case2 => cases h
  | case3 => cases h
  | case4 _ _ _ _ _ ht ih => exact Nat.le_trans (ih h) (Nat.le_of_lt (advances_readTag.lt ht))
  | case5 => cases h
  | case6 => cases h
  | case7 _ _ _ _ _ _ ht _ ih => exact Nat.le_trans (ih h) (Nat.le_of_lt (advances_readTag.lt ht))
  | case8 => cases h
  | case9 =>
    rename_i hs ih
    have := (advances_skipPlain _ _).lt hs
    have := advances_readTag.lt ‹readTag _ = _›
    have := ih h
    omega

/-- Skipping never lengthens the input. -/
theorem skipField_ok {nesting : Nesting} {number : Nat} {wire : WireType} {bs rest : List UInt8}
    (h : skipField nesting number wire bs = .ok () rest) : rest.length ≤ bs.length := by
  simp only [skipField] at h
  split at h
  · split at h
    · cases h
    · exact skipGroups_ok h
  · exact Nat.le_of_lt ((advances_skipPlain _ _).lt h)

end Protowire.Wire
