import AgentLang.Text.Blank

/-! Paths as texts with slashes between names. A path keeps its text: slashes may be doubled or
stand at its end, and both count towards its length.
-/

namespace AgentLang.CommandLine

/-- Whether a path starts at the root, and the pieces between the slashes behind that, empty
ones too.
-/
structure Path where
  absolute : Bool
  pieces : List String
  deriving DecidableEq, Repr

namespace Path

def ofText (text : String) : Path :=
  let split (text : List Char) : List String := (Text.splitAt '/' text).map String.ofList
  match text.toList with
  | '/' :: rest => ⟨true, split rest⟩
  | rest => ⟨false, split rest⟩

def toText (path : Path) : String :=
  (if path.absolute then "/" else "") ++ "/".intercalate path.pieces

/-- The names to follow from the start of a path. -/
def names (path : Path) : List String := path.pieces.filter (· != "")

/-- A path that ends in a slash can only lead to a directory. -/
def endsInSlash (path : Path) : Bool := path.pieces.getLast? == some ""

/-- Drops the pieces at the end of a path that lead nowhere else, save one that starts it. The
pieces are given last first.
-/
def dropIdle : List String → List String
  | [] => []
  | [first] => [first]
  | piece :: pieces =>
      if piece = "" ∨ piece = "." then dropIdle pieces else piece :: pieces

/-- The path without its last name, or nothing when no name is left. -/
def parent? (path : Path) : Option Path :=
  match dropIdle (dropIdle path.pieces.reverse).tail with
  | [] => none
  | pieces => some ⟨path.absolute, pieces.reverse⟩

theorem dropIdle_length_le (pieces : List String)
    : (dropIdle pieces).length ≤ pieces.length := by
  fun_induction dropIdle pieces with
  | case1 => exact Nat.le_refl _
  | case2 => exact Nat.le_refl _
  | case3 piece pieces _ _ ih => exact Nat.le_succ_of_le ih
  | case4 => exact Nat.le_refl _

/-- A path has more pieces than the one above it. -/
theorem parent?_pieces_length_lt (path : Path) {parent : Path}
    (h : path.parent? = some parent)
    : parent.pieces.length < path.pieces.length := by
  unfold parent? at h
  split at h
  · cases h
  · rename_i pieces notNil
    cases h
    have outer := dropIdle_length_le (dropIdle path.pieces.reverse).tail
    have inner := dropIdle_length_le path.pieces.reverse
    have positive := List.length_pos_iff.mpr notNil
    simp only [List.length_tail, List.length_reverse] at outer inner ⊢
    omega

end Path

end AgentLang.CommandLine
