import Mathlib.Data.Fintype.Defs
import Mathlib.Logic.Function.Basic

set_option autoImplicit false

/-! # A text screen

A grid of characters with a cursor that is always inside it. A character is written at the cursor,
which moves to the right and from the end of a row to the next one; behind the last row the screen
scrolls: every row moves up and a blank one comes in at the bottom. -/

namespace UnixTerminal

variable {α : Type} {rows cols : Nat}

/-- The characters by row and column, and the column and row of the cursor. -/
@[ext]
structure Screen (α : Type) (rows cols : Nat) where
  char : Fin rows → Fin cols → α
  x : Fin cols
  y : Fin rows

namespace Screen

variable (blank : α) (s : Screen α rows cols)

/-- The first column. -/
def home : Fin cols := ⟨0, Nat.zero_lt_of_lt s.x.isLt⟩

/-- Every row moves up by one. -/
def scroll : Screen α rows cols :=
  { s with
    char := fun j i => if h : j.1 + 1 < rows then s.char ⟨j.1 + 1, h⟩ i else blank
    x := s.home }

/-- The start of the next row; the last row scrolls up first. -/
def newline : Screen α rows cols :=
  if h : s.y.1 + 1 < rows then { s with x := s.home, y := ⟨s.y.1 + 1, h⟩ } else s.scroll blank

/-- Write a character at the cursor. -/
def put (c : α) : Screen α rows cols :=
  { s with char := Function.update s.char s.y (Function.update (s.char s.y) s.x c) }

/-- Move the cursor to the next cell. -/
def advance : Screen α rows cols :=
  if h : s.x.1 + 1 < cols then { s with x := ⟨s.x.1 + 1, h⟩ } else s.newline blank

variable {blank : α} {s : Screen α rows cols}

theorem newline_of_last (h : s.y.1 + 1 = rows) : s.newline blank = s.scroll blank :=
  dif_neg (by omega)

theorem newline_of_lt (h : s.y.1 + 1 < rows) :
    s.newline blank = { s with x := s.home, y := ⟨s.y.1 + 1, h⟩ } :=
  dif_pos h

theorem advance_of_last (h : s.x.1 + 1 = cols) : s.advance blank = s.newline blank :=
  dif_neg (by omega)

theorem advance_of_lt (h : s.x.1 + 1 < cols) :
    s.advance blank = { s with x := ⟨s.x.1 + 1, h⟩ } :=
  dif_pos h

theorem scroll_char (s : Screen α rows cols) (j : Fin rows) (i : Fin cols) :
    (s.scroll blank).char j i
      = if h : j.1 + 1 < rows then s.char ⟨j.1 + 1, h⟩ i else blank := rfl

theorem put_char (s : Screen α rows cols) (c : α) (j : Fin rows) (i : Fin cols) :
    (s.put c).char j i = if j = s.y ∧ i = s.x then c else s.char j i := by
  unfold put
  by_cases hj : j = s.y
  · subst hj
    by_cases hi : i = s.x
    · simp [hi]
    · simp [hi]
  · simp [hj]

end Screen

end UnixTerminal
