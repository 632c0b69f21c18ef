import QueryCheck.Text.Lines

/-! # Wrapping

Breaking a text into lines of at most a given number of cells. Words are separated by blanks; a
hyphen ends a word and stays in front of the break. A word that does not fit moves to the next line
and the blanks before it are dropped; a word longer than a whole line is broken where the line ends.
Blanks at the end of a line are kept if they fit.

The scan is a fold of `Wrapping.step` over the pieces of the text. -/

namespace QueryCheck.Text

/-- What separates words, and what becomes of a hyphen that does not fit. -/
structure WrapRules where
  /-- The cells of a blank, `0` for a piece that is none. -/
  blank : Glyph → Nat
  /-- Whether a hyphen that does not fit waits at the end of its word for the next piece. -/
  hyphenWaits : Bool

/-- The state of the scan: finished lines, the line being filled, the blanks behind it and the word
that is not yet placed. -/
structure Wrapping where
  done : List (List Glyph) := []
  line : List Glyph := []
  blanks : Nat := 0
  word : List Glyph := []
  deriving DecidableEq, Repr, Inhabited

namespace Wrapping

/-- The cells pieces take. -/
def total (gs : List Glyph) : Nat := sumOf Glyph.width gs

/-- The blanks are written. -/
def flushBlanks (s : Wrapping) : Wrapping :=
  { s with line := s.line ++ List.replicate s.blanks (Glyph.single ' '), blanks := 0 }

/-- The word is written, with the blanks before it. -/
def flush (s : Wrapping) : Wrapping :=
  if s.word.isEmpty then s
  else
    let t := s.flushBlanks
    { t with line := t.line ++ t.word, word := [] }

/-- The line ends; blanks before the break are dropped, the word waits for the next line. -/
def newline (s : Wrapping) : Wrapping :=
  { s with done := s.done ++ [s.line], line := [], blanks := 0 }

/-- Blanks that end a line are kept if they fit. -/
def settle (limit : Nat) (s : Wrapping) : Wrapping :=
  if total s.word ≠ 0 then s
  else if total s.line + s.blanks > limit then { s with blanks := 0 }
  else s.flushBlanks

/-- A piece of a word. A word longer than a line is written out first. -/
def push (limit : Nat) (s : Wrapping) (g : Glyph) : Wrapping :=
  let s := if total s.word + g.width > limit then s.flush else s
  let s := { s with word := s.word ++ [g] }
  if total s.line + total s.word + s.blanks > limit then s.newline else s

/-- One piece of the text. -/
def step (rules : WrapRules) (limit : Nat) (s : Wrapping) (g : Glyph) : Wrapping :=
  if g.isChar '\n' then (s.settle limit).flush.newline
  else if rules.blank g ≠ 0 then
    let s := s.flush
    { s with blanks := s.blanks + rules.blank g }
  else if g.width = 0 then { s with word := s.word ++ [g] }
  else if g.isChar '-' then
    let s := s.flushBlanks
    if total s.line + total s.word + 1 ≤ limit then
      let s := s.flush
      { s with line := s.line ++ [g] }
    else if rules.hyphenWaits then { s with word := s.word ++ [g] }
    else s.push limit g
  else s.push limit g

/-- The lines of a finished scan. -/
def finish (limit : Nat) (s : Wrapping) : List (List Glyph) :=
  let s := (s.settle limit).flush
  s.done ++ [s.line]

end Wrapping

/-- The lines of a text broken at `limit` cells; without a limit, its own lines. -/
def wrapWith (rules : WrapRules) (limit : Nat) (cs : List Char) : List (List Char) :=
  if limit = 0 then lines cs
  else
    let s := (glyphs cs).foldl (Wrapping.step rules limit) {}
    (s.finish limit).map fun l => l.flatMap Glyph.chars

/-- Words are separated by plain spaces. -/
def shownRules : WrapRules where
  blank g := if g.isChar ' ' then 1 else 0
  hyphenWaits := false

/-- The lines of a text as it is shown. -/
def wrap (limit : Nat) (cs : List Char) : List (List Char) := wrapWith shownRules limit cs

/-- The first cells of a line, whole pieces only. -/
def cutGlyphs : Nat → List Glyph → List Glyph
  | _, [] => []
  | n, g :: gs => if g.width ≤ n then g :: cutGlyphs (n - g.width) gs else []

/-- The first cells of a line. -/
def cutTo (n : Nat) (l : List Char) : List Char := (cutGlyphs n (glyphs l)).flatMap Glyph.chars

end QueryCheck.Text
