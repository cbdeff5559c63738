import LuaZephyr.Generate.Pieces

/-!
# The templates of source mode

Both templates name the script's placeholder twice: in the comment at their head, and
between the double quotes of the script's literal. A `SourceTemplate` is a template of this
form, with the checks that make it work for every name.

The texts are those of `Generate.LuazGen`. The checks are on a template alone and decided by
evaluation, so that a changed template needs no new proof as long as it passes them. What the C
in the templates does when it runs is not said here.
-/

namespace LuaZephyr

open PyText CLexing

/-- A character, or a placeholder for the name. -/
def Piece.isNamed : Piece → Bool
  | .char _ => true
  | .placeholder p => p = .fileName || p = .fileNameUpper

/-- The shape after a piece text whose placeholders hold words. -/
def shapeAfter : Shape → List Piece → Option Shape
  | s, [] => some s
  | s, .char c :: ps => shapeAfter (s.step c) ps
  | s, .placeholder _ :: ps => if s.steady then shapeAfter s ps else none

/-- The next character is there and not a newline. -/
def nextPlain : List Piece → Bool
  | .char c :: _ => c ≠ '\n'
  | _ => false

/-- No backslash stands before a newline, or at the end. -/
def unspliced : List Piece → Bool
  | [] => true
  | .char c :: ps => (c ≠ '\\' || nextPlain ps) && unspliced ps
  | .placeholder _ :: ps => unspliced ps

/-- All of a template, by what is before, between and behind the script's two places. -/
def joined (head middle tail : List Piece) : List Piece :=
  head ++ .placeholder .luaContent :: (middle ++
    .char '"' :: .placeholder .luaContent :: .char '"' :: tail)

/-- A template with the script's placeholder in its first comment, and then in a string
literal. -/
structure SourceTemplate where
  head : List Piece
  middle : List Piece
  tail : List Piece
  tidy : tidy (joined head middle tail) = true
  allNamed : (head ++ middle ++ tail).all Piece.isNamed = true
  unspliced : (unspliced head && unspliced middle && unspliced tail) = true
  space : middle.head? = some (.char ' ')
  head_shape : shapeAfter .code head = some (.block false)
  middle_shape : shapeAfter (.block false) middle = some .code
  tail_shape : shapeAfter .code tail = some .code

/-- What is before the first place of the script, and what follows it. -/
def splitContent (ps : List Piece) : List Piece × List Piece :=
  (ps.takeWhile (· ≠ .placeholder .luaContent),
    (ps.dropWhile (· ≠ .placeholder .luaContent)).tail)

def templateH : SourceTemplate :=
  let first := splitContent (piecesFrom 0 luaTemplateH)
  let second := splitContent first.2
  { head := first.1
    middle := second.1.dropLast
    tail := second.2.tail
    tidy := by decide +kernel
    allNamed := by decide +kernel
    unspliced := by decide +kernel
    space := by decide +kernel
    head_shape := by decide +kernel
    middle_shape := by decide +kernel
    tail_shape := by decide +kernel }

def threadC : SourceTemplate :=
  let first := splitContent (piecesFrom 0 luaThreadC)
  let second := splitContent first.2
  { head := first.1
    middle := second.1.dropLast
    tail := second.2.tail
    tidy := by decide +kernel
    allNamed := by decide +kernel
    unspliced := by decide +kernel
    space := by decide +kernel
    head_shape := by decide +kernel
    middle_shape := by decide +kernel
    tail_shape := by decide +kernel }

namespace SourceTemplate

variable (t : SourceTemplate) (name : List Char)

/-- The file. -/
def text : List Char := fill Placeholder.text (joined t.head t.middle t.tail)

end SourceTemplate

theorem templateH_text : templateH.text = luaTemplateH := by decide +kernel

theorem threadC_text : threadC.text = luaThreadC := by decide +kernel

end LuaZephyr
