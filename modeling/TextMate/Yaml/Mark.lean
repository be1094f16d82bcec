/-!
# Places in a document

A mark is a place in a text: how many characters stand before it, its line, and
its column, all counted from zero.  Its description names the place and shows
the line around it with a pointer below.  At most seventy-five characters of a
line are shown; a cut is marked by dots.
-/

namespace TextMate
namespace Yaml

structure Mark where
  index : Nat
  line : Nat
  column : Nat
  deriving DecidableEq, Repr, Inhabited

def isBreak (c : Char) : Bool :=
  c == '\n' || c == '\r' || c.toNat == 0x85 || c.toNat == 0x2028 || c.toNat == 0x2029

namespace Mark

/-- The part of a line next to a mark that is shown, and whether it had to be cut: all of
it, or what is left of its first thirty-seven characters without the last five. -/
def shown (cs : List Char) : List Char × Bool :=
  let line := cs.takeWhile fun c => !isBreak c && c.toNat != 0
  if 37 <= line.length then (line.take 32, true) else (line, false)

def snippet (source : List Char) (mark : Mark) : List Char :=
  let (before, headCut) := shown (source.take mark.index).reverse
  let (after, tailCut) := shown (source.drop mark.index)
  let dots := " ... ".toList
  let head := (if headCut then dots else []) ++ before.reverse
  let indent := List.replicate 4 ' '
  indent ++ head ++ after ++ (if tailCut then dots else []) ++ ['\n'] ++ indent
    ++ List.replicate head.length ' ' ++ ['^']

def describe (source : List Char) (mark : Mark) : String :=
  "  in \"<unicode string>\", line " ++ toString (mark.line + 1) ++ ", column "
    ++ toString (mark.column + 1) ++ ":\n" ++ String.ofList (mark.snippet source)

end Mark

end Yaml
end TextMate
