import DmlCompiler.Operator

/-! # The grammar of conditions

How SQL reads the text of a condition. Its words and groups in parentheses are trees; NOT binds
tighter than AND and AND tighter than OR, the AND behind a BETWEEN belongs to the comparison, and
a group that is no condition by itself is part of a comparison, whatever is in it. -/
namespace DmlCompiler.Sql

/-- Words between blanks, and what stands in parentheses. -/
inductive Tree where
  | word (letters : List Char)
  | group (content : List Tree)
deriving Repr

def Tree.isWord (w : String) : Tree → Bool
  | .word letters => letters == w.toList
  | .group _ => false

inductive Formula where
  | clause (trees : List Tree)
  | not (f : Formula)
  | and (fs : List Formula)
  | or (fs : List Formula)
deriving Repr

namespace Formula

def all : List Formula → Formula
  | [f] => f
  | fs => .and fs

def any : List Formula → Formula
  | [f] => f
  | fs => .or fs

end Formula

structure Reader where
  /-- The letters of a word that may go on. -/
  letters : List Char := []
  trees : List Tree := []
  /-- The trees before each open parenthesis, those of the innermost one first. -/
  outer : List (List Tree) := []

namespace Reader

def level (r : Reader) : List Tree :=
  if r.letters.isEmpty then r.trees else r.trees ++ [.word r.letters]

def step (r : Reader) (c : Char) : Option Reader :=
  if c = ' ' then some ⟨[], r.level, r.outer⟩
  else if c = '(' then some ⟨[], [], r.level :: r.outer⟩
  else if c = ')' then
    match r.outer with
    | [] => none
    | before :: outer => some ⟨[], before ++ [.group r.level], outer⟩
  else some ⟨r.letters ++ [c], r.trees, r.outer⟩

end Reader

def trees? (text : String) : Option (List Tree) := do
  let r ← text.toList.foldlM Reader.step {}
  if r.outer.isEmpty then some r.level else none

abbrev Token := Tree × Option Formula

def Token.isWord (t : Token) (w : String) : Bool := t.1.isWord w

/-- The parts between the connectives that separate. From a BETWEEN on an AND is owed, and up to
it nothing separates. -/
def parts (separator : Connective) (owed : Bool) : List Token → List (List Token)
  | [] => [[]]
  | t :: ts =>
    if !owed && t.isWord separator.sql then [] :: parts separator false ts
    else
      let owed := t.isWord "BETWEEN" || (owed && !t.isWord "AND")
      (parts separator owed ts).modifyHead (t :: ·)

def primary : List Token → Option Formula
  | [] => none
  | [(.group _, inner)] => inner
  | ts => some (.clause (ts.map (·.1)))

def negation : List Token → Option Formula
  | [] => none
  | t :: ts => if t.isWord "NOT" then (negation ts).map .not else primary (t :: ts)

def conjunction (ts : List Token) : Option Formula :=
  ((parts .and false ts).mapM negation).map .all

def disjunction (ts : List Token) : Option Formula :=
  ((parts .or false ts).mapM conjunction).map .any

mutual

def Tree.inner : Tree → Option Formula
  | .word _ => none
  | .group ts => disjunction (tokens ts)

def tokens : List Tree → List Token
  | [] => []
  | t :: ts => (t, t.inner) :: tokens ts

end

def reading (text : String) : Option Formula := do disjunction (tokens (← trees? text))

example : reading "a OR NOT (b) AND c BETWEEN 1 AND 2" =
    some (.or [.clause [.word ['a']], .and [.not (.clause [.word ['b']]),
      .clause [.word ['c'], .word "BETWEEN".toList, .word ['1'], .word "AND".toList,
        .word ['2']]]]) := by
  cbv

def Tree.content : Tree → List Tree
  | .word letters => [.word letters]
  | .group [t] => t.content
  | .group ts => ts

/-- The trees without parentheses around all of them. -/
def stripped : List Tree → List Tree
  | [t] => t.content
  | ts => ts

/-- The clause of a text; parentheses around it are not part of it. -/
def clauseOf (text : String) : Formula := .clause (stripped ((trees? text).getD []))

end DmlCompiler.Sql
