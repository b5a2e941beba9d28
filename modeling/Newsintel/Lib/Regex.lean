import Newsintel.Lib.PyText

/-!
# Backtracking regular expressions (`re`)

Patterns over characters with zero-width assertions on the neighbouring
characters. A position is the character before it and the text after it; `run`
lists the ends of all matches from a position, the preferred one first, as the
backtracking engine tries them. Repetitions are greedy.
-/

namespace Newsintel.Regex

open PyText

inductive Pattern where
  | empty
  | char (p : Char → Bool)
  | seq (a b : Pattern)
  | alt (a b : Pattern)
  | star (a : Pattern)
  /-- holds between the previous and the next character -/
  | between (p : Option Char → Option Char → Bool)

/-- The character before a position and the text after it. -/
abbrev Position := Option Char × Text

/-- Greedy repetition; an iteration that consumes nothing ends it. -/
def repeatFrom (f : Position → List Position) : ℕ → Position → List Position
  | 0, s => [s]
  | n + 1, s =>
    ((f s).filter fun s' => s'.2.length < s.2.length).flatMap (repeatFrom f n) ++ [s]

/-- Ends of the matches that start at a position. -/
def run : Pattern → Position → List Position
  | .empty, s => [s]
  | .char _, (_, []) => []
  | .char p, (_, c :: t) => if p c then [(some c, t)] else []
  | .seq a b, s => (run a s).flatMap (run b)
  | .alt a b, s => run a s ++ run b s
  | .star a, s => repeatFrom (run a) s.2.length s
  | .between p, s => if p s.1 s.2.head? then [s] else []

/-- The end of the match at a position. -/
def matchAt (r : Pattern) (s : Position) : Option Position := (run r s).head?

/-- The next position. -/
def advance : Position → Option Position
  | (_, []) => none
  | (_, c :: t) => some (some c, t)

/-- `bool(re.search(r, text))`, from a position on. -/
def searchFrom (r : Pattern) : Option Char → Text → Bool
  | prev, [] => (matchAt r (prev, [])).isSome
  | prev, c :: t => (matchAt r (prev, c :: t)).isSome || searchFrom r (some c) t

def search (r : Pattern) (t : Text) : Bool := searchFrom r none t

/-- The pieces around the non-empty matches of `r` and the matches themselves;
`piece` is the text since the last match, reversed. -/
def scan (r : Pattern) : ℕ → Text → Position → List (Text × Option Text)
  | 0, piece, s => [(piece.reverse ++ s.2, none)]
  | n + 1, piece, s =>
    match matchAt r s with
    | some s' =>
      if s'.2.length < s.2.length then
        (piece.reverse, some (s.2.take (s.2.length - s'.2.length))) :: scan r n [] s'
      else
        match s.2 with
        | [] => [(piece.reverse, none)]
        | c :: t => scan r n (c :: piece) (some c, t)
    | none =>
      match s.2 with
      | [] => [(piece.reverse, none)]
      | c :: t => scan r n (c :: piece) (some c, t)

/-- `r.split(text)` for a pattern without empty matches. -/
def split (r : Pattern) (t : Text) : List Text :=
  (scan r (t.length + 1) [] (none, t)).map Prod.fst

/-- `[m.group(0) for m in r.finditer(text)]` for a pattern without empty matches. -/
def findall (r : Pattern) (t : Text) : List Text :=
  (scan r (t.length + 1) [] (none, t)).filterMap Prod.snd

/-! ### Building patterns -/

/-- `[chars]`. -/
def oneOf (chars : String) : Pattern := .char chars.toList.contains

def plus (a : Pattern) : Pattern := .seq a (.star a)

/-- At most `n` times, greedy. -/
def atMost (a : Pattern) : ℕ → Pattern
  | 0 => .empty
  | n + 1 => .alt (.seq a (atMost a n)) .empty

def optional (a : Pattern) : Pattern := atMost a 1

/-- Exactly `n` times. -/
def exactly (a : Pattern) : ℕ → Pattern
  | 0 => .empty
  | n + 1 => .seq a (exactly a n)

def seqs : List Pattern → Pattern
  | [] => .empty
  | a :: rest => .seq a (seqs rest)

def alts : List Pattern → Pattern
  | [] => .char fun _ => false
  | [a] => a
  | a :: rest => .alt a (alts rest)

def literal (s : String) : Pattern := seqs (s.toList.map fun c => .char (· == c))

/-- `\s`. -/
def space : Pattern := .char isSpace

variable (u : Unicode)

/-- `\d`. -/
def digit : Pattern := .char u.isDecimal

def isWord (c : Option Char) : Bool :=
  match c with
  | some c => u.isAlnum c || c == '_'
  | none => false

/-- `\b`. -/
def boundary : Pattern := .between fun before after => isWord u before != isWord u after

/-- A lower-case ASCII letter under `re.I`: its two cases, and the characters outside
ASCII that `re` folds to it. -/
def foldsTo (letter c : Char) : Bool :=
  c.toLower == letter || (letter == 'i' && (c.toNat == 0x130 || c.toNat == 0x131)) ||
    (letter == 's' && c.toNat == 0x17F) || (letter == 'k' && c.toNat == 0x212A)

/-- A literal of lower-case letters under `re.I`. -/
def literalI (s : String) : Pattern := seqs (s.toList.map fun c => .char (foldsTo c))

/-- `[a-z]` under `re.I`. -/
def letterI : Pattern :=
  .char fun c => "abcdefghijklmnopqrstuvwxyz".toList.any fun letter => foldsTo letter c

end Newsintel.Regex
