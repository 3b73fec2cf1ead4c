/-
# `Storage.Glob` — the glob matcher of KEYS and the SCAN family

The loop of the source over two positions and a remembered star, with the
suffixes in place of the positions.  Each star seen is remembered with the text
it was met at; a mismatch goes back to it and gives the star one character more.
-/
import Ferrous.Lib.Text

namespace Ferrous

open Lib

namespace Glob

/-- Whether a character is in the body of a bracket class. -/
def inClass (t : Char) : List Char → Bool
  | a :: '-' :: b :: rest => (decide (a ≤ t) && decide (t ≤ b)) || inClass t rest
  | a :: rest => a == t || inClass t rest
  | [] => false

/-- Match one character against the class that starts after `[`; the pattern
after its `]`, if the class is closed and the character is in it. -/
def matchClass (ps : List Char) (t : Char) : Option (List Char) :=
  match ps.dropWhile (· ≠ ']') with
  | [] => none
  | _ :: rest =>
      let body := ps.takeWhile (· ≠ ']')
      let matched := match body with
        | '^' :: body' => !inClass t body'
        | body' => inClass t body'
      if matched then some rest else none

/-- The loop of `pattern_matches`.  `star` holds the pattern after the last
star and the text it was met at. -/
def loop : Nat → List Char → List Char → Option (List Char × List Char) → Bool
  | 0, _, _, _ => false
  | _ + 1, ps, [], _ => ps.all (· == '*')
  | fuel + 1, ps, t :: ts, star =>
      let back : Bool := match star with
        | some (ps', _ :: ts') => loop fuel ps' ts' (some (ps', ts'))
        | _ => false
      match ps with
      | [] => back
      | p :: ps' =>
          if p = '?' then loop fuel ps' ts star
          else if p = '*' then loop fuel ps' (t :: ts) (some (ps', t :: ts))
          else if p = '[' then
            match matchClass ps' t with
            | some rest => loop fuel rest ts star
            | none => back
          else
            match p, ps' with
            | '\\', c :: ps'' => if c = t then loop fuel ps'' ts star else back
            | _, _ => if p = t then loop fuel ps' ts star else back

/-- `pattern_matches`; the fuel covers every return to a star. -/
def patternMatches (pattern text : String) : Bool :=
  loop ((text.toList.length + 1) * (pattern.toList.length + 2)) pattern.toList text.toList none

/-- `pattern_matches` of lossily decoded bytes. -/
def matchesBytes (pattern text : Bytes) : Bool :=
  patternMatches (fromUtf8Lossy pattern) (fromUtf8Lossy text)

end Glob

end Ferrous
