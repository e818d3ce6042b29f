/-! Blank characters and the ways text is cut at them. Functions on `List Char` carry the rules;
those on `String` only wrap them. -/
namespace Adventure

/-- The Unicode White_Space property. -/
def Chars.isBlank (c : Char) : Bool :=
  let n := c.toNat
  (9 ≤ n && n ≤ 13) || n == 0x20 || n == 0x85 || n == 0xA0 || n == 0x1680 ||
    (0x2000 ≤ n && n ≤ 0x200A) || n == 0x2028 || n == 0x2029 || n == 0x202F || n == 0x205F ||
    n == 0x3000

/-- Space, tab, line feed, form feed and carriage return. -/
def Chars.isAsciiBlank (c : Char) : Bool :=
  c == ' ' || c == '\t' || c == '\n' || c == '\x0c' || c == '\r'

namespace Chars

def dropEndWhile (p : Char → Bool) (cs : List Char) : List Char :=
  (cs.reverse.dropWhile p).reverse

def trim (cs : List Char) : List Char :=
  dropEndWhile isBlank (cs.dropWhile isBlank)

/-- The maximal runs of characters that are not blank. -/
def words (cs : List Char) : List (List Char) :=
  (cs.splitOnP isBlank).filter (!·.isEmpty)

/-- What stands before and after the first character with `p`. -/
def cut? (p : Char → Bool) (cs : List Char) : Option (List Char × List Char) :=
  match cs.dropWhile (!p ·) with
  | [] => none
  | _ :: rest => some (cs.takeWhile (!p ·), rest)

end Chars

namespace Text

def trim (s : String) : String :=
  String.ofList (Chars.trim s.toList)

def words (s : String) : List String :=
  (Chars.words s.toList).map String.ofList

def cut? (p : Char → Bool) (s : String) : Option (String × String) :=
  (Chars.cut? p s.toList).map fun (a, b) => (String.ofList a, String.ofList b)

def dropEndWhile (p : Char → Bool) (s : String) : String :=
  String.ofList (Chars.dropEndWhile p s.toList)

end Text
end Adventure
