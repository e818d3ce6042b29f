import Adventure.Text.Blank
import Adventure.Text.Digit
import Adventure.Text.Number
import Adventure.Text.Quoted
/-! Argument lists: pieces between blanks, and the integers they stand for. A piece `N(count,step)`
stands for `count` integers from `N` on, `step` apart. -/
namespace Adventure

namespace Chars

/-- Cuts at each space and tab outside parentheses. `depth` parentheses are open, and `piece` holds
the latest piece backwards. -/
def splitOutside : Nat → List Char → List Char → List (List Char)
  | _, piece, [] => [piece.reverse]
  | depth, piece, c :: cs =>
    if c == '(' then splitOutside (depth + 1) (c :: piece) cs
    else if c == ')' then splitOutside (depth - 1) (c :: piece) cs
    else if (c == ' ' || c == '\t') && depth == 0 then piece.reverse :: splitOutside depth [] cs
    else splitOutside depth (c :: piece) cs

def arguments (cs : List Char) : List (List Char) :=
  ((splitOutside 0 [] cs).map (dropEndWhile (· == ','))).filter (!·.isEmpty)

/-- A nonempty run of decimal digits of any script, and the rest. -/
def digits? (cs : List Char) : Option (List Char × List Char) :=
  match cs.takeWhile isDecimalDigit with
  | [] => none
  | ds => some (ds, cs.dropWhile isDecimalDigit)

def signedDigits? : List Char → Option (List Char × List Char)
  | '-' :: cs => (digits? cs).map fun (ds, rest) => ('-' :: ds, rest)
  | cs => digits? cs

/-- The three numbers of a repeat group, still as text. -/
structure RepeatGroup where
  start : List Char
  count : List Char
  step : List Char
  deriving DecidableEq, Repr

def RepeatGroup.ofChars? (cs : List Char) : Option RepeatGroup :=
  match signedDigits? cs with
  | some (start, '(' :: cs) =>
    match digits? cs with
    | some (count, ',' :: cs) =>
      match signedDigits? cs with
      | some (step, [')']) => some ⟨start, count, step⟩
      | _ => none
    | _ => none
  | _ => none

end Chars

namespace Text

/-- The pieces between blanks outside parentheses, without trailing commas and without empty ones. -/
def arguments (s : String) : List String :=
  (Chars.arguments s.toList).map String.ofList

/-- The most values one repeat group may stand for. -/
def maxRepeat : Nat := 4096

inductive NumbersError where
  | number (cause : NumberError)
  | tooMany (token : String)
  | notInteger (token : String)
  deriving DecidableEq, Repr

def NumbersError.message : NumbersError → String
  | .number cause => cause.message
  | .tooMany token => s!"repeat group {quote token} exceeds {maxRepeat} values"
  | .notInteger token => s!"expected integer, found {quote token}"

/-- `count` values from `start` on, `step` apart, wrapping at 32 bits. -/
def progression (step : Int32) : Nat → Int32 → List Int32
  | 0, _ => []
  | count + 1, start => start :: progression step count (start + step)

/-- The values of a repeat group. Its numbers are checked from left to right. -/
def expandGroup (token : String) (g : Chars.RepeatGroup) : Except NumbersError (List Int32) := do
  let start ← (readInt32 (String.ofList g.start)).mapError .number
  let count ← (readUInt64 (String.ofList g.count)).mapError .number
  if count.toNat > maxRepeat then throw (.tooMany token)
  let step ← (readInt32 (String.ofList g.step)).mapError .number
  return progression step count.toNat start

def expand (token : String) : Except NumbersError (List Int32) :=
  match Chars.RepeatGroup.ofChars? token.toList with
  | some g => expandGroup token g
  | none =>
    match readInt32 token with
    | .ok value => .ok [value]
    | .error _ => .error (.notInteger token)

/-- The integers of all pieces in order; the first bad piece decides the error. -/
def numbers : List String → Except NumbersError (List Int32)
  | [] => .ok []
  | token :: rest => do
    let values ← expand token
    return values ++ (← numbers rest)

end Text
end Adventure
