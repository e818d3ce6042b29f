import Adventure.Text.Blank
import Adventure.Text.Number
/-! Tokens of conditions and changes. `NAME` and `!NAME` ask for or set a nonzero value and zero,
`=NAME,VALUE` a given value; what starts with `*`, `+` or `@` is reserved and asks for nothing. -/
namespace Adventure

/-- The value from 0 to 255 that a literal stands for. -/
def literal? (s : String) : Option UInt8 :=
  match Text.readWide (Text.trim s) with
  | .ok n => if 0 ≤ n ∧ n ≤ 255 then some n.toNat.toUInt8 else none
  | .error _ => none

inductive Token where
  | nonzero (name : String)
  | isZero (name : String)
  | equals (name : String) (value : String)
  | reserved
  deriving DecidableEq, Repr

namespace Token

def ofChars : List Char → Token
  | '!' :: cs => .isZero (String.ofList cs)
  | '=' :: cs =>
    match Chars.cut? (· == ',') cs with
    | some (name, value) => .equals (String.ofList name) (String.ofList value)
    | none => .equals (String.ofList cs) ""
  | '*' :: _ => .reserved
  | '+' :: _ => .reserved
  | '@' :: _ => .reserved
  | cs => .nonzero (String.ofList cs)

/-- The tokens of a condition or change, which stand between blanks. -/
def ofText (text : String) : List Token :=
  (Chars.words text.toList).map ofChars

/-- Whether the token holds where `value` gives the value of a name. -/
def holds (value : String → UInt8) : Token → Bool
  | .nonzero name => value name != 0
  | .isZero name => value name == 0
  | .equals name literal =>
    match literal? literal with
    | some expected => value name == expected
    | none => false
  | .reserved => true

/-- The name a token writes, and the value written. -/
def write? : Token → Option (String × UInt8)
  | .nonzero name => some (name, 1)
  | .isZero name => some (name, 0)
  | .equals name literal => (literal? literal).map (name, ·)
  | .reserved => none

end Token
end Adventure
