/-! Letter case. Only the ASCII letters have two cases here; every other character stands for
itself. -/
namespace Adventure.Text

def lower (s : String) : String :=
  String.ofList (s.toList.map Char.toLower)

def upper (s : String) : String :=
  String.ofList (s.toList.map Char.toUpper)

/-- Equality of names, ignoring case. -/
def same (a b : String) : Bool :=
  lower a == lower b

theorem same_iff {a b : String} : same a b = true ↔ lower a = lower b := by
  simp [same]

theorem same_refl (a : String) : same a a = true := by
  simp [same]

theorem same_comm (a b : String) : same a b = same b a := by
  simp [same, Bool.beq_comm]

end Adventure.Text
