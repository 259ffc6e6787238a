/-
Reading a text in a language for settings: it gives a value, or a
reason why it gives none.
-/

namespace GitPersona

/-- Why a text gives no value. -/
inductive Reading.Failure
  /-- The text is not of the language, or uses what settings may not use. -/
  | invalid (complaint : String)
  /-- A scalar has the form of its kind but no value. -/
  | valueless (complaint : String)
  deriving DecidableEq, Repr

/-- What reading a text, or a part of one, comes to. -/
abbrev Reading (α : Type) := Except Reading.Failure α

namespace Reading

/-- The text is not of the language. -/
def refuse {α : Type} (complaint : String) : Reading α :=
  .error (.invalid complaint)

/-- A scalar has no value of its kind. -/
def valueless {α : Type} (complaint : String) : Reading α :=
  .error (.valueless complaint)

end Reading

end GitPersona
