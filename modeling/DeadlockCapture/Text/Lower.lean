/-!
Lower-case forms, as far as they end in ASCII letters.
-/

namespace DeadlockCapture.Text

/-- The lower-case form of a character if it is an ASCII letter. The Kelvin sign is the one
character outside ASCII that has such a form. -/
def lowerChar (c : Char) : Char :=
  if c = '\u212a' then 'k' else c.toLower

def lower (s : List Char) : List Char :=
  s.map lowerChar

end DeadlockCapture.Text
