namespace Pipelines.Exchange

/-- Whether a character may stand between tokens. -/
def isBlank (c : Char) : Bool :=
  c == ' ' || c == '\t' || c == '\n' || c == '\r'

def skipBlank (text : List Char) : List Char :=
  text.dropWhile isBlank

theorem length_skipBlank_le (text : List Char) : (skipBlank text).length ≤ text.length := by
  simpa [skipBlank] using (List.dropWhile_suffix isBlank).length_le

theorem skipBlank_of_not_isBlank {c : Char} {text : List Char} (token : isBlank c = false) :
    skipBlank (c :: text) = c :: text := by
  simp [skipBlank, token]

theorem skipBlank_of_isBlank {c : Char} {text : List Char} (blank : isBlank c = true) :
    skipBlank (c :: text) = skipBlank text := by
  simp [skipBlank, blank]

end Pipelines.Exchange
