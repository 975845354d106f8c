import Pipelines.Exchange.Member

namespace Pipelines.Exchange

/-!
# Records

A record is written in either of two forms: as an object with its fields in any
order, where members of other names are passed over, or as an array of exactly
its fields in their order.
-/

namespace Reader

/-- The closing bracket of an array whose fields have all been read. -/
def endFields (text : List Char) : Except ReadError (List Char) :=
  match skipBlank text with
  | [] => .error .endOfList
  | ']' :: rest => .ok rest
  | ',' :: rest =>
      match skipBlank rest with
      | ']' :: _ => .error .trailingComma
      | _ => .error .trailingCharacters
  | _ => .error .trailingCharacters

theorem length_endFields {text rest : List Char} (ended : endFields text = .ok rest) :
    rest.length < text.length := by
  have trimmed := length_skipBlank_le text
  unfold endFields at ended
  split at ended
  · cases ended
  · rename_i token
    cases ended
    simp only [token, List.length_cons] at trimmed
    omega
  · split at ended <;> cases ended
  · cases ended

/-- Reads a field at the place that has been found for it. At the end of the array the record is
too short. -/
def field (value : Reader α) (tooShort : ReadError) : Next → Except ReadError (α × List Char)
  | .closed _ => .error tooShort
  | .another start => value.run start

theorem length_field {value : Reader α} {tooShort : ReadError} {next : Next} {result : α}
    {rest : List Char} (read : field value tooShort next = .ok (result, rest)) :
    rest.length < next.rest.length := by
  cases next with
  | closed after => cases read
  | another start => exact value.progress read

/-- A field of a record: its name and how its value is read. -/
structure Field (α : Type) where
  name : String
  value : Reader α

def Field.require (target : Field α) : Option α → Except ReadError α
  | some value => .ok value
  | none => .error (.missingField target.name)

/-- Reads the value of a field that may come only once. -/
def Field.once (target : Field α) : Option α → Except ReadError (Reader α)
  | some _ => .error (.duplicateField target.name)
  | none => .ok target.value

/-- Reads a record in either form, given how each form goes on after its opening bracket. Without
them no further bracket may be opened. -/
def record (name : String) (forms : Option (Reader α × Reader α)) : Reader α where
  run text :=
    match skipBlank text, forms with
    | [], _ => .error .endOfValue
    | '[' :: _, none | '{' :: _, none => .error .tooDeep
    | '[' :: rest, some (array, _) => array.run rest
    | '{' :: rest, some (_, object) => object.run rest
    | other, _ => .error (mismatch other (.record name))
  progress {text _ _} read := by
    have trimmed := length_skipBlank_le text
    split at read
    · cases read
    · cases read
    · cases read
    · rename_i array _ token
      have shorter := array.progress read
      simp only [token, List.length_cons] at trimmed
      omega
    · rename_i object token
      have shorter := object.progress read
      simp only [token, List.length_cons] at trimmed
      omega
    · cases read

def array1 (name : String) (first : Field α) : Reader α where
  run text := do
    let (value, rest) ← field first.value (.invalidLength 0 name 1) (← firstElement text)
    let rest ← endFields rest
    return (value, rest)
  progress read := by
    obtain ⟨next, found, continued⟩ := bind_eq_ok.mp read
    obtain ⟨⟨value, after⟩, valueRead, ending⟩ := bind_eq_ok.mp continued
    obtain ⟨last, ended, built⟩ := bind_eq_ok.mp ending
    cases built
    have shorter := Nat.lt_trans (length_endFields ended) (length_field valueRead)
    exact Nat.lt_of_lt_of_le shorter (length_firstElement_le found)

def object1 (first : Field α) : Reader α :=
  members
    (fun state key =>
      if key = first.name then (·.map some) <$> first.once state
      else .ok (skip.map fun _ => state))
    none first.require

def record1 (name : String) (first : Option (Field α)) : Reader α :=
  record name (first.map fun first => (array1 name first, object1 first))

def array2 (name : String) (first : Field α) (second : Field β) : Reader (α × β) where
  run text := do
    let (value, rest) ← field first.value (.invalidLength 0 name 2) (← firstElement text)
    let (other, rest) ← field second.value (.invalidLength 1 name 2) (← nextElement rest)
    let rest ← endFields rest
    return ((value, other), rest)
  progress read := by
    obtain ⟨next, found, continued⟩ := bind_eq_ok.mp read
    obtain ⟨⟨value, after⟩, valueRead, further⟩ := bind_eq_ok.mp continued
    obtain ⟨nextAgain, foundAgain, continuedAgain⟩ := bind_eq_ok.mp further
    obtain ⟨⟨other, afterAgain⟩, otherRead, ending⟩ := bind_eq_ok.mp continuedAgain
    obtain ⟨last, ended, built⟩ := bind_eq_ok.mp ending
    cases built
    have started := length_firstElement_le found
    have shorter := length_field valueRead
    have startedAgain := length_nextElement foundAgain
    have shorterAgain := length_field otherRead
    have shorterStill := length_endFields ended
    omega

def object2 (first : Field α) (second : Field β) : Reader (α × β) :=
  members
    (fun (value, other) key =>
      if key = first.name then (·.map fun value => (some value, other)) <$> first.once value
      else if key = second.name then (·.map fun other => (value, some other)) <$> second.once other
      else .ok (skip.map fun _ => (value, other)))
    (none, none)
    fun (value, other) => do
      let value ← first.require value
      let other ← second.require other
      return (value, other)

def record2 (name : String) (fields : Option (Field α × Field β)) : Reader (α × β) :=
  record name (fields.map fun (first, second) => (array2 name first second, object2 first second))

end Reader

end Pipelines.Exchange
