import Pipelines.Exchange.Reader

namespace Pipelines.Exchange

/-- What comes next inside a bracket. -/
inductive Next where
  /-- The bracket is closed; the text after it is given. -/
  | closed (rest : List Char)
  /-- Another entry starts here. -/
  | another (start : List Char)

def firstElement (text : List Char) : Except ReadError Next :=
  match skipBlank text with
  | [] => .error .endOfList
  | ']' :: rest => .ok (.closed rest)
  | start => .ok (.another start)

def nextElement (text : List Char) : Except ReadError Next :=
  match skipBlank text with
  | [] => .error .endOfList
  | ']' :: rest => .ok (.closed rest)
  | ',' :: rest =>
      match skipBlank rest with
      | [] => .error .endOfValue
      | ']' :: _ => .error .trailingComma
      | start => .ok (.another start)
  | _ => .error .expectedCommaOrBracket

/-- The text that a next thing leaves to be read. -/
def Next.rest : Next → List Char
  | .closed rest | .another rest => rest

theorem length_firstElement_le {text : List Char} {next : Next}
    (found : firstElement text = .ok next) : next.rest.length ≤ text.length := by
  have trimmed := length_skipBlank_le text
  unfold firstElement at found
  split at found
  · cases found
  · rename_i token
    cases found
    simp only [token, List.length_cons] at trimmed
    simp only [Next.rest]
    omega
  · cases found
    exact trimmed

theorem length_nextElement {text : List Char} {next : Next}
    (found : nextElement text = .ok next) : next.rest.length < text.length := by
  have trimmed := length_skipBlank_le text
  unfold nextElement at found
  split at found
  · cases found
  · rename_i token
    cases found
    simp only [token, List.length_cons] at trimmed
    simp only [Next.rest]
    omega
  · rename_i rest token
    have trimmedAgain := length_skipBlank_le rest
    simp only [token, List.length_cons] at trimmed
    split at found
    · cases found
    · cases found
    · cases found
      simp only [Next.rest]
      omega
  · cases found

namespace Reader

def moreElements (element : Reader α) (text : List Char) :
    Except ReadError (List α × List Char) :=
  match _next : nextElement text with
  | .error cause => .error cause
  | .ok (.closed rest) => .ok ([], rest)
  | .ok (.another start) =>
      match _read : element.run start with
      | .error cause => .error cause
      | .ok (value, rest) => do
          let (values, rest) ← element.moreElements rest
          return (value :: values, rest)
termination_by text.length
decreasing_by
  have started := length_nextElement _next
  have shorter := element.progress _read
  simp only [Next.rest] at started
  omega

def elementsFrom (element : Reader α) : Next → Except ReadError (List α × List Char)
  | .closed rest => .ok ([], rest)
  | .another start => do
      let (value, rest) ← element.run start
      let (values, rest) ← element.moreElements rest
      return (value :: values, rest)

theorem moreElements_eq (element : Reader α) (text : List Char) :
    element.moreElements text = nextElement text >>= element.elementsFrom := by
  rw [moreElements]
  split
  next cause failed => rw [failed]; rfl
  next rest closed => rw [closed]; rfl
  next start another =>
    rw [another]
    split
    next cause failed => simp only [bind, Except.bind, elementsFrom, failed]
    next value rest found => simp only [bind, Except.bind, elementsFrom, found]

theorem length_moreElements {element : Reader α} {text rest : List Char} {values : List α}
    (read : element.moreElements text = .ok (values, rest)) : rest.length < text.length := by
  fun_induction element.moreElements text generalizing values rest with
  | case1 => cases read
  | case2 text after next =>
      cases read
      exact length_nextElement next
  | case3 => cases read
  | case4 text start next value after first ih =>
      obtain ⟨⟨others, remaining⟩, othersRead, built⟩ := bind_eq_ok.mp read
      cases built
      have started := length_nextElement next
      have shorter := element.progress first
      have shorterStill := ih othersRead
      simp only [Next.rest] at started
      omega

theorem length_elementsFrom_le {element : Reader α} {next : Next} {rest : List Char}
    {values : List α} (read : element.elementsFrom next = .ok (values, rest)) :
    rest.length ≤ next.rest.length := by
  cases next with
  | closed after => cases read; exact Nat.le_refl _
  | another start =>
      obtain ⟨⟨value, after⟩, valueRead, others⟩ := bind_eq_ok.mp read
      obtain ⟨⟨values, remaining⟩, valuesRead, built⟩ := bind_eq_ok.mp others
      cases built
      have shorter := element.progress valueRead
      have shorterStill := length_moreElements valuesRead
      simp only [Next.rest]
      omega

/-- Reads a list. Without a reader for its elements no further bracket may be opened. -/
def list (element : Option (Reader α)) : Reader (List α) where
  run text :=
    match skipBlank text, element with
    | [], _ => .error .endOfValue
    | '[' :: _, none => .error .tooDeep
    | '[' :: rest, some element => do element.elementsFrom (← firstElement rest)
    | other, _ => .error (mismatch other .sequence)
  progress {text _ _} read := by
    have trimmed := length_skipBlank_le text
    split at read
    · cases read
    · cases read
    · rename_i token
      obtain ⟨next, first, others⟩ := bind_eq_ok.mp read
      have started := length_firstElement_le first
      have shorter := length_elementsFrom_le others
      simp only [token, List.length_cons] at trimmed
      omega
    · cases read

end Reader

end Pipelines.Exchange
