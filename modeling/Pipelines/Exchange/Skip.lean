import Pipelines.Exchange.Skip.Token

namespace Pipelines.Exchange

/-!
# Passing over values

The value of a member that is not known is passed over. Its notation is checked
and its brackets have to match, but it may be nested to any depth: instead of a
recursion for every bracket, the brackets still open are kept in a list. Main
statement: `length_skip`, passing over a value takes at least one character.
-/

mutual

/-- Passes over a value, and then over the rest of the brackets around it, innermost first. -/
def skipValue (enclosing : List Enclosure) (text : List Char) : Except ReadError (List Char) :=
  match _token : skipBlank text with
  | [] => .error .endOfValue
  | c :: rest =>
      match Enclosure.ofOpening? c with
      | some enclosure =>
          match _inner : skipBlank rest with
          | [] => .error enclosure.unclosed
          | d :: after =>
              if d = enclosure.closing then skipRest enclosing after
              else
                match _entry : enclosure.skipKey (d :: after) with
                | .error cause => .error cause
                | .ok start => skipValue (enclosure :: enclosing) start
      | none =>
          match _scalar : skipScalar (c :: rest) with
          | .error cause => .error cause
          | .ok after => skipRest enclosing after
termination_by text.length
decreasing_by
  all_goals
    have trimmed := length_skipBlank_le text
    simp only [_token, List.length_cons] at trimmed
  · have inner := length_skipBlank_le rest
    simp only [_inner, List.length_cons] at inner
    omega
  · have inner := length_skipBlank_le rest
    have shorter := Enclosure.length_skipKey_le _entry
    simp only [_inner, List.length_cons] at inner shorter
    omega
  · have shorter := length_skipScalar _scalar
    simp only [List.length_cons] at shorter
    omega

/-- Passes over what follows a value inside the brackets around it, innermost first. -/
def skipRest (enclosing : List Enclosure) (text : List Char) : Except ReadError (List Char) :=
  match enclosing with
  | [] => .ok text
  | enclosure :: outer =>
      match _token : skipBlank text with
      | [] => .error enclosure.unclosed
      | ',' :: rest =>
          match _entry : enclosure.skipKey rest with
          | .error cause => .error cause
          | .ok start => skipValue (enclosure :: outer) start
      | c :: rest => if c = enclosure.closing then skipRest outer rest else .error enclosure.expectedEnd
termination_by text.length
decreasing_by
  all_goals
    have trimmed := length_skipBlank_le text
    simp only [_token, List.length_cons] at trimmed
  · have shorter := Enclosure.length_skipKey_le _entry
    omega
  · omega

end

theorem skipValue_eq (enclosing : List Enclosure) (text : List Char) :
    skipValue enclosing text =
      match skipBlank text with
      | [] => .error .endOfValue
      | c :: rest =>
          match Enclosure.ofOpening? c with
          | some enclosure =>
              match skipBlank rest with
              | [] => .error enclosure.unclosed
              | d :: after =>
                  if d = enclosure.closing then skipRest enclosing after
                  else enclosure.skipKey (d :: after) >>= skipValue (enclosure :: enclosing)
          | none => skipScalar (c :: rest) >>= skipRest enclosing := by
  rw [skipValue]
  split
  next token => rw [token]
  next c rest token =>
    rw [token]
    dsimp only
    cases Enclosure.ofOpening? c with
    | none =>
        dsimp only
        split
        next cause scalar => rw [scalar]; rfl
        next after scalar => rw [scalar]; rfl
    | some enclosure =>
        dsimp only
        split
        next inner => rw [inner]
        next d after inner =>
          rw [inner]
          dsimp only
          split
          · rfl
          · split
            next cause entry => rw [entry]; rfl
            next start entry => rw [entry]; rfl

theorem skipRest_eq (enclosure : Enclosure) (outer : List Enclosure) (text : List Char) :
    skipRest (enclosure :: outer) text =
      match skipBlank text with
      | [] => .error enclosure.unclosed
      | ',' :: rest => enclosure.skipKey rest >>= skipValue (enclosure :: outer)
      | c :: rest =>
          if c = enclosure.closing then skipRest outer rest else .error enclosure.expectedEnd := by
  rw [skipRest]
  split
  next token => rw [token]
  next rest token =>
    rw [token]
    split
    next cause entry => simp only [entry]; rfl
    next start entry => simp only [entry]; rfl
  next c rest notComma token =>
    rw [token]
    split <;> simp_all

theorem skipRest_nil (text : List Char) : skipRest [] text = .ok text := by
  rw [skipRest]

theorem length_skip :
    (∀ enclosing text rest, skipValue enclosing text = .ok rest → rest.length < text.length) ∧
    (∀ enclosing text rest, skipRest enclosing text = .ok rest → rest.length ≤ text.length) := by
  let Shorter : List Enclosure → List Char → Prop := fun enclosing text =>
    ∀ rest, skipValue enclosing text = .ok rest → rest.length < text.length
  let NotLonger : List Enclosure → List Char → Prop := fun enclosing text =>
    ∀ rest, skipRest enclosing text = .ok rest → rest.length ≤ text.length
  apply skipValue.mutual_induct Shorter NotLonger
  case case1 =>
    intro enclosing text token rest skipped
    rw [skipValue_eq, token] at skipped
    cases skipped
  case case2 =>
    intro enclosing text c after token enclosure opens inner rest skipped
    simp only [skipValue_eq enclosing, token, opens, inner] at skipped
    cases skipped
  case case3 =>
    intro enclosing text c after token enclosure opens last inner ih rest skipped
    simp only [skipValue_eq enclosing, token, opens, inner, if_true] at skipped
    have trimmed := length_skipBlank_le text
    have innerTrimmed := length_skipBlank_le after
    have shorter := ih rest skipped
    simp only [token, inner, List.length_cons] at trimmed innerTrimmed
    omega
  case case4 =>
    intro enclosing text c after token enclosure opens d last inner notClosed cause entry rest skipped
    simp only [skipValue_eq enclosing, token, opens, inner, notClosed, if_false, entry] at skipped
    cases skipped
  case case5 =>
    intro enclosing text c after token enclosure opens d last inner notClosed start entry ih rest skipped
    simp only [skipValue_eq enclosing, token, opens, inner, notClosed, if_false, entry] at skipped
    have trimmed := length_skipBlank_le text
    have innerTrimmed := length_skipBlank_le after
    have entered := Enclosure.length_skipKey_le entry
    have shorter := ih rest skipped
    simp only [token, inner, List.length_cons] at trimmed innerTrimmed entered
    omega
  case case6 =>
    intro enclosing text c after token plain cause scalar rest skipped
    simp only [skipValue_eq enclosing, token, plain, scalar] at skipped
    cases skipped
  case case7 =>
    intro enclosing text c after token plain start scalar ih rest skipped
    simp only [skipValue_eq enclosing, token, plain, scalar] at skipped
    have trimmed := length_skipBlank_le text
    have passed := length_skipScalar scalar
    have shorter := ih rest skipped
    simp only [token, List.length_cons] at trimmed passed
    omega
  case case8 =>
    intro text rest skipped
    rw [skipRest_nil] at skipped
    cases skipped
    exact Nat.le_refl _
  case case9 =>
    intro text enclosure outer token rest skipped
    simp only [skipRest_eq, token] at skipped
    cases skipped
  case case10 =>
    intro text enclosure outer after token cause entry rest skipped
    simp only [skipRest_eq, token, entry] at skipped
    cases skipped
  case case11 =>
    intro text enclosure outer after token start entry ih rest skipped
    simp only [skipRest_eq, token, entry] at skipped
    have trimmed := length_skipBlank_le text
    have entered := Enclosure.length_skipKey_le entry
    have shorter := ih rest skipped
    simp only [token, List.length_cons] at trimmed
    omega
  case case12 =>
    intro text enclosure outer after notComma token ih rest skipped
    rw [skipRest_eq, token] at skipped
    have trimmed := length_skipBlank_le text
    simp only [token, List.length_cons] at trimmed
    split at skipped
    next closed => cases closed
    next comma => exact absurd (List.cons.inj comma).1 notComma
    next c closed =>
      obtain ⟨rfl, rfl⟩ := List.cons.inj closed
      have shorter := ih rest (by simpa using skipped)
      omega
  case case13 =>
    intro text enclosure outer c after notComma token notClosed rest skipped
    rw [skipRest_eq, token] at skipped
    split at skipped
    next closed => cases closed
    next comma => exact absurd (List.cons.inj comma).1 notComma
    next closed =>
      obtain ⟨rfl, rfl⟩ := List.cons.inj closed
      simp only [notClosed, if_false] at skipped
      cases skipped

end Pipelines.Exchange
