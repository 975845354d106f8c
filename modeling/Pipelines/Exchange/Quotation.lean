import Pipelines.Exchange.Quotation.Escape

namespace Pipelines.Exchange

/-- Reads a text, after its opening quote, up to its closing quote. -/
def readText : List Char → Except ReadError (List Char × List Char)
  | [] => .error .endOfText
  | '\"' :: rest => .ok ([], rest)
  | '\\' :: rest =>
      match _read : readEscape rest with
      | .error cause => .error cause
      | .ok (c, rest) => do
          let (text, rest) ← readText rest
          return (c :: text, rest)
  | c :: rest =>
      if isControl c then .error .controlCharacter
      else do
        let (text, rest) ← readText rest
        return (c :: text, rest)
termination_by text => text.length
decreasing_by
  · have shorter := length_readEscape _read
    simp only [List.length_cons]
    omega
  · simp

theorem length_readText {text value rest : List Char}
    (read : readText text = .ok (value, rest)) : rest.length < text.length := by
  fun_induction readText text generalizing value rest with
  | case1 => cases read
  | case2 after => cases read; simp
  | case3 after cause failed => cases read
  | case4 after c following escape ih =>
      obtain ⟨⟨others, remaining⟩, othersRead, built⟩ := bind_eq_ok.mp read
      cases built
      have shorter := length_readEscape escape
      have shorterStill := ih othersRead
      simp only [List.length_cons]
      omega
  | case5 => cases read
  | case6 c after notQuote notBackslash printable ih =>
      obtain ⟨⟨others, remaining⟩, othersRead, built⟩ := bind_eq_ok.mp read
      cases built
      have shorter := ih othersRead
      simp only [List.length_cons]
      omega

/-- Passes over a text, after its opening quote. Escapes are checked, but not whether they pair. -/
def skipText : List Char → Except ReadError (List Char)
  | [] => .error .endOfText
  | '\"' :: rest => .ok rest
  | ['\\'] => .error .endOfText
  | '\\' :: 'u' :: rest => do
      let _ ← readUnit rest
      skipText rest
  | '\\' :: c :: rest => if (escaped? c).isSome then skipText rest else .error .invalidEscape
  | c :: rest => if isControl c then .error .controlCharacter else skipText rest

theorem length_skipText {text rest : List Char} (skipped : skipText text = .ok rest) :
    rest.length < text.length := by
  fun_induction skipText text with
  | case1 => cases skipped
  | case2 after => cases skipped; simp
  | case3 => cases skipped
  | case4 after ih =>
      obtain ⟨_, _, continued⟩ := bind_eq_ok.mp skipped
      have shorter := ih continued
      simp only [List.length_cons]
      omega
  | case5 c after notUnit known ih => have shorter := ih skipped; simp only [List.length_cons]; omega
  | case6 => cases skipped
  | case7 => cases skipped
  | case8 c after _ _ _ _ _ ih => have shorter := ih skipped; simp only [List.length_cons]; omega

def writtenChar (c : Char) : List Char :=
  if c = '\"' then ['\\', '\"']
  else if c = '\\' then ['\\', '\\']
  else if c = '\x08' then ['\\', 'b']
  else if c = '\x0c' then ['\\', 'f']
  else if c = '\n' then ['\\', 'n']
  else if c = '\r' then ['\\', 'r']
  else if c = '\t' then ['\\', 't']
  else if isControl c then
    ['\\', 'u', '0', '0', Nat.digitChar (c.toNat / 16), Nat.digitChar (c.toNat % 16)]
  else [c]

def writeText (text : String) : List Char :=
  '\"' :: text.toList.flatMap writtenChar ++ ['\"']

end Pipelines.Exchange
