import Pipelines.Exchange.Record

namespace Pipelines.Exchange

def readVariant (known : List (String × ν)) (text : List Char) :
    Except ReadError (ν × List Char) := do
  let (name, rest) ← readText text
  match known.lookup (.ofList name) with
  | some variant => return (variant, rest)
  | none => throw (.unknownVariant (.ofList name) (known.map Prod.fst))

theorem length_readVariant {known : List (String × ν)} {text rest : List Char} {variant : ν}
    (read : readVariant known text = .ok (variant, rest)) : rest.length < text.length := by
  obtain ⟨⟨name, after⟩, nameRead, found⟩ := bind_eq_ok.mp read
  have shorter := length_readText nameRead
  dsimp only at found
  split at found
  · cases found; exact shorter
  · cases found

def endVariant (text : List Char) : Except ReadError (List Char) :=
  match skipBlank text with
  | [] => .error .endOfObject
  | '}' :: rest => .ok rest
  | _ => .error .expectedValue

theorem length_endVariant {text rest : List Char} (ended : endVariant text = .ok rest) :
    rest.length < text.length := by
  have trimmed := length_skipBlank_le text
  unfold endVariant at ended
  split at ended
  · cases ended
  · rename_i token
    cases ended
    simp only [token, List.length_cons] at trimmed
    omega
  · cases ended

namespace Reader

/-- Reads the single member of an object as a variant, from what comes after the opening bracket
on. -/
def variantMember (known : List (String × ν)) (contents : ν → Reader α) :
    Next → Except ReadError (α × List Char)
  | .closed _ => .error .expectedValue
  | .another start => do
      let (variant, rest) ← readVariant known start
      let rest ← skipColon rest
      let (value, rest) ← (contents variant).run rest
      let rest ← endVariant rest
      return (value, rest)

theorem length_variantMember {known : List (String × ν)} {contents : ν → Reader α} {next : Next}
    {value : α} {rest : List Char} (read : variantMember known contents next = .ok (value, rest)) :
    rest.length < next.rest.length := by
  cases next with
  | closed after => cases read
  | another start =>
      obtain ⟨⟨variant, afterName⟩, nameRead, atColon⟩ := bind_eq_ok.mp read
      obtain ⟨afterColon, colonRead, atValue⟩ := bind_eq_ok.mp atColon
      obtain ⟨⟨value, afterValue⟩, valueRead, atEnd⟩ := bind_eq_ok.mp atValue
      obtain ⟨last, ended, built⟩ := bind_eq_ok.mp atEnd
      cases built
      have nameShorter := length_readVariant nameRead
      have colonShorter := length_skipColon colonRead
      have valueShorter := (contents variant).progress valueRead
      have endShorter := length_endVariant ended
      simp only [Next.rest]
      omega

/-- Reads one of the known variants. Without readers for their contents no further bracket may be
opened. -/
def variant (known : List (String × ν)) (bare : ν → Except ReadError α)
    (contents : Option (ν → Reader α)) : Reader α where
  run text :=
    match skipBlank text, contents with
    | [], _ => .error .endOfValue
    | '\"' :: rest, _ => do
        let (variant, rest) ← readVariant known rest
        let value ← bare variant
        return (value, rest)
    | '{' :: _, none => .error .tooDeep
    | '{' :: rest, some contents => do variantMember known contents (← firstMember rest)
    | _, _ => .error .expectedValue
  progress {text _ _} read := by
    have trimmed := length_skipBlank_le text
    split at read
    · cases read
    · rename_i token
      obtain ⟨⟨variant, after⟩, nameRead, atValue⟩ := bind_eq_ok.mp read
      obtain ⟨value, accepted, built⟩ := bind_eq_ok.mp atValue
      cases built
      have shorter := length_readVariant nameRead
      simp only [token, List.length_cons] at trimmed
      omega
    · cases read
    · rename_i token
      obtain ⟨next, found, member⟩ := bind_eq_ok.mp read
      have started := length_firstMember found
      have shorter := length_variantMember member
      simp only [token, List.length_cons] at trimmed
      omega
    · cases read

end Reader

end Pipelines.Exchange
