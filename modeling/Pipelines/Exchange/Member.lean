import Pipelines.Exchange.Sequence

namespace Pipelines.Exchange

/-- What comes after the opening bracket of an object. Another member starts after the quote that
opens its key. -/
def firstMember (text : List Char) : Except ReadError Next :=
  match skipBlank text with
  | [] => .error .endOfObject
  | '}' :: rest => .ok (.closed rest)
  | '\"' :: rest => .ok (.another rest)
  | _ => .error .keyNotText

def nextMember (text : List Char) : Except ReadError Next :=
  match skipBlank text with
  | [] => .error .endOfObject
  | '}' :: rest => .ok (.closed rest)
  | ',' :: rest =>
      match skipBlank rest with
      | [] => .error .endOfValue
      | '}' :: _ => .error .trailingComma
      | '\"' :: rest => .ok (.another rest)
      | _ => .error .keyNotText
  | _ => .error .expectedCommaOrBrace

theorem length_firstMember {text : List Char} {next : Next}
    (found : firstMember text = .ok next) : next.rest.length < text.length := by
  have trimmed := length_skipBlank_le text
  unfold firstMember at found
  split at found
  · cases found
  · rename_i token
    cases found
    simp only [token, List.length_cons] at trimmed
    simp only [Next.rest]
    omega
  · rename_i token
    cases found
    simp only [token, List.length_cons] at trimmed
    simp only [Next.rest]
    omega
  · cases found

theorem length_nextMember {text : List Char} {next : Next}
    (found : nextMember text = .ok next) : next.rest.length < text.length := by
  have trimmed := length_skipBlank_le text
  unfold nextMember at found
  split at found
  · cases found
  · rename_i token
    cases found
    simp only [token, List.length_cons] at trimmed
    simp only [Next.rest]
    omega
  · rename_i rest token
    have trimmedAgain := length_skipBlank_le rest
    simp only [token, List.length_cons] at trimmed
    split at found
    · cases found
    · cases found
    · rename_i tokenAgain
      cases found
      simp only [tokenAgain, List.length_cons] at trimmedAgain
      simp only [Next.rest]
      omega
    · cases found
  · cases found

namespace Reader

/-- How the member with a given key is read, when `σ` is what the members before it gave: a reader
for its value, or a fault of the key itself. -/
abbrev Member (σ : Type) := σ → String → Except ReadError (Reader σ)

/-- Reads a member, after the quote that opens its key. -/
def member (field : Member σ) (state : σ) (text : List Char) :
    Except ReadError (σ × List Char) := do
  let (key, rest) ← readText text
  let value ← field state (.ofList key)
  let rest ← skipColon rest
  value.run rest

theorem length_member {field : Member σ} {state result : σ} {text rest : List Char}
    (read : member field state text = .ok (result, rest)) : rest.length < text.length := by
  obtain ⟨⟨key, afterKey⟩, keyRead, atKey⟩ := bind_eq_ok.mp read
  obtain ⟨value, known, atColon⟩ := bind_eq_ok.mp atKey
  obtain ⟨afterColon, colonRead, valueRead⟩ := bind_eq_ok.mp atColon
  have keyShorter := length_readText keyRead
  have colonShorter := length_skipColon colonRead
  have valueShorter := value.progress valueRead
  omega

def moreMembers (field : Member σ) (state : σ) (text : List Char) :
    Except ReadError (σ × List Char) :=
  match _next : nextMember text with
  | .error cause => .error cause
  | .ok (.closed rest) => .ok (state, rest)
  | .ok (.another start) =>
      match _read : member field state start with
      | .error cause => .error cause
      | .ok (state, rest) => moreMembers field state rest
termination_by text.length
decreasing_by
  have started := length_nextMember _next
  have shorter := length_member _read
  simp only [Next.rest] at started
  omega

def membersFrom (field : Member σ) (state : σ) : Next → Except ReadError (σ × List Char)
  | .closed rest => .ok (state, rest)
  | .another start => do
      let (state, rest) ← member field state start
      moreMembers field state rest

theorem moreMembers_eq (field : Member σ) (state : σ) (text : List Char) :
    moreMembers field state text = nextMember text >>= membersFrom field state := by
  rw [moreMembers]
  split
  next cause failed => rw [failed]; rfl
  next rest closed => rw [closed]; rfl
  next start another =>
    rw [another]
    split
    next cause failed => simp only [bind, Except.bind, membersFrom, failed]
    next following rest found => simp only [bind, Except.bind, membersFrom, found]

theorem length_moreMembers {field : Member σ} {state result : σ} {text rest : List Char}
    (read : moreMembers field state text = .ok (result, rest)) : rest.length < text.length := by
  fun_induction moreMembers field state text with
  | case1 => cases read
  | case2 state text after next =>
      cases read
      exact length_nextMember next
  | case3 => cases read
  | case4 state text start next following after first ih =>
      have started := length_nextMember next
      have shorter := length_member first
      have shorterStill := ih read
      simp only [Next.rest] at started
      omega

theorem length_membersFrom_le {field : Member σ} {state result : σ} {next : Next}
    {rest : List Char} (read : membersFrom field state next = .ok (result, rest)) :
    rest.length ≤ next.rest.length := by
  cases next with
  | closed after => cases read; exact Nat.le_refl _
  | another start =>
      obtain ⟨⟨following, after⟩, first, others⟩ := bind_eq_ok.mp read
      have shorter := length_member first
      have shorterStill := length_moreMembers others
      simp only [Next.rest]
      omega

/-- Reads the members of an object, after its opening bracket, and makes a value of what they
give. -/
def members (field : Member σ) (start : σ) (finish : σ → Except ReadError α) : Reader α where
  run text := do
    let (state, rest) ← membersFrom field start (← firstMember text)
    let value ← finish state
    return (value, rest)
  progress read := by
    obtain ⟨next, first, continued⟩ := bind_eq_ok.mp read
    obtain ⟨⟨state, rest⟩, membersRead, finished⟩ := bind_eq_ok.mp continued
    obtain ⟨value, made, built⟩ := bind_eq_ok.mp finished
    cases built
    have started := length_firstMember first
    have shorter := length_membersFrom_le membersRead
    omega

end Reader

end Pipelines.Exchange
