import Pipelines.Exchange.Variant
import Pipelines.Exchange.Written
import Pipelines.Proofs.Exchange.Quotation

namespace Pipelines.Exchange

theorem skipBlank_newLine (depth : Nat) (text : List Char) :
    skipBlank (newLine depth ++ text) = skipBlank text := by
  have blanks : ∀ count, skipBlank (List.replicate count ' ' ++ text) = skipBlank text := by
    intro count
    induction count with
    | zero => rfl
    | succ count ih =>
        rw [List.replicate_succ, List.cons_append, skipBlank_of_isBlank rfl, ih]
  rw [newLine, List.cons_append, skipBlank_of_isBlank rfl, blanks]

namespace Reader

/-- A reader gives a result for a written value, wherever the value stands. -/
structure Reads (reader : Reader α) (written : List Char) (result : Except ReadError α) : Prop where
  opens : ∃ c tail, written = c :: tail ∧ isBlank c = false ∧ c ≠ ']'
  run : ∀ text rest, skipBlank text = written ++ rest → reader.run text = result.map (·, rest)

variable {reader : Reader α} {written : List Char} {result : Except ReadError α}

theorem Reads.skipBlank_eq (reads : Reads reader written result) (text rest : List Char)
    (blank : skipBlank text = skipBlank (written ++ rest)) : skipBlank text = written ++ rest := by
  obtain ⟨c, tail, rfl, token, _⟩ := reads.opens
  exact blank.trans (skipBlank_of_not_isBlank token)

theorem Reads.map (reads : Reads reader written result) (f : α → β) :
    Reads (reader.map f) written (result.map f) := by
  refine ⟨reads.opens, fun text rest found => ?_⟩
  simp only [Reader.map, reads.run text rest found]
  cases result <;> rfl

theorem Reads.delay (reads : Reads reader written result) :
    Reads (.delay fun _ => reader) written result :=
  ⟨reads.opens, reads.run⟩

theorem reads_text (value : String) : Reads text (writeText value) (.ok value) := by
  refine ⟨⟨_, _, rfl, rfl, by decide⟩, fun input rest found => ?_⟩
  have read := readText_written value.toList rest
  simp only [writeText, List.cons_append, List.append_assoc, List.nil_append] at found
  simp [text, found, read, bind, Except.bind, pure, Except.pure, Except.map]

theorem firstMember_written (depth : Nat) (key : String) (tail : List Char) :
    firstMember (newLine depth ++ (writeText key ++ tail)) =
      .ok (.another (key.toList.flatMap writtenChar ++ '\"' :: tail)) := by
  rw [firstMember, skipBlank_newLine]
  simp [writeText, skipBlank_of_not_isBlank (c := '\"') rfl]

theorem nextMember_written (depth : Nat) (key : String) (tail : List Char) :
    nextMember (',' :: (newLine depth ++ (writeText key ++ tail))) =
      .ok (.another (key.toList.flatMap writtenChar ++ '\"' :: tail)) := by
  rw [nextMember, skipBlank_of_not_isBlank rfl]
  simp [skipBlank_newLine, writeText, skipBlank_of_not_isBlank (c := '\"') rfl]

theorem nextMember_closed (depth : Nat) (rest : List Char) :
    nextMember (newLine depth ++ '}' :: rest) = .ok (.closed rest) := by
  simp [nextMember, skipBlank_newLine, skipBlank_of_not_isBlank (c := '}') rfl]

theorem skipColon_written (text : List Char) : skipColon (':' :: text) = .ok text := by
  simp [skipColon, skipBlank_of_not_isBlank (c := ':') rfl]

theorem member_written {field : Member σ} {state : σ} {key : String} {value : Reader σ}
    {written : List Char} {result : Except ReadError σ} (known : field state key = .ok value)
    (reads : Reads value written result) (rest : List Char) :
    member field state
        (key.toList.flatMap writtenChar ++ '\"' :: ':' :: ' ' :: (written ++ rest)) =
      result.map (·, rest) := by
  have found := reads.skipBlank_eq (' ' :: (written ++ rest)) rest (skipBlank_of_isBlank rfl)
  have keyRead := readText_written key.toList (':' :: ' ' :: (written ++ rest))
  simp [member, keyRead, known, skipColon_written, reads.run _ _ found, bind, Except.bind]

theorem moreMembers_closed (field : Member σ) (state : σ) (depth : Nat) (rest : List Char) :
    moreMembers field state (newLine depth ++ '}' :: rest) = .ok (state, rest) := by
  rw [moreMembers_eq, nextMember_closed]
  rfl

section

variable {field : Member σ} {start : σ} {finish : σ → Except ReadError α} {key : String}
  {value : Reader σ} {given : Except ReadError σ}

theorem members_one (known : field start key = .ok value) (reads : Reads value written given)
    (depth : Nat) (rest : List Char) :
    (members field start finish).run (newLine (depth + 1) ++ (writeText key ++
        (':' :: ' ' :: (written ++ (newLine depth ++ '}' :: rest))))) =
      (given >>= finish).map (·, rest) := by
  have read := member_written known reads (newLine depth ++ '}' :: rest)
  simp only [members, firstMember_written]
  cases given with
  | error cause => simp [bind, Except.bind, membersFrom, read, Except.map]
  | ok state =>
      cases made : finish state <;>
        simp [bind, Except.bind, membersFrom, read, Except.map, moreMembers_closed, made, pure,
          Except.pure]

theorem members_two {otherKey : String} {other : List Char} {next : σ → Reader σ}
    {following : σ → Except ReadError σ} (known : field start key = .ok value)
    (reads : Reads value written given)
    (knownNext : ∀ state, given = .ok state → field state otherKey = .ok (next state))
    (readsNext : ∀ state, Reads (next state) other (following state)) (depth : Nat)
    (rest : List Char) :
    (members field start finish).run (newLine (depth + 1) ++ (writeText key ++
        (':' :: ' ' :: (written ++ (',' :: (newLine (depth + 1) ++ (writeText otherKey ++
          (':' :: ' ' :: (other ++ (newLine depth ++ '}' :: rest)))))))))) =
      (given >>= following >>= finish).map (·, rest) := by
  have read := member_written known reads (',' :: (newLine (depth + 1) ++ (writeText otherKey ++
    (':' :: ' ' :: (other ++ (newLine depth ++ '}' :: rest))))))
  simp only [members, firstMember_written]
  cases given with
  | error cause => simp [bind, Except.bind, membersFrom, read, Except.map]
  | ok state =>
      have readNext := member_written (knownNext state rfl) (readsNext state)
        (newLine depth ++ '}' :: rest)
      cases more : following state with
      | error cause =>
          simp [bind, Except.bind, membersFrom, read, Except.map, moreMembers_eq,
            nextMember_written, readNext, more]
      | ok last =>
          cases made : finish last <;>
            simp [bind, Except.bind, membersFrom, read, Except.map, moreMembers_eq field state,
              nextMember_written, readNext, more, moreMembers_closed, made, pure, Except.pure]

end

theorem object1_written {first : Field α} (reads : Reads first.value written result) (depth : Nat)
    (rest : List Char) :
    (object1 first).run (newLine (depth + 1) ++ (writeText first.name ++
        (':' :: ' ' :: (written ++ (newLine depth ++ '}' :: rest))))) =
      result.map (·, rest) := by
  have required : (result.map some >>= first.require) = result := by
    cases result <;> rfl
  rw [object1]
  refine (members_one ?known (reads.map some) depth rest).trans (by rw [required])
  simp only [if_true]
  rfl

theorem object2_written {first : Field α} {second : Field β} {other : List Char}
    {otherResult : Except ReadError β} (different : second.name ≠ first.name)
    (reads : Reads first.value written result) (readsOther : Reads second.value other otherResult)
    (depth : Nat) (rest : List Char) :
    (object2 first second).run (newLine (depth + 1) ++ (writeText first.name ++
        (':' :: ' ' :: (written ++ (',' :: (newLine (depth + 1) ++ (writeText second.name ++
          (':' :: ' ' :: (other ++ (newLine depth ++ '}' :: rest)))))))))) =
      (do
        let value ← result
        let other ← otherResult
        return (value, other)).map (·, rest) := by
  rw [object2]
  refine (members_two ?known (reads.map fun value => (some value, none)) ?knownNext
    (fun state => readsOther.map fun other => (state.1, some other)) depth rest).trans ?_
  case known =>
    simp only [if_true]
    rfl
  case knownNext =>
    intro state given
    cases result <;> cases given
    simp only [different, if_false, if_true]
    rfl
  · cases result with
    | error cause => rfl
    | ok value => cases otherResult <;> rfl

theorem writeObject_one (depth : Nat) (key : String) (value rest : List Char) :
    writeObject depth [(key, value)] ++ rest =
      '{' :: (newLine (depth + 1) ++ (writeText key ++
        (':' :: ' ' :: (value ++ (newLine depth ++ '}' :: rest))))) := by
  simp [writeObject, writeLines]

theorem writeObject_two (depth : Nat) (key otherKey : String) (value other rest : List Char) :
    writeObject depth [(key, value), (otherKey, other)] ++ rest =
      '{' :: (newLine (depth + 1) ++ (writeText key ++
        (':' :: ' ' :: (value ++ (',' :: (newLine (depth + 1) ++ (writeText otherKey ++
          (':' :: ' ' :: (other ++ (newLine depth ++ '}' :: rest)))))))))) := by
  simp [writeObject, writeLines]

theorem opens_writeObject (depth : Nat) (members : List (String × List Char)) :
    ∃ tail, writeObject depth members = '{' :: tail := by
  cases members <;> exact ⟨_, rfl⟩

theorem reads_record_none {name : String} (depth : Nat) (members : List (String × List Char)) :
    Reads (record (α := α) name none) (writeObject depth members) (.error .tooDeep) := by
  obtain ⟨tail, opened⟩ := opens_writeObject depth members
  rw [opened]
  refine ⟨⟨_, _, rfl, rfl, by decide⟩, fun text rest found => ?_⟩
  simp [record, found, Except.map]

theorem reads_record1 {name : String} {first : Field α} (depth : Nat)
    (reads : Reads first.value written result) :
    Reads (record1 name (some first)) (writeObject depth [(first.name, written)]) result := by
  refine ⟨⟨_, _, rfl, rfl, by decide⟩, fun text rest found => ?_⟩
  rw [writeObject_one] at found
  simp [record1, record, found, object1_written reads]

theorem reads_record2 {name : String} {first : Field α} {second : Field β} {other : List Char}
    {otherResult : Except ReadError β} (depth : Nat) (different : second.name ≠ first.name)
    (reads : Reads first.value written result)
    (readsOther : Reads second.value other otherResult) :
    Reads (record2 name (some (first, second)))
      (writeObject depth [(first.name, written), (second.name, other)])
      (do
        let value ← result
        let other ← otherResult
        return (value, other)) := by
  refine ⟨⟨_, _, rfl, rfl, by decide⟩, fun text rest found => ?_⟩
  rw [writeObject_two] at found
  simp [record2, record, found, object2_written different reads readsOther]

theorem readVariant_written {known : List (String × ν)} {name : String} {form : ν}
    (listed : known.lookup name = some form) (rest : List Char) :
    readVariant known (name.toList.flatMap writtenChar ++ '\"' :: rest) = .ok (form, rest) := by
  simp [readVariant, readText_written, bind, Except.bind, listed, pure, Except.pure]

theorem reads_bare {known : List (String × ν)} {bare : ν → Except ReadError α}
    {contents : Option (ν → Reader α)} {name : String} {form : ν} {value : α}
    (listed : known.lookup name = some form) (accepted : bare form = .ok value) :
    Reads (variant known bare contents) (writeText name) (.ok value) := by
  refine ⟨⟨_, _, rfl, rfl, by decide⟩, fun text rest found => ?_⟩
  have read := readVariant_written listed rest
  simp only [writeText, List.cons_append, List.append_assoc, List.nil_append] at found
  simp [variant, found, read, accepted, bind, Except.bind, pure, Except.pure, Except.map]

theorem reads_variant_none {known : List (String × ν)} {bare : ν → Except ReadError α}
    (depth : Nat) (members : List (String × List Char)) :
    Reads (variant known bare none) (writeObject depth members) (.error .tooDeep) := by
  obtain ⟨tail, opened⟩ := opens_writeObject depth members
  rw [opened]
  refine ⟨⟨_, _, rfl, rfl, by decide⟩, fun text rest found => ?_⟩
  simp [variant, found, Except.map]

theorem reads_variant {known : List (String × ν)} {bare : ν → Except ReadError α}
    {contents : ν → Reader α} {name : String} {form : ν} (depth : Nat)
    (listed : known.lookup name = some form) (reads : Reads (contents form) written result) :
    Reads (variant known bare (some contents)) (writeObject depth [(name, written)]) result := by
  refine ⟨⟨_, _, rfl, rfl, by decide⟩, fun text rest found => ?_⟩
  rw [writeObject_one] at found
  have named := readVariant_written listed
    (':' :: ' ' :: (written ++ (newLine depth ++ '}' :: rest)))
  have read := reads.run _ _ (reads.skipBlank_eq
    (' ' :: (written ++ (newLine depth ++ '}' :: rest))) _ (skipBlank_of_isBlank rfl))
  have ended : endVariant (newLine depth ++ '}' :: rest) = .ok rest := by
    simp [endVariant, skipBlank_newLine, skipBlank_of_not_isBlank (c := '}') rfl]
  cases result <;>
    simp [variant, found, firstMember_written, variantMember, named, skipColon_written, read, ended, bind,
      Except.bind, pure, Except.pure, Except.map]

theorem writeList_cons (depth : Nat) (first : List Char) (others : List (List Char))
    (rest : List Char) :
    writeList depth (first :: others) ++ rest =
      '[' :: (newLine (depth + 1) ++ (first ++ (others.flatMap (fun other =>
        ',' :: newLine (depth + 1) ++ other) ++ (newLine depth ++ ']' :: rest)))) := by
  simp [writeList, writeLines]

theorem reads_list_none (depth : Nat) (elements : List (List Char)) :
    Reads (list (none : Option (Reader α))) (writeList depth elements) (.error .tooDeep) := by
  have opened : ∃ tail, writeList depth elements = '[' :: tail := by
    cases elements <;> exact ⟨_, rfl⟩
  obtain ⟨tail, opened⟩ := opened
  rw [opened]
  refine ⟨⟨_, _, rfl, rfl, by decide⟩, fun text rest found => ?_⟩
  simp [list, found, Except.map]

section

variable {element : Reader α} {write : β → List Char} {f : β → Except ReadError α}

theorem firstElement_written (reads : Reads element written result) (depth : Nat)
    (tail : List Char) :
    firstElement (newLine depth ++ (written ++ tail)) = .ok (.another (written ++ tail)) := by
  obtain ⟨c, behind, rfl, token, notClosing⟩ := reads.opens
  rw [firstElement, skipBlank_newLine, List.cons_append, skipBlank_of_not_isBlank token]
  simp [notClosing]

theorem nextElement_written (reads : Reads element written result) (depth : Nat)
    (tail : List Char) :
    nextElement (',' :: (newLine depth ++ (written ++ tail))) = .ok (.another (written ++ tail)) := by
  obtain ⟨c, behind, rfl, token, notClosing⟩ := reads.opens
  rw [nextElement, skipBlank_of_not_isBlank rfl]
  simp [skipBlank_newLine, skipBlank_of_not_isBlank token, notClosing]

theorem nextElement_closed (depth : Nat) (rest : List Char) :
    nextElement (newLine depth ++ ']' :: rest) = .ok (.closed rest) := by
  simp [nextElement, skipBlank_newLine, skipBlank_of_not_isBlank (c := ']') rfl]

theorem elementsFrom_written (reads : Reads element written result)
    {others : Except ReadError (List α)} {tail rest : List Char}
    (following : element.moreElements tail = others.map (·, rest)) :
    element.elementsFrom (.another (written ++ tail)) =
      (do
        let value ← result
        let values ← others
        return (value :: values)).map (·, rest) := by
  have read := reads.run _ _ (reads.skipBlank_eq _ tail rfl)
  rw [elementsFrom, read]
  cases result with
  | error cause => rfl
  | ok value => cases others <;> simp [bind, Except.bind, Except.map, following, pure, Except.pure]

theorem moreElements_written (depth : Nat) {values : List β}
    (each : ∀ value ∈ values, Reads element (write value) (f value)) (rest : List Char) :
    element.moreElements ((values.map write).flatMap (fun other =>
        ',' :: newLine (depth + 1) ++ other) ++ (newLine depth ++ ']' :: rest)) =
      (values.mapM f).map (·, rest) := by
  induction values with
  | nil =>
      rw [List.map_nil, List.flatMap_nil, List.nil_append, moreElements_eq, nextElement_closed]
      rfl
  | cons value values ih =>
      obtain ⟨reads, others⟩ := List.forall_mem_cons.mp each
      rw [List.map_cons, List.flatMap_cons, List.append_assoc, List.cons_append, List.cons_append,
        List.append_assoc, moreElements_eq, nextElement_written reads, List.mapM_cons]
      exact elementsFrom_written reads (ih others)

/-- The elements of a list are read one after the other, up to the first fault. -/
theorem reads_list (depth : Nat) {values : List β}
    (each : ∀ value ∈ values, Reads element (write value) (f value)) :
    Reads (list (some element)) (writeList depth (values.map write)) (values.mapM f) := by
  cases values with
  | nil =>
      refine ⟨⟨_, _, rfl, rfl, by decide⟩, fun text rest found => ?_⟩
      simp only [List.map_nil, writeList, writeLines, List.cons_append, List.nil_append] at found
      have closed : firstElement (']' :: rest) = .ok (.closed rest) := by
        simp [firstElement, skipBlank_of_not_isBlank (c := ']') rfl]
      simp only [list, found, closed]
      rfl
  | cons value values =>
      obtain ⟨reads, others⟩ := List.forall_mem_cons.mp each
      refine ⟨⟨_, _, rfl, rfl, by decide⟩, fun text rest found => ?_⟩
      rw [List.map_cons, writeList_cons] at found
      simp only [list, found, firstElement_written reads]
      rw [List.mapM_cons]
      exact elementsFrom_written reads (moreElements_written depth others rest)

end

end Reader

end Pipelines.Exchange
