import Literate.Proofs.Json.Quoted

/-!
# Values are read back

A value made of texts, nulls and objects is read back from the line it is written on, whatever
follows it, and no line feed stands in that line. Reading descends no deeper than the line is long:
every level of a value has brackets of its own.
-/

namespace Literate.Json

/-- Null, a text, or an object of such values under texts. -/
inductive Plain : Json → Prop
  | null : Plain null
  | text (t : Text) : Plain (ofText t)
  | object {ms : List (Text × Json)} (keys : ∀ m ∈ ms, ∃ t, m.1 = Quoted.escape t)
      (values : ∀ m ∈ ms, Plain m.2) : Plain (object ms)

/-- A value is read from its line whatever follows it, once the descent may be as deep as the line
is long. -/
def Readable (v : Json) : Prop :=
  ∀ (depth : Nat) (rest : Text), v.write.length ≤ depth →
    readValue? depth (v.write ++ rest) = some (v, rest)

private theorem skipSpace_cons {c : Char} (h : isSpace c = false) (t : Text) :
    skipSpace (c :: t) = c :: t := by
  simp [skipSpace, h]

private theorem readable_null : Readable null := by
  intro depth rest hdepth
  obtain ⟨depth, rfl⟩ : ∃ d, depth = d + 1 := ⟨depth - 1, by simp [write] at hdepth; omega⟩
  rfl

/-- A text that is written is read back before whatever follows. -/
theorem readable_ofText (t : Text) : Readable (ofText t) := by
  intro depth rest hdepth
  obtain ⟨depth, rfl⟩ : ∃ d, depth = d + 1 :=
    ⟨depth - 1, by simp [ofText, write, quoted] at hdepth; omega⟩
  have hread := readString?_escape t rest
  simp [ofText, write, quoted, readValue?, skipSpace_cons, isSpace, hread]

/-- A key is read up to the colon after it. -/
theorem readKey?_quoted (t rest : Text) :
    readKey? (quoted (Quoted.escape t) ++ ':' :: rest) = some (Quoted.escape t, rest) := by
  have hread := readString?_escape t (':' :: rest)
  simp [readKey?, quoted, skipSpace_cons, isSpace, hread]

section Members

variable {t : Text} {v : Json} {depth : Nat}

/-- The member before a closing bracket is the last one. -/
theorem readMembers?_last (hv : Readable v) (hdepth : v.write.length ≤ depth) (rest : Text) :
    readMembers? (depth + 1) (quoted (Quoted.escape t) ++ ':' :: v.write ++ '}' :: rest) =
      some ([(Quoted.escape t, v)], rest) := by
  have hkey := readKey?_quoted t (v.write ++ '}' :: rest)
  have hvalue := hv depth ('}' :: rest) hdepth
  have hspace := skipSpace_cons (show isSpace '}' = false by decide) rest
  rw [List.append_assoc, List.cons_append]
  simp [readMembers?, hkey, hvalue, hspace]

/-- After the member before a comma come the others. -/
theorem readMembers?_further (hv : Readable v) (hdepth : v.write.length ≤ depth) (rest : Text) :
    readMembers? (depth + 1) (quoted (Quoted.escape t) ++ ':' :: v.write ++ ',' :: rest) =
      (readMembers? depth rest).map fun r => ((Quoted.escape t, v) :: r.1, r.2) := by
  have hkey := readKey?_quoted t (v.write ++ ',' :: rest)
  have hvalue := hv depth (',' :: rest) hdepth
  have hspace := skipSpace_cons (show isSpace ',' = false by decide) rest
  rw [List.append_assoc, List.cons_append]
  simp only [readMembers?, hkey, hvalue, hspace, Option.bind_eq_bind, Option.bind_some,
    Option.pure_def]
  cases readMembers? depth rest with
  | none => rfl
  | some r => rfl

end Members

variable {ms : List (Text × Json)}

private theorem writeMembers_singleton (m : Text × Json) :
    List.intercalate [','] (writeMembers [m]) = quoted m.1 ++ ':' :: m.2.write := by
  rw [writeMembers, writeMembers, List.intercalate_singleton]

/-- The first of several members is written before a comma and the others. -/
theorem writeMembers_cons_cons (m m' : Text × Json) (ms : List (Text × Json)) :
    List.intercalate [','] (writeMembers (m :: m' :: ms)) =
      quoted m.1 ++ ':' :: m.2.write ++
        ',' :: List.intercalate [','] (writeMembers (m' :: ms)) := by
  simp only [writeMembers, List.intercalate_cons_cons, List.append_assoc, List.cons_append,
    List.nil_append]

/-- The members of an object are read up to its closing bracket. -/
theorem readMembers?_writeMembers (hne : ms ≠ [])
    (keys : ∀ m ∈ ms, ∃ t, m.1 = Quoted.escape t) (values : ∀ m ∈ ms, Readable m.2)
    (depth : Nat) (rest : Text)
    (hdepth : (List.intercalate [','] (writeMembers ms)).length ≤ depth) :
    readMembers? depth (List.intercalate [','] (writeMembers ms) ++ '}' :: rest) =
      some (ms, rest) := by
  induction ms generalizing depth with
  | nil => exact absurd rfl hne
  | cons m ms ih =>
    obtain ⟨key, v⟩ := m
    obtain ⟨t, rfl⟩ : ∃ t, key = Quoted.escape t := keys _ List.mem_cons_self
    have hv : Readable v := values _ List.mem_cons_self
    have hlength : (quoted (Quoted.escape t) ++ ':' :: v.write).length =
        v.write.length + (quoted (Quoted.escape t)).length + 1 := by
      simp only [List.length_append, List.length_cons]
      omega
    cases ms with
    | nil =>
      rw [writeMembers_singleton] at hdepth ⊢
      rw [hlength] at hdepth
      obtain ⟨depth, rfl⟩ : ∃ d, depth = d + 1 := ⟨depth - 1, by omega⟩
      exact readMembers?_last hv (by omega) rest
    | cons m' ms =>
      rw [writeMembers_cons_cons] at hdepth ⊢
      rw [List.length_append, hlength, List.length_cons] at hdepth
      obtain ⟨depth, rfl⟩ : ∃ d, depth = d + 1 := ⟨depth - 1, by omega⟩
      have hothers := ih (by simp) (fun m hm => keys m (List.mem_cons_of_mem _ hm))
        (fun m hm => values m (List.mem_cons_of_mem _ hm)) depth (by omega)
      rw [List.append_assoc, List.cons_append, readMembers?_further hv (by omega), hothers,
        Option.map_some]

/-- Where there are members, their text begins with the quotation mark of the first key. -/
theorem writeMembers_quote (m : Text × Json) (ms : List (Text × Json)) :
    ∃ body, List.intercalate [','] (writeMembers (m :: ms)) = '"' :: body := by
  cases ms with
  | nil => exact ⟨_, writeMembers_singleton m⟩
  | cons m' ms => exact ⟨_, writeMembers_cons_cons m m' ms⟩

/-- An object is read back if its values are. -/
theorem readable_object (keys : ∀ m ∈ ms, ∃ t, m.1 = Quoted.escape t)
    (values : ∀ m ∈ ms, Readable m.2) : Readable (object ms) := by
  intro depth rest hdepth
  simp only [write, List.length_append, List.length_cons, List.length_nil] at hdepth
  obtain ⟨depth, rfl⟩ : ∃ d, depth = d + 1 := ⟨depth - 1, by omega⟩
  cases ms with
  | nil => simp [write, writeMembers, readValue?, skipSpace, isSpace]
  | cons m ms =>
    have hread := readMembers?_writeMembers (by simp) keys values depth rest (by omega)
    obtain ⟨body, hbody⟩ := writeMembers_quote m ms
    rw [hbody, List.cons_append] at hread
    have hspace := skipSpace_cons (show isSpace '"' = false by decide) (body ++ '}' :: rest)
    simp [write, hbody, readValue?, skipSpace_cons, isSpace, hspace, hread]

/-- Every value made of texts, nulls and objects is read back. -/
theorem Plain.readable {v : Json} (h : Plain v) : Readable v := by
  induction h with
  | null => exact readable_null
  | text t => exact readable_ofText t
  | object keys _ ih => exact readable_object keys ih

/-- The line of a value holds that value. -/
theorem Plain.parse?_write {v : Json} (h : Plain v) : parse? v.write = some v := by
  have hread := h.readable (2 * v.write.length + 2) [] (by omega)
  rw [List.append_nil] at hread
  simp [parse?, hread, skipSpace]

private theorem newline_notMem_writeMembers (h : ∀ m ∈ ms, '\n' ∉ m.1 ∧ '\n' ∉ m.2.write) :
    '\n' ∉ List.intercalate [','] (writeMembers ms) := by
  induction ms with
  | nil => simp [writeMembers]
  | cons m ms ih =>
    obtain ⟨hkey, hvalue⟩ := h m List.mem_cons_self
    have hothers := ih fun m hm => h m (List.mem_cons_of_mem _ hm)
    have hmember : '\n' ∉ quoted m.1 ++ ':' :: m.2.write := by simp [quoted, hkey, hvalue]
    cases ms with
    | nil =>
      rw [writeMembers_singleton]
      exact hmember
    | cons m' ms =>
      rw [writeMembers_cons_cons, List.mem_append, List.mem_cons]
      rintro (h | h | h)
      · exact hmember h
      · exact absurd h (by decide)
      · exact hothers h

/-- A value is written on one line. -/
theorem Plain.newline_notMem_write {v : Json} (h : Plain v) : '\n' ∉ v.write := by
  induction h with
  | null => decide
  | text t => simp [ofText, write, quoted, Quoted.newline_notMem_escape]
  | @object ms keys _ ih =>
    have hmembers : '\n' ∉ List.intercalate [','] (writeMembers ms) := by
      refine newline_notMem_writeMembers fun m hm => ⟨?_, ih m hm⟩
      obtain ⟨t, ht⟩ := keys m hm
      rw [ht]
      exact Quoted.newline_notMem_escape t
    simp [write, hmembers]

end Literate.Json
