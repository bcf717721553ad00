import Literate.Proofs.Wire.Framing

/-!
# Reading goes on after errors

Whatever a line holds, reading takes this line from the data and no more. So the data comes to an
end after as many results as it has lines, and what is read of data that ends where a line does is
not changed by the data after it.
-/

namespace Literate.Frame

section

variable {α : Type} [Message α] {data rest a b : Bytes} {r : Except ChannelError α}
  {rs ra rb : List (Except ChannelError α)}

/-- Reading one message after another, and going on after errors, gives some results, and then the
data ends. -/
inductive Outcomes : Bytes → List (Except ChannelError α) → Prop
  | nil {data : Bytes} (h : next? (α := α) data = none) : Outcomes data []
  | cons {data rest : Bytes} {r : Except ChannelError α} {rs : List (Except ChannelError α)}
      (h : next? data = some (r, rest)) (hrest : Outcomes rest rs) : Outcomes data (r :: rs)

/-- The number of lines of some data: one for each line feed, and one for what stands after the last
of them. -/
def lineCount (data : Bytes) : Nat :=
  data.count 0x0A + if data = [] ∨ data.getLast? = some 0x0A then 0 else 1

private theorem next?_of_split_nil (h : split data = []) : next? (α := α) data = none := by
  rw [next?, h]

/-- Reading comes to the end of the data, with a result for each of its lines. -/
theorem outcomes_of_split {lines : List Bytes} (h : split data = lines) :
    Outcomes data (lines.map (read (α := α))) := by
  induction lines generalizing data with
  | nil => exact .nil (next?_of_split_nil h)
  | cons line lines ih => exact .cons (next?_of_split h) (ih (split_flatten_of_split [line] h))

/-- What reading comes to is what is read from all of the data. -/
theorem outcomes_iff : Outcomes data rs ↔ rs = readAll data := by
  constructor
  · intro h
    induction h with
    | nil h => rw [readAll_eq, h]
    | cons h hrest ih => rw [readAll_eq, h, ih]
  · rintro rfl
    exact outcomes_of_split rfl

/-- What is read is the first line of the data, and the lines after it stay. -/
theorem exists_line_of_next? (h : next? data = some (r, rest)) :
    ∃ line lines, Lines data (line :: lines) ∧ r = read line ∧ Lines rest lines := by
  cases hsplit : split data with
  | nil => cases (next?_of_split_nil hsplit).symm.trans h
  | cons line lines =>
    rw [next?_of_split hsplit] at h
    obtain ⟨rfl, rfl⟩ := Prod.mk.inj (Option.some.inj h)
    exact ⟨line, lines, lines_iff.mpr hsplit, rfl,
      lines_iff.mpr (split_flatten_of_split [line] hsplit)⟩

/-- Data that ends where a line does is read without regard to what follows it. -/
theorem readAll_append_of_ended (h : a = [] ∨ a.getLast? = some 0x0A) (b : Bytes) :
    readAll (α := α) (a ++ b) = readAll a ++ readAll b := by
  rw [readAll, split, cutAfter_append h, List.map_append, readAll, readAll, split, split]

/-- Data with a line feed in it has the lines up to there and those after it. -/
theorem lineCount_ended {line : Bytes} (h : 0x0A ∉ line) (rest : Bytes) :
    lineCount (line ++ 0x0A :: rest) = lineCount rest + 1 := by
  have hlast : (line ++ 0x0A :: rest).getLast? = some 0x0A ↔
      rest = [] ∨ rest.getLast? = some 0x0A := by
    cases rest with
    | nil => simp
    | cons b rest => simp [List.getLast?_append, List.getLast?_cons_cons]
  simp only [lineCount, hlast, List.count_append, List.count_cons_self,
    List.count_eq_zero_of_not_mem h, List.append_eq_nil_iff, List.cons_ne_nil, and_false, false_or]
  omega

/-- Data is cut into as many lines as are counted. -/
theorem Lines.length_eq {lines : List Bytes} (h : Lines data lines) :
    lines.length = lineCount data := by
  induction h with
  | nil => rfl
  | @unended line hne h =>
    have hlast : line.getLast? ≠ some 0x0A := fun hmem => h (List.mem_of_getLast? hmem)
    simp [lineCount, hne, hlast, List.count_eq_zero_of_not_mem h]
  | @ended line rest lines h hrest ih => rw [lineCount_ended h, List.length_cons, ih]

end

/-- Reading goes on after errors: it always comes to the end of the data, in one way; each step
reads one line, whatever it holds; data that ends where a line does and other data after it give the
results of the first and then those of the second; and there are as many results as lines. -/
structure Resumes (α : Type) [Message α] : Prop where
  total (data : Bytes) : ∃! rs, Outcomes (α := α) data rs
  step {data rest : Bytes} {r : Except ChannelError α} (h : next? data = some (r, rest)) :
    ∃ line lines, Lines data (line :: lines) ∧ r = read line ∧ Lines rest lines
  append {a b : Bytes} {ra rb : List (Except ChannelError α)}
    (h : a = [] ∨ a.getLast? = some 0x0A) (ha : Outcomes a ra) (hb : Outcomes b rb) :
    Outcomes (a ++ b) (ra ++ rb)
  count {data : Bytes} {rs : List (Except ChannelError α)} (h : Outcomes data rs) :
    rs.length = lineCount data

/-- Reading messages of any kind resumes. -/
theorem resumes_of_message (α : Type) [Message α] : Resumes α where
  total data := ⟨readAll data, outcomes_iff.mpr rfl, fun _ h => outcomes_iff.mp h⟩
  step h := exists_line_of_next? h
  append h ha hb := by
    rw [outcomes_iff] at ha hb ⊢
    rw [ha, hb, readAll_append_of_ended h]
  count h := by
    rw [outcomes_iff.mp h, readAll, List.length_map]
    exact (lines_split _).length_eq

/-- A reader of requests and a reader of responses go on after errors. -/
theorem reading_resumes : Resumes Request ∧ Resumes Response :=
  ⟨resumes_of_message Request, resumes_of_message Response⟩

/-- A character that breaks off at the end of its line, an empty line and one that begins inside a
character are errors of these lines alone: the request after them is read. -/
theorem reading_resumes_broken :
    let broken : Bytes := [0xC3, 0x0A, 0x0A, 0xA9, 0x0A]
    let request : Request := ⟨"1\n".toList⟩
    let invalid := ChannelError.io "stream did not contain valid UTF-8".toList
    broken.getLast? = some 0x0A ∧
      Outcomes (broken ++ write request)
        ([.error invalid, .error .malformed, .error invalid] ++ [.ok request]) ∧
      lineCount (broken ++ write request) = 4 := by
  intro broken request invalid
  have hbroken : Outcomes (α := Request) broken
      [.error invalid, .error .malformed, .error invalid] := by
    rw [outcomes_iff]
    rfl
  have hrequest : Outcomes (write request) [.ok request] := by
    rw [outcomes_iff, readAll, split_write, List.map_singleton, read_write]
  have hended : broken.getLast? = some 0x0A := rfl
  have hall := reading_resumes.1.append (.inr hended) hbroken hrequest
  exact ⟨hended, hall, (reading_resumes.1.count hall).symm⟩

end Literate.Frame
