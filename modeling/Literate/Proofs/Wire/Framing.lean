import Literate.Proofs.Json.RoundTrip
import Literate.Proofs.Text.Lines
import Literate.Proofs.Text.Trim
import Literate.Wire.Message

/-!
# Frames are read back

A message stands on one line: the only line feed of its frame is the last byte. So frames one after
another are cut where they were joined, whatever data follows, and each holds the message it was
written for. Messages that are written are read back one by one, and then the data ends.
-/

namespace Literate

/-- A low byte in the encoding of a character is all of it. -/
theorem Text.toNat_of_mem_utf8EncodeChar {b : UInt8} {c : Char} (hb : b ∈ String.utf8EncodeChar c)
    (hlow : b.toNat < 0x80) : b.toNat = c.toNat := by
  have hv : c.val.toNat = c.toNat := rfl
  have hmod : ∀ n, (UInt8.ofNat n).toNat = n % 256 := fun _ => UInt8.toNat_ofNat'
  simp only [String.utf8EncodeChar, hv] at hb
  -- Every byte of a longer encoding has its highest bit set.
  split at hb
  · rw [List.mem_singleton.mp hb, hmod]
    omega
  split at hb
  · simp only [List.mem_cons, List.not_mem_nil, or_false] at hb
    rcases hb with rfl | rfl <;> rw [hmod] at hlow <;> omega
  split at hb
  · simp only [List.mem_cons, List.not_mem_nil, or_false] at hb
    rcases hb with rfl | rfl | rfl <;> rw [hmod] at hlow <;> omega
  · simp only [List.mem_cons, List.not_mem_nil, or_false] at hb
    rcases hb with rfl | rfl | rfl | rfl <;> rw [hmod] at hlow <;> omega

/-- The bytes of a text hold a line feed only where the text does. -/
theorem Text.newline_notMem_toBytes {t : Text} (h : '\n' ∉ t) : 0x0A ∉ t.toBytes := by
  intro hb
  obtain ⟨c, hc, hb⟩ := List.mem_flatMap.mp hb
  have hnat : c.toNat = '\n'.toNat := (toNat_of_mem_utf8EncodeChar hb (by decide)).symm
  have hnewline : c = '\n' := Char.toNat_inj.mp hnat
  exact h (hnewline ▸ hc)

/-- Messages that are written as plain objects and read back from them. -/
class LawfulMessage (α : Type) [Message α] : Prop where
  plain (a : α) : (Message.toJson a).Plain
  isObject (a : α) : ∃ ms, Message.toJson a = .object ms
  ofJson?_toJson (a : α) : Message.ofJson? (Message.toJson a) = some a

namespace Json

@[simp] theorem text?_ofText (t : Text) : (ofText t).text? = some t := by
  simp [text?, ofText]

/-- The object of some values under their names. -/
def ofMembers (ms : List (String × Json)) : Json :=
  object (ms.map fun m => member m.1 m.2)

private theorem Plain.ofMembers (ms : List (String × Json)) (h : ∀ m ∈ ms, m.2.Plain) :
    (ofMembers ms).Plain := by
  refine .object (fun m hm => ?_) fun m hm => ?_
  · obtain ⟨m', -, rfl⟩ := List.mem_map.mp hm
    exact ⟨_, rfl⟩
  · obtain ⟨m', hm', rfl⟩ := List.mem_map.mp hm
    exact h m' hm'

/-- The values of an object are found under their names. -/
theorem members?_ofMembers (ms : List (String × Json)) :
    members? (ofMembers ms) = some (ms.map fun m => (m.1.toList, m.2)) := by
  rw [ofMembers, members?]
  induction ms with
  | nil => rfl
  | cons m ms ih =>
    rw [List.map_cons, List.mapM_cons, ih]
    simp [member]

/-- The fields of a record are looked up among the names of an object. -/
theorem record?_ofMembers (fields : List Text) (ms : List (String × Json)) :
    record? fields (ofMembers ms) =
      let named := ms.map fun m => (m.1.toList, m.2)
      if fields.all fun f => named.countP (·.1 = f) ≤ 1 then
        some (fields.map fun f => (named.find? (·.1 = f)).map (·.2))
      else none := by
  have hmembers := members?_ofMembers ms
  rw [ofMembers] at hmembers ⊢
  simp only [record?, hmembers, Option.bind_eq_bind, Option.bind_some, Option.pure_def]

end Json

/-- The members of a request on a channel. -/
def Request.members (r : Request) : List (String × Json) :=
  [("code", .ofText r.code)]

private theorem Request.toJson_eq (r : Request) : Message.toJson r = .ofMembers r.members := rfl

instance : LawfulMessage Request where
  plain r := Json.Plain.ofMembers r.members (by simp [Request.members, Json.Plain.text])
  isObject r := ⟨_, rfl⟩
  ofJson?_toJson r := by
    rw [Request.toJson_eq]
    simp [Message.ofJson?, Request.members, Json.record?_ofMembers]

@[simp] theorem FaultKind.ofJson?_ofText_name (k : FaultKind) :
    ofJson? (.ofText k.name) = some k := by
  cases k with
  | value => decide
  | generic => decide

/-- The members of a fault on a channel. -/
def Fault.members (f : Fault) : List (String × Json) :=
  [("kind", .ofText f.kind.name), ("message", .ofText f.message)]

private theorem Fault.toJson_eq (f : Fault) : Message.toJson f = .ofMembers f.members := rfl

instance : LawfulMessage Fault where
  plain f := Json.Plain.ofMembers f.members (by simp [Fault.members, Json.Plain.text])
  isObject f := ⟨_, rfl⟩
  ofJson?_toJson f := by
    rw [Fault.toJson_eq]
    simp [Message.ofJson?, Fault.members, Json.record?_ofMembers]

namespace Response

/-- The value of the fault of a response, which is null where there is none. -/
def faultJson (fault : Option Fault) : Json :=
  (fault.map Message.toJson).getD .null

private theorem plain_faultJson (fault : Option Fault) : (faultJson fault).Plain := by
  cases fault with
  | none => exact .null
  | some f => exact LawfulMessage.plain f

@[simp] theorem faultOfJson?_faultJson (fault : Option Fault) :
    faultOfJson? (faultJson fault) = some fault := by
  cases fault with
  | none => rfl
  | some f =>
    have hread := LawfulMessage.ofJson?_toJson f
    obtain ⟨ms, hms⟩ := LawfulMessage.isObject f
    rw [hms] at hread
    simp [faultJson, faultOfJson?, hms, hread]

/-- The members of a response on a channel. -/
def members (r : Response) : List (String × Json) :=
  [("stdout", .ofText r.stdout), ("stderr", .ofText r.stderr), ("fault", faultJson r.fault)]

private theorem toJson_eq (r : Response) : Message.toJson r = .ofMembers r.members := rfl

end Response

instance : LawfulMessage Response where
  plain r := Json.Plain.ofMembers r.members
    (by simp [Response.members, Json.Plain.text, Response.plain_faultJson])
  isObject r := ⟨_, rfl⟩
  ofJson?_toJson r := by
    rw [Response.toJson_eq]
    simp [Message.ofJson?, Response.members, Json.record?_ofMembers]

namespace Frame

section Reading

variable {α : Type} [Message α] {data frame : Bytes} {rest : List Bytes}

@[simp] theorem split_nil : split [] = [] := rfl

/-- The lines of some data: each holds one line feed, at its end, but that the last one may lack
it. -/
inductive Lines : Bytes → List Bytes → Prop
  | nil : Lines [] []
  | unended {line : Bytes} (hne : line ≠ []) (h : 0x0A ∉ line) : Lines line [line]
  | ended {line rest : Bytes} {lines : List Bytes} (h : 0x0A ∉ line) (hrest : Lines rest lines) :
      Lines (line ++ 0x0A :: rest) ((line ++ [0x0A]) :: lines)

/-- A line is cut from the data after it. -/
theorem split_ended {line : Bytes} (h : 0x0A ∉ line) (rest : Bytes) :
    split (line ++ 0x0A :: rest) = (line ++ [0x0A]) :: split rest :=
  cutAfter_cons_of_notMem h rest

/-- The data after the last line feed is one line, if there is any. -/
theorem split_unended {line : Bytes} (hne : line ≠ []) (h : 0x0A ∉ line) : split line = [line] :=
  cutAfter_of_notMem hne h

/-- The frames of some data are its lines. -/
theorem lines_split (data : Bytes) : Lines data (split data) := by
  by_cases hmem : 0x0A ∈ data
  · obtain ⟨line, rest, hdata, hline⟩ := List.eq_append_cons_of_mem hmem
    rw [hdata, split_ended hline]
    exact .ended hline (lines_split rest)
  · by_cases hne : data = []
    · subst hne
      exact .nil
    · rw [split_unended hne hmem]
      exact .unended hne hmem
termination_by data.length
decreasing_by
  rw [hdata, List.length_append, List.length_cons]
  omega

/-- Data is cut into lines in one way. -/
theorem lines_iff {lines : List Bytes} : Lines data lines ↔ split data = lines := by
  constructor
  · intro h
    induction h with
    | nil => rfl
    | unended hne h => exact split_unended hne h
    | ended h hrest ih => rw [split_ended h, ih]
  · rintro rfl
    exact lines_split data

/-- The frames after some are those of the data after them. -/
theorem split_flatten_of_split (frames : List Bytes) (h : split data = frames ++ rest) :
    split rest.flatten = rest :=
  (cutAfter_flatten h).2

/-- The first frame of the data is read, and what follows it is left. -/
theorem next?_of_split (h : split data = frame :: rest) :
    next? (α := α) data = some (read frame, rest.flatten) := by
  rw [next?, h]

/-- Reading all of the data is reading one message after another. -/
theorem readAll_eq (data : Bytes) :
    readAll (α := α) data =
      match next? data with
      | none => []
      | some (r, rest) => r :: readAll rest := by
  cases h : split data with
  | nil => simp [readAll, next?, h]
  | cons frame rest => simp [readAll, next?_of_split h, h, split_flatten_of_split [frame] h]

/-- Some lines begin with those that hold messages, up to the first that holds none. -/
theorem exists_leading (lines : List Bytes) :
    ∃ (frames later : List Bytes) (as : List α), lines = frames ++ later ∧
      frames.map read = as.map .ok ∧
      ∀ line ∈ later.head?, ∃ e, read (α := α) line = .error e := by
  induction lines with
  | nil => exact ⟨[], [], [], rfl, rfl, by simp⟩
  | cons line lines ih =>
    cases hread : read (α := α) line with
    | error e => exact ⟨[], line :: lines, [], rfl, rfl, by simp [hread]⟩
    | ok a =>
      obtain ⟨frames, later, as, rfl, hframes, hlater⟩ := ih
      refine ⟨line :: frames, later, a :: as, rfl, ?_, hlater⟩
      rw [List.map_cons, List.map_cons, hread, hframes]

/-- Reading one message after another gives some messages, and then the data ends. -/
inductive Yields : Bytes → List α → Prop
  | nil {data : Bytes} (h : next? (α := α) data = none) : Yields data []
  | cons {data rest : Bytes} {a : α} {as : List α} (h : next? data = some (.ok a, rest))
      (hrest : Yields rest as) : Yields data (a :: as)

/-- Reading all of the data gives the messages that are read one after another. -/
theorem Yields.readAll_eq {as : List α} (h : Yields data as) : readAll data = as.map .ok := by
  induction h with
  | nil h => rw [Frame.readAll_eq, h, List.map_nil]
  | cons h hrest ih =>
    rw [Frame.readAll_eq, h, List.map_cons]
    exact congrArg _ ih

end Reading

variable {α : Type} [Message α] [LawfulMessage α]

/-- The line of a message ends in a bracket, so that trimming keeps all of it. -/
theorem trimEnd_write (a : α) :
    ((Message.toJson a).write ++ ['\n']).trimEnd = (Message.toJson a).write := by
  obtain ⟨ms, hms⟩ := LawfulMessage.isObject a
  have hblank : Text.isBlank '}' = false := by decide
  rw [Text.trimEnd_append_blank (by decide), hms, Json.write]
  simp [Text.trimEnd, Text.dropEndWhile, hblank]

/-- A frame holds the message it was written for. -/
@[simp] theorem read_write (a : α) : read (write a) = .ok a := by
  have hparse := (LawfulMessage.plain a).parse?_write
  have hmessage := LawfulMessage.ofJson?_toJson a
  simp only [read, write, Bytes.toText?_toBytes, trimEnd_write, hparse, Option.bind_some, hmessage]

/-- The bytes of a frame before the line feed that ends it hold none. -/
theorem write_eq (a : α) : ∃ line : Bytes, 0x0A ∉ line ∧ write a = line ++ [0x0A] := by
  refine ⟨(Message.toJson a).write.toBytes, ?_, ?_⟩
  · exact Text.newline_notMem_toBytes (LawfulMessage.plain a).newline_notMem_write
  · rw [write, Text.toBytes_append]
    rfl

/-- A frame is cut from the data after it. -/
theorem split_write_append (a : α) (rest : Bytes) :
    split (write a ++ rest) = write a :: split rest := by
  obtain ⟨line, hline, hwrite⟩ := write_eq a
  rw [hwrite, List.append_assoc, List.singleton_append, split_ended hline]

@[simp] theorem split_write (a : α) : split (write a) = [write a] := by
  have h := split_write_append a []
  rwa [List.append_nil, split_nil] at h

/-- Frames one after another are cut where they were joined. -/
theorem split_writeAll (as : List α) : split (writeAll as) = as.map write := by
  induction as with
  | nil => rfl
  | cons a as ih =>
    have hcut := split_write_append a (writeAll as)
    rw [List.map_cons, ← ih]
    exact hcut

/-- What is read is the first frame that was written, and the others stay. -/
theorem next?_write_append (a : α) (rest : Bytes) :
    next? (write a ++ rest) = some (.ok a, rest) := by
  rw [next?_of_split (split_write_append a rest), read_write, flatten_split]

/-- What is received is the first frame that was sent, and the others stay. -/
theorem receive_write_append (a : α) (rest : Bytes) :
    receive (write a ++ rest) = (.ok a, rest) := by
  rw [receive_eq, next?_write_append]
  rfl

/-- Messages that are written are read back in order, and then the data ends. -/
theorem yields_writeAll (as : List α) : Yields (writeAll as) as := by
  induction as with
  | nil => exact .nil rfl
  | cons a as ih => exact .cons (next?_write_append a (writeAll as)) ih

/-- Reading all of the data gives the messages that were written. -/
theorem readAll_writeAll (as : List α) : readAll (writeAll as) = as.map .ok :=
  (yields_writeAll as).readAll_eq

/-- A frame holds one line feed. -/
theorem count_newline_write (a : α) : (write a).count 0x0A = 1 := by
  obtain ⟨line, hline, hwrite⟩ := write_eq a
  rw [hwrite, List.count_append, List.count_eq_zero_of_not_mem hline]
  rfl

/-- There are as many line feeds as messages. -/
theorem count_newline_writeAll (as : List α) : (writeAll as).count 0x0A = as.length := by
  induction as with
  | nil => rfl
  | cons a as ih =>
    have hcons : writeAll (a :: as) = write a ++ writeAll as := rfl
    rw [hcons, List.count_append, count_newline_write, ih, List.length_cons, Nat.add_comm]

/-- What becomes of messages that are written one after another: reading gives them back in the same
order and then comes to the end of the data, and each is one line, with the only line feed of its
frame at the end of it. -/
structure RoundTrip {α : Type} [Message α] (as : List α) : Prop where
  yields : Yields (writeAll as) as
  readAll : readAll (writeAll as) = as.map .ok
  line : ∀ a ∈ as, ∃ line : Bytes, 0x0A ∉ line ∧ write a = line ++ [0x0A]
  count : (writeAll as).count 0x0A = as.length

/-- Every list of requests and every list of responses makes the round trip, whatever texts they
hold. -/
theorem roundTrip :
    (∀ requests : List Request, RoundTrip requests) ∧
      ∀ responses : List Response, RoundTrip responses := by
  constructor
  · intro requests
    exact ⟨yields_writeAll requests, readAll_writeAll requests, fun r _ => write_eq r,
      count_newline_writeAll requests⟩
  · intro responses
    exact ⟨yields_writeAll responses, readAll_writeAll responses, fun r _ => write_eq r,
      count_newline_writeAll responses⟩

end Frame

end Literate
