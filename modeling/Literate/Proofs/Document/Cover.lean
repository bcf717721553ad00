import Literate.Document.Extraction
import Literate.Proofs.Text.Lines

/-!
# Zones cover runs of lines

A zone is cut out of a document as a text with the number of its first line. Cut into lines again,
it gives the very lines that stand at that number: the lines of a document keep their places in
every run of them. The zones of a document follow one another, each after a line that opens it.
-/

namespace Literate

namespace Line

/-- A line without its terminator, as it is read when code is looked for. -/
def plain (l : Line) : Text := l.raw.unterminated

/-- Lines that follow one another in a document, the first of which has the given number. -/
structure Run (n : Nat) (ls : List Line) : Prop where
  number : ls.map Line.number = List.range' n ls.length
  raw : Text.rawLines (ls.flatMap Line.raw) = ls.map Line.raw

private theorem map_number_place (n start : Nat) (raws : List Text) :
    (place n start raws).map number = List.range' n raws.length := by
  induction raws generalizing n start with
  | nil => rfl
  | cons r rest ih => simp [place, ih, List.range'_succ]

namespace Run

variable {n : Nat} {a b ls : List Line} {l : Line}

/-- The lines of a document follow one another from number one. -/
theorem ofDocument (document : Text) : Run 1 (Line.ofDocument document) where
  number := by
    have hlength := congrArg List.length (map_raw_place 1 0 document.rawLines)
    rw [List.length_map] at hlength
    rw [Line.ofDocument, map_number_place, hlength]
  raw := by
    rw [flatMap_raw_ofDocument, Line.ofDocument, map_raw_place]

/-- A run is cut into two, of which the second goes on from the number that the first comes to. -/
theorem append (h : Run n (a ++ b)) : Run n a ∧ Run (n + a.length) b := by
  obtain ⟨hnumber, hraw⟩ := h
  rw [List.map_append, List.length_append, ← List.range'_append_1] at hnumber
  obtain ⟨hna, hnb⟩ := List.append_inj hnumber (by simp)
  rw [List.map_append] at hraw
  obtain ⟨hra, hrb⟩ := cutAfter_flatten hraw
  exact ⟨⟨hna, by rwa [List.flatMap_def]⟩, ⟨hnb, by rwa [List.flatMap_def]⟩⟩

/-- After its first line a run goes on from the next number. -/
theorem cons (h : Run n (l :: ls)) : l.number = n ∧ Run (n + 1) ls := by
  obtain ⟨hl, hls⟩ := append (a := [l]) h
  refine ⟨?_, hls⟩
  simpa using hl.number

/-- A run of lines, read as a text, gives itself back. -/
theorem lines (h : Run n ls) : Text.lines (ls.flatMap Line.raw) = ls.map plain := by
  rw [Text.lines, h.raw, List.map_map]
  rfl

end Run

/-- The lines of a document, with and without their places. -/
theorem map_plain_ofDocument (document : Text) :
    (ofDocument document).map plain = document.lines := by
  rw [← (Run.ofDocument document).lines, flatMap_raw_ofDocument]

end Line

namespace Zone

/-- Zones that lie among some lines one after another, each after a line that opens it. The first
line has the given number. -/
inductive Cover : Nat → List Text → List Zone → Prop
  | nil (n : Nat) : Cover n [] []
  | skip {n : Nat} {rest : List Text} {zones : List Zone} (line : Text)
    (h : Cover (n + 1) rest zones) : Cover n (line :: rest) zones
  | zone {n : Nat} {rest : List Text} {zones : List Zone} {z : Zone} (opener : Text)
    (hline : z.line = n + 1) (h : Cover (n + 1 + z.text.lines.length) rest zones) :
    Cover n (opener :: (z.text.lines ++ rest)) (z :: zones)

/-- The zone of the lines that satisfy `p` after an opening line covers these lines. -/
theorem Cover.after {n : Nat} {opener : Line} {rest : List Line} {zones : List Zone}
    {p : Line → Bool} (h : Line.Run n (opener :: rest)) (marker : Text)
    (hlater : Cover (n + 1 + (rest.takeWhile p).length) ((rest.dropWhile p).map Line.plain)
      zones) :
    Cover n ((opener :: rest).map Line.plain)
      (Zone.after opener marker (rest.takeWhile p) :: zones) := by
  obtain ⟨hnumber, hrest⟩ := h.cons
  have happend : rest.takeWhile p ++ rest.dropWhile p = rest := List.takeWhile_append_dropWhile
  rw [← happend] at hrest
  have hlines : (Zone.after opener marker (rest.takeWhile p)).text.lines =
      (rest.takeWhile p).map Line.plain := hrest.append.1.lines
  have hplain : (opener :: rest).map Line.plain = opener.plain ::
      ((Zone.after opener marker (rest.takeWhile p)).text.lines ++
        (rest.dropWhile p).map Line.plain) := by
    rw [hlines, ← List.map_append, happend, List.map_cons]
  rw [hplain]
  refine .zone _ (congrArg (· + 1) hnumber) ?_
  rwa [hlines, List.length_map]

/-- Zones that cover the lines from the first on that is not passed over cover all the lines, if
none is passed over. -/
theorem Cover.of_none {n : Nat} {ls : List Line} {zones : List Zone} {p : Line → Bool}
    (hp : ∀ l, p l = false)
    (h : Cover (n + (ls.takeWhile p).length) ((ls.dropWhile p).map Line.plain) zones) :
    Cover n (ls.map Line.plain) zones := by
  cases ls with
  | nil => exact h
  | cons l rest =>
    rw [List.takeWhile_cons_of_neg (by simp [hp]), List.dropWhile_cons_of_neg (by simp [hp])] at h
    exact h

end Zone

namespace Fence

/-- Whether a line is passed over while the fence that lines lie inside of, if any, is open. -/
def skips (inside : Option Fence) (l : Line) : Bool :=
  inside.any fun f => !f.closedBy l.text

/-- The zones of fences cover the lines from the first on that is not inside an open one. -/
theorem cover_scan (languages : List Text) (inside : Option Fence) {n : Nat} {ls : List Line}
    (h : Line.Run n ls) :
    Zone.Cover (n + (ls.takeWhile (skips inside)).length)
      ((ls.dropWhile (skips inside)).map Line.plain) (scan languages inside ls).zones := by
  induction ls generalizing n inside with
  | nil =>
    cases inside <;> exact .nil _
  | cons l rest ih =>
    obtain ⟨-, hrest⟩ := h.cons
    have hnone := (ih none hrest).of_none fun _ => rfl
    cases inside with
    | some f =>
      cases hclosed : f.closedBy l.text with
      | true =>
        have hskip : skips (some f) l = false := by simp [skips, hclosed]
        simp only [scan, hclosed, ↓reduceIte, List.takeWhile_cons, List.dropWhile_cons, hskip,
          Bool.false_eq_true, List.map_cons]
        exact .skip _ hnone
      | false =>
        have hskip : skips (some f) l = true := by simp [skips, hclosed]
        simp only [scan, hclosed, ↓reduceIte, List.takeWhile_cons, List.dropWhile_cons, hskip,
          Bool.false_eq_true, List.length_cons]
        have hsome := ih (some f) hrest
        rwa [Nat.add_assoc, Nat.add_comm 1] at hsome
    | none =>
      change Zone.Cover n ((l :: rest).map Line.plain) (scan languages none (l :: rest)).zones
      rw [scan]
      cases opener? languages l.text with
      | none => exact .skip _ hnone
      | some f =>
        dsimp only
        split
        · exact Zone.Cover.after h f.text (ih (some f) hrest)
        · exact .skip _ hnone

end Fence

namespace Comment

/-- Whether a line is passed over as part of the block that lines lie inside of, if any. -/
def skips (sigil : Text) (inside : Option Text) (l : Line) : Bool :=
  inside.any fun indent => continues sigil indent l.text

/-- The zones of comments cover the lines from the first on that does not go on an open block. -/
theorem cover_scan (sigil : Text) (inside : Option Text) {n : Nat} {ls : List Line}
    (h : Line.Run n ls) :
    Zone.Cover (n + (ls.takeWhile (skips sigil inside)).length)
      ((ls.dropWhile (skips sigil inside)).map Line.plain) (scan sigil inside ls) := by
  induction ls generalizing n inside with
  | nil => exact .nil _
  | cons l rest ih =>
    obtain ⟨-, hrest⟩ := h.cons
    have hnone := (ih none hrest).of_none fun _ => rfl
    rw [scan, List.takeWhile_cons, List.dropWhile_cons, ← skips]
    cases skips sigil inside l with
    | true =>
      have hinside := ih inside hrest
      rwa [Nat.add_assoc, Nat.add_comm 1] at hinside
    | false =>
      simp only [Bool.false_eq_true, ↓reduceIte, List.length_nil, Nat.add_zero]
      cases opener? sigil l.text with
      | none => exact .skip _ hnone
      | some indent =>
        dsimp only
        split
        · exact .skip _ hnone
        · exact Zone.Cover.after h sigil (ih (some indent) hrest)

end Comment

/-- The zones of a document cover its lines. -/
theorem Delimiters.cover_scan (d : Delimiters) (document : Text) :
    Zone.Cover 1 document.lines (d.scan document).zones := by
  have hrun := Line.Run.ofDocument document
  rw [← Line.map_plain_ofDocument]
  cases d with
  | fences languages => exact (Fence.cover_scan languages none hrun).of_none fun _ => rfl
  | comments sigil => exact (Comment.cover_scan sigil none hrun).of_none fun _ => rfl

end Literate
