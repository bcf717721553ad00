import Mathlib.Data.List.Induction
import Literate.Proofs.Document.Blocks
import Literate.Response

/-!
# Every verdict can be documented

The lines of a verdict, written under a snippet as its expected output, are read back up to the
blanks at their ends. What a verdict is compared with does not depend on those blanks, nor on empty
lines after the last that is not empty, so the verdict is the expected one.
-/

namespace Literate

namespace Verdict

/-- Lines without the blanks at their ends and without the empty lines after all the others. -/
def normalLines (ls : List Text) : List Text :=
  ((ls.map Text.trimEnd).reverse.dropWhile (· = [])).reverse

/-- Normalizing a text leaves its normal lines. -/
theorem normalize_eq (t : Text) : normalize t = Text.unlines (normalLines t.lines) := rfl

private theorem normalLines_congr {a b : List Text} (h : a.map Text.trimEnd = b.map Text.trimEnd) :
    normalLines a = normalLines b := by
  rw [normalLines, normalLines, h]

/-- An empty line at the end makes no difference. -/
theorem normalLines_concat_nil (ls : List Text) : normalLines (ls ++ [[]]) = normalLines ls := by
  simp [normalLines, Text.trimEnd, Text.dropEndWhile]

/-- A carriage return at the end of a line makes no difference. -/
theorem normalLines_map_chop (ls : List Text) :
    normalLines (ls.map (Text.chop '\r')) = normalLines ls := by
  apply normalLines_congr
  rw [List.map_map]
  exact List.map_congr_left fun l _ => Text.trimEnd_chop (by decide) l

/-- Lines that are put into one text are compared as they are, whether the last of them, which no
line feed ends, is a line of the text or empty. -/
theorem normalLines_lines_unlines {ls : List Text} (h : ∀ l ∈ ls, '\n' ∉ l) :
    normalLines (Text.unlines ls).lines = normalLines ls := by
  cases ls using List.reverseRecOn with
  | nil => rfl
  | append_singleton init last =>
    have hinit : ∀ l ∈ init, '\n' ∉ l := fun l hl => h l (List.mem_append_left _ hl)
    have hlast : '\n' ∉ last := h last (by simp)
    have hlines : (Text.unlines (init ++ [last])).lines =
        init.map (Text.chop '\r') ++ Text.lines last := by
      rw [Text.unlines_append_singleton, Text.lines, Text.rawLines_flatMap_ended hinit,
        List.map_append, List.map_map]
      exact congrArg (· ++ _) (List.map_congr_left fun l _ => Text.unterminated_ended l)
    rw [hlines]
    cases last with
    | nil =>
      rw [normalLines_concat_nil, ← normalLines_map_chop init]
      exact congrArg normalLines (List.append_nil _)
    | cons c rest =>
      have hraw : Text.rawLines (c :: rest) = [c :: rest] :=
        Text.rawLines_of_newline_notMem (by simp) hlast
      have hends : (c :: rest).getLast? ≠ some '\n' := fun hmem =>
        hlast (List.mem_of_getLast? hmem)
      apply normalLines_congr
      rw [Text.lines, hraw, List.map_singleton, Text.unterminated, if_neg hends, List.map_append,
        List.map_append, List.map_map]
      exact congrArg (· ++ _) (List.map_congr_left fun l _ => Text.trimEnd_chop (by decide) l)

/-- A verdict is accepted where the expected lines are its own up to what makes no difference. -/
theorem accepts_of_normalLines {verdict : Text} {expected : List Text}
    (hexpected : ∀ l ∈ expected, '\n' ∉ l) (h : normalLines expected = normalLines verdict.lines) :
    accepts verdict expected = true := by
  rw [accepts, normalize_eq, normalize_eq, normalLines_lines_unlines hexpected, h]
  exact decide_eq_true rfl

end Verdict

namespace Example

/-- The text of a zone in which a snippet stands under an indentation, and after it the lines of a
verdict as its expected output. -/
def documented (indent : Text) (snippet : List Text) (verdict : Text) : Text :=
  (snippet.map (indent ++ ·) ++ verdict.lines.map (indent ++ marker ++ ·)).flatMap Text.ended

/-- The lines of such a zone are those that were written, but for carriage returns that end lines of
the verdict. -/
theorem lines_documented {indent : Text} {snippet : List Text} {n : Nat}
    (h : WellFormed ⟨indent, snippet, [], n⟩) (verdict : Text) :
    (documented indent snippet verdict).lines =
      render ⟨indent, snippet, verdict.lines.map (Text.chop '\r'), n⟩ := by
  have hfeed : '\n' ∉ indent := h.indentation.notMem (by decide) (by decide)
  have hreturn : '\r' ∉ indent := h.indentation.notMem (by decide) (by decide)
  have hcode : ∀ l ∈ snippet.map (indent ++ ·), '\n' ∉ l ∧ l.getLast? ≠ some '\r' := by
    simpa [render] using h.unbroken_render
  have houtput : ∀ l ∈ verdict.lines.map (indent ++ marker ++ ·), '\n' ∉ l := by
    intro l hl
    obtain ⟨t, ht, rfl⟩ := List.mem_map.mp hl
    simp [hfeed, marker, Text.newline_notMem_of_mem_lines ht]
  have hchop (t : Text) : (indent ++ marker ++ t).chop '\r' = indent ++ marker ++ t.chop '\r' :=
    Text.chop_append (by simp [hreturn, marker]) t
  have hall : ∀ l ∈ snippet.map (indent ++ ·) ++ verdict.lines.map (indent ++ marker ++ ·),
      '\n' ∉ l := fun l hl => (List.mem_append.mp hl).elim (fun hl => (hcode l hl).1) (houtput l)
  have hcut := Text.rawLines_flatMap_ended hall []
  have hsnippet : (snippet.map (indent ++ ·)).map (Text.chop '\r') = snippet.map (indent ++ ·) :=
    (List.map_congr_left fun l hl => Text.chop_of_getLast?_ne (hcode l hl).2).trans (List.map_id' _)
  have hlines : (documented indent snippet verdict).lines =
      (snippet.map (indent ++ ·) ++ verdict.lines.map (indent ++ marker ++ ·)).map
        (Text.chop '\r') := by
    rw [List.append_nil, Text.rawLines_nil, List.append_nil] at hcut
    rw [documented, Text.lines, hcut, List.map_map]
    exact List.map_congr_left fun l _ => Text.unterminated_ended l
  rw [hlines, List.map_append, hsnippet, render, List.map_map, List.map_map]
  exact congrArg (_ ++ ·) (List.map_congr_left fun t _ => hchop t)

/-- Every verdict can be written under a snippet that is not taken for anything else: the zone holds
one example, which has the snippet, and the verdict is the one it expects. -/
theorem ofZone_documented {indent : Text} {snippet : List Text} {z : Zone}
    (h : WellFormed ⟨indent, snippet, [], z.line⟩) (verdict : Text) :
    ∃ expected,
      ofZone { z with text := documented indent snippet verdict } =
        .ok [⟨indent, snippet, expected, z.line⟩] ∧
      Verdict.accepts verdict expected = true := by
  refine ⟨verdict.lines.map (Text.chop '\r'), ?_, ?_⟩
  · have hread := @ofLines_render ⟨indent, snippet, verdict.lines.map (Text.chop '\r'), z.line⟩ h
      z.line [] (by simp)
    rw [List.append_nil, ofLines] at hread
    rw [ofZone, lines_documented h verdict, hread]
    rfl
  · apply Verdict.accepts_of_normalLines
    · intro l hl
      obtain ⟨t, ht, rfl⟩ := List.mem_map.mp hl
      exact fun hmem => Text.newline_notMem_of_mem_lines ht (Text.chop_subset _ _ hmem)
    · exact Verdict.normalLines_map_chop _

/-- A verdict with an empty line, a line that looks like a marker, blanks and carriage returns at
line ends can be documented. -/
theorem ofZone_documented_marker :
    ∃ expected,
      ofZone ⟨"///".toList,
          "/// x\n/// // -> 1 \r\n/// // -> \n/// // -> // -> 2\r\n".toList, 4, 55, 2⟩ =
        .ok [⟨"/// ".toList, ["x".toList], expected, 2⟩] ∧
      Verdict.accepts "1 \r\r\n\n// -> 2\r".toList expected = true := by
  have hwell : WellFormed ⟨"/// ".toList, ["x".toList], [], 2⟩ :=
    ⟨@Indentation.sign [] [] (by simp) (by simp), by simp, by decide, by decide,
      by simp [Text.isIndent], fun _ => by simp [sigil]⟩
  exact @ofZone_documented _ _ ⟨"///".toList, [], 4, 55, 2⟩ hwell "1 \r\r\n\n// -> 2\r".toList

end Example

end Literate
