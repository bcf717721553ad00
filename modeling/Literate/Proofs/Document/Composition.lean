import Literate.Proofs.Document.Locality
import Literate.Proofs.Document.Shift

/-!
# Parts of a document

A document can be read part by part. A line without code ends what stands before it, so that the
examples of a zone are those of its two sides; and a Markdown document whose fences are all closed
ends where it ends, so that another one can be put after it. What is found in the second part
stands further down by the lines of the first, and is the same otherwise.
-/

namespace Literate

namespace Example

/-- A line on which a function is not defined ends the beginning on which it is. -/
theorem takeSome_append_cons {α β : Type} {f : α → Option β} {a : α} (ha : f a = none)
    (before after : List α) :
    takeSome f (before ++ a :: after) = takeSome f before ∧
      dropSome f (before ++ a :: after) = dropSome f before ++ a :: after := by
  induction before with
  | nil => simp [takeSome, dropSome, ha]
  | cons b before ih =>
    obtain ⟨htake, hdrop⟩ := ih
    cases hb : f b with
    | none => simp [takeSome, dropSome, hb]
    | some c => simp [takeSome, dropSome, hb, htake, hdrop]

/-- Lines on the two sides of one without code are read one side after the other. -/
theorem ofLines_append_filler {line : Text} (hfiller : isFiller line = true) (n : Nat)
    (before after : List Text) :
    ofLines n (before ++ line :: after) =
      (ofLines n before).bind fun own =>
        (ofLines (n + before.length + 1) after).map (own ++ ·) := by
  induction n, before using ofLines.induct with
  | case1 n =>
    rw [List.nil_append, ofLines_of_isFiller hfiller, ofLines]
    change _ = (ofLines (n + 1) after).map ([] ++ ·)
    cases ofLines (n + 1) after <;> rfl
  | case2 n first rest hfirst ih =>
    rw [List.cons_append, ofLines_of_isFiller hfirst, ofLines_of_isFiller hfirst, ih,
      List.length_cons, ← Nat.add_assoc, Nat.add_right_comm n 1]
  | case3 n first rest hfirst text htext =>
    rw [List.cons_append, ofLines_of_output hfirst htext, ofLines_of_output hfirst htext]
    rfl
  | case4 n first rest hfirst hnone indent snippet afterCode expected later =>
    rename_i ih
    -- Neither the code nor the output of the example goes past the line without code.
    obtain ⟨hcode, hafterCode⟩ :=
      takeSome_append_cons (code?_of_isFiller hfiller (indentOf first)) rest after
    obtain ⟨hexpected, hlater⟩ :=
      takeSome_append_cons (expectation?_of_isFiller hfiller (indentOf first))
        (dropSome (code? (indentOf first)) rest) after
    have hlength : snippet.length + expected.length + later.length = (first :: rest).length :=
      length_code_add_length_output first rest indent
    have hnumber : n + snippet.length + expected.length + later.length =
        n + (first :: rest).length := by omega
    rw [List.cons_append, ofLines_of_code hfirst hnone, ofLines_of_code hfirst hnone]
    simp only [hcode, hafterCode, hexpected, hlater]
    change (ofLines (n + snippet.length + expected.length) (later ++ line :: after)).map _ =
      ((ofLines (n + snippet.length + expected.length) later).map _).bind _
    rw [ih, hnumber]
    cases ofLines (n + snippet.length + expected.length) later with
    | error e => rfl
    | ok own => cases ofLines (n + (first :: rest).length + 1) after <;> rfl

/-- A line without code separates the examples of a zone. What stands before it is read as if
nothing came after it, and what stands after it as if it came first, further down. -/
theorem ofZone_separated {first line : Text} (hfirst : first = [] ∨ first.getLast? = some '\n')
    (hline : '\n' ∉ line) (hfiller : isFiller line = true) (second : Text) (z : Zone) :
    let down := first.lines.length + 1
    ofZone { z with text := first ++ (line ++ '\n' :: second) } =
      match ofZone { z with text := first }, ofZone { z with text := second } with
      | .error e, _ => .error e
      | .ok _, .error e => .error (e.shift down)
      | .ok own, .ok later => .ok (own ++ later.map (Example.shift down)) := by
  intro down
  have hlines : (first ++ (line ++ '\n' :: second)).lines =
      first.lines ++ line.chop '\r' :: second.lines := by
    have hended : line ++ '\n' :: second = line.ended ++ second := by simp [Text.ended]
    rw [Text.lines_append hfirst, hended, Text.lines_ended_append hline]
  have hchop : isFiller (line.chop '\r') = true := by rwa [isFiller_chop]
  simp only [ofZone]
  rw [hlines, ofLines_append_filler hchop, Nat.add_assoc, ofLines_shift]
  cases ofLines z.line first.lines with
  | error e => rfl
  | ok own => cases ofLines z.line second.lines <;> rfl

/-- A comment sign alone separates the code of two examples, of which the second would go on the
first. -/
theorem ofZone_separated_sign :
    let first : Text := "  f(1)\n".toList
    let line : Text := "  ///".toList
    let second : Text := "  g(2)\n  // -> 2\n".toList
    (first = [] ∨ first.getLast? = some '\n') ∧ '\n' ∉ line ∧ isFiller line = true ∧
      ofZone ⟨"```".toList, first ++ (line ++ '\n' :: second), 7, 37, 2⟩ =
        .ok [⟨"  ".toList, ["f(1)".toList], [], 2⟩,
          ⟨"  ".toList, ["g(2)".toList], ["2".toList], 4⟩] := by
  intro first line second
  have hfirst : first = [] ∨ first.getLast? = some '\n' := by decide
  have hline : '\n' ∉ line := by decide
  have hfiller : isFiller line = true := by decide
  have h := ofZone_separated hfirst hline hfiller second ⟨"```".toList, [], 7, 37, 2⟩
  exact ⟨hfirst, hline, hfiller, h.trans (by decide +kernel)⟩

end Example

/-- A document whose fences are all closed is scanned without regard to what is put after it, and
that is scanned as it is alone, further down. -/
theorem Delimiters.scan_append {languages : List Text} {first : Text}
    (hfirst : first = [] ∨ first.getLast? = some '\n')
    (hclosed : ((fences languages).scan first).errors = []) (second : Text) :
    (fences languages).scan (first ++ second) =
      let later := ((fences languages).scan second).shift first.lines.length first.byteCount
      { zones := ((fences languages).scan first).zones ++ later.zones,
        errors := later.errors } := by
  have hscan := Fence.scanned_scan languages (Line.ofDocument first)
  have hlater := (Fence.scanned_scan languages (Line.ofDocument second)).shift
    first.lines.length first.byteCount
  have happend := hscan.append hclosed hlater
  rw [← Line.ofDocument_concat hfirst] at happend
  exact happend.scan_eq

namespace Extraction

/-- What is found in zones that stand before others is found in these zones, and so is what is found
in the others. -/
theorem ofZones_append (a b : List Zone) :
    ofZones (a ++ b) =
      { examples := (ofZones a).examples ++ (ofZones b).examples,
        errors := (ofZones a).errors ++ (ofZones b).errors } := by
  simp only [ofZones_eq, List.filterMap_append, List.flatten_append]

/-- Errors that are sorted by line are determined by which they are. -/
theorem eq_of_perm_of_pairwise {a b : List ExtractError} (h : a.Perm b)
    (ha : a.Pairwise fun x y => x.line < y.line) (hb : b.Pairwise fun x y => x.line < y.line) :
    a = b :=
  h.eq_of_pairwise (fun _ _ _ _ hxy hyx => absurd (Nat.lt_trans hxy hyx) (Nat.lt_irrefl _)) ha hb

/-- The errors of a document and those of another one below it are sorted. -/
theorem pairwise_errors_append (kind : DocumentKind) (first second : Text) :
    ((ofDocument kind first).errors ++
      (ofDocument kind second).errors.map (ExtractError.shift first.lines.length)).Pairwise
        fun a b => a.line < b.line := by
  refine List.pairwise_append.mpr ⟨pairwise_errors_ofDocument kind first, ?_, ?_⟩
  · refine List.pairwise_map.mpr ((pairwise_errors_ofDocument kind second).imp ?_)
    intro a b hab
    rw [ExtractError.line_shift, ExtractError.line_shift]
    exact Nat.add_lt_add_right hab _
  · intro a ha b hb
    obtain ⟨e, he, rfl⟩ := List.mem_map.mp hb
    have hown := line_of_mem_errors_ofDocument ha
    have hlater := line_of_mem_errors_ofDocument he
    rw [ExtractError.line_shift]
    omega

/-- Two documents of Markdown, the fences of the first of which are all closed, have their examples,
errors and zones one after another, those of the second further down by the first. -/
theorem ofDocument_append {first : Text} (hfirst : first = [] ∨ first.getLast? = some '\n')
    (hclosed : (DocumentKind.markdown.delimiters.scan first).errors = []) (second : Text) :
    let lines := first.lines.length
    let scan := DocumentKind.markdown.delimiters.scan
    let own := ofDocument .markdown first
    let later := ofDocument .markdown second
    ofDocument .markdown (first ++ second) =
      { examples := own.examples ++ later.examples.map (Example.shift lines),
        errors := own.errors ++ later.errors.map (ExtractError.shift lines) } ∧
    (scan (first ++ second)).zones =
      (scan first).zones ++ (scan second).zones.map (Zone.shift lines first.byteCount) := by
  intro lines scan own later
  have hscan : scan (first ++ second) =
      { zones := (scan first).zones ++ (scan second).zones.map (Zone.shift lines first.byteCount),
        errors := (scan second).errors.map (ExtractError.shift lines) } :=
    Delimiters.scan_append hfirst hclosed second
  have hfound : ofZones (scan (first ++ second)).zones =
      { examples := own.examples ++ later.examples.map (Example.shift lines),
        errors := (ofZones (scan first).zones).errors ++
          (ofZones (scan second).zones).errors.map (ExtractError.shift lines) } := by
    rw [hscan, ofZones_append, ofZones_shift]
    rfl
  have hperm : (ofDocument .markdown (first ++ second)).errors.Perm
      (own.errors ++ later.errors.map (ExtractError.shift lines)) := by
    have hboth := perm_errors_ofDocument .markdown (first ++ second)
    have hown := perm_errors_ofDocument .markdown first
    have hlater := (perm_errors_ofDocument .markdown second).map (ExtractError.shift lines)
    rw [hclosed, List.nil_append] at hown
    rw [List.map_append] at hlater
    change List.Perm _
      ((scan (first ++ second)).errors ++ (ofZones (scan (first ++ second)).zones).errors) at hboth
    rw [hfound, hscan] at hboth
    exact (hboth.trans (List.perm_append_comm_assoc _ _ _)).trans (hown.append hlater).symm
  have hexamples : (ofDocument .markdown (first ++ second)).examples =
      own.examples ++ later.examples.map (Example.shift lines) := by
    have h := congrArg examples hfound
    exact h
  have herrors : (ofDocument .markdown (first ++ second)).errors =
      own.errors ++ later.errors.map (ExtractError.shift lines) :=
    eq_of_perm_of_pairwise hperm (pairwise_errors_ofDocument .markdown _)
      (pairwise_errors_append .markdown first second)
  refine ⟨?_, congrArg Scan.zones hscan⟩
  rw [← hexamples, ← herrors]

/-- Output without code in the first document, and a fence in the second that is never closed. -/
theorem ofDocument_append_faults :
    let first : Text := "```cpp\n// -> 1\n```\n~~~c\nx\n~~~\n".toList
    let second : Text := "````c\n```c\ny\n```".toList
    (first = [] ∨ first.getLast? = some '\n') ∧
      (DocumentKind.markdown.delimiters.scan first).errors = [] ∧
      ofDocument .markdown (first ++ second) =
        { examples := [⟨[], ["x".toList], [], 5⟩, ⟨[], ["y".toList], [], 9⟩],
          errors := [.orphanExpectation 2 "1".toList, .unterminatedFence 7 "````".toList] } := by
  intro first second
  have hfirst : first = [] ∨ first.getLast? = some '\n' := by decide
  have hclosed : (DocumentKind.markdown.delimiters.scan first).errors = [] := by decide +kernel
  have h := (ofDocument_append hfirst hclosed second).1
  exact ⟨hfirst, hclosed, h.trans (by decide +kernel)⟩

end Extraction

end Literate
