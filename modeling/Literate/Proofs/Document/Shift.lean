import Literate.Proofs.Document.Detection
import Literate.Proofs.Document.Fidelity

/-!
# Further down in a document

Lines that stand further down are scanned as they are where they stand: the zones, the examples and
the errors that are found in them stand further down by as much, and are the same otherwise. What is
read off a line does not depend on where it stands.
-/

namespace Literate

namespace Line

/-- A line further down by some lines and bytes. -/
def shift (lines bytes : Nat) (l : Line) : Line where
  number := l.number + lines
  start := l.start + bytes
  raw := l.raw

variable {lines bytes : Nat}

private theorem stop_shift (l : Line) : (l.shift lines bytes).stop = l.stop + bytes :=
  Nat.add_right_comm l.start bytes l.raw.byteCount

private theorem place_shift (n start : Nat) (raws : List Text) :
    place (n + lines) (start + bytes) raws = (place n start raws).map (shift lines bytes) := by
  induction raws generalizing n start with
  | nil => rfl
  | cons raw rest ih =>
    have hn : n + lines + 1 = n + 1 + lines := Nat.add_right_comm n lines 1
    have hstart : start + bytes + raw.byteCount = start + raw.byteCount + bytes :=
      Nat.add_right_comm start bytes raw.byteCount
    rw [place, place, List.map_cons, hn, hstart, ih]
    rfl

/-- The lines of a document after another one are its own, further down by those of the other. -/
theorem ofDocument_concat {first : Text} (h : first = [] ∨ first.getLast? = some '\n')
    (second : Text) :
    ofDocument (first ++ second) =
      ofDocument first ++ (ofDocument second).map (shift first.lines.length first.byteCount) := by
  have hlength : first.lines.length = first.rawLines.length := List.length_map _
  rw [ofDocument, Text.rawLines_append h, place_append, Text.flatten_rawLines, ← hlength,
    place_shift]
  rfl

end Line

/-- An error further down by some lines. -/
def ExtractError.shift (lines : Nat) : ExtractError → ExtractError
  | unterminatedFence line marker => unterminatedFence (line + lines) marker
  | orphanExpectation line text => orphanExpectation (line + lines) text

/-- An error that is moved down points that much further down. -/
theorem ExtractError.line_shift (lines : Nat) (e : ExtractError) :
    (e.shift lines).line = e.line + lines := by
  cases e <;> rfl

namespace Zone

/-- A zone further down by some lines and bytes. -/
def shift (lines bytes : Nat) (z : Zone) : Zone :=
  { z with start := z.start + bytes, stop := z.stop + bytes, line := z.line + lines }

/-- The zone of some lines moves down with them. -/
theorem after_shift (lines bytes : Nat) (opener : Line) (marker : Text) (content : List Line) :
    after (opener.shift lines bytes) marker (content.map (Line.shift lines bytes)) =
      (after opener marker content).shift lines bytes := by
  have htext : (content.map (Line.shift lines bytes)).flatMap Line.raw = content.flatMap Line.raw :=
    List.flatMap_map _ _ _
  have hstop : opener.stop + bytes + Text.byteCount (content.flatMap Line.raw) =
      opener.stop + Text.byteCount (content.flatMap Line.raw) + bytes := Nat.add_right_comm _ _ _
  have hline : opener.number + lines + 1 = opener.number + 1 + lines := Nat.add_right_comm _ _ _
  simp only [after, htext, Line.stop_shift, hstop, shift]
  exact congrArg _ hline

end Zone

/-- What is found in some lines, further down by some lines and bytes. -/
def Scan.shift (lines bytes : Nat) (s : Scan) : Scan where
  zones := s.zones.map (Zone.shift lines bytes)
  errors := s.errors.map (ExtractError.shift lines)

namespace Fence

variable {languages : List Text} {ls : List Line} {s : Scan}

/-- Lines further down come to what they come to where they stand, further down. -/
theorem Scanned.shift (h : Scanned languages ls s) (lines bytes : Nat) :
    Scanned languages (ls.map (Line.shift lines bytes)) (s.shift lines bytes) := by
  induction h with
  | nil => exact .nil
  | plain hplain hrest ih => exact .plain hplain ih
  | @unclosed l rest s f hopens hopen hrest ih =>
    have hopens : Opens languages f (l.shift lines bytes).text := hopens
    have hopen : ∀ k ∈ rest.map (Line.shift lines bytes), ¬Closes f k.text :=
      List.forall_mem_map.mpr hopen
    exact .unclosed hopens hopen ih
  | @block l closer content rest s f hopens hopen hcloses hrest ih =>
    have hopens : Opens languages f (l.shift lines bytes).text := hopens
    have hopen : ∀ k ∈ content.map (Line.shift lines bytes), ¬Closes f k.text :=
      List.forall_mem_map.mpr hopen
    have hcloses : Closes f (closer.shift lines bytes).text := hcloses
    have hblock := Scanned.block hopens hopen hcloses ih
    rw [Zone.after_shift] at hblock
    rw [List.map_cons, List.map_append, List.map_cons]
    exact hblock

end Fence

namespace Example

/-- An example further down by some lines. -/
def shift (lines : Nat) (e : Example) : Example :=
  { e with line := e.line + lines }

/-- What is read off lines further down is what is read off them where they stand, further down. -/
theorem ofLines_shift (k n : Nat) (lines : List Text) :
    ofLines (n + k) lines =
      ((ofLines n lines).map (List.map (shift k))).mapError (ExtractError.shift k) := by
  induction n, lines using ofLines.induct with
  | case1 n => rw [ofLines, ofLines]; rfl
  | case2 n line rest hfiller ih =>
    rw [ofLines_of_isFiller hfiller, ofLines_of_isFiller hfiller, Nat.add_right_comm, ih]
  | case3 n line rest hfiller text htext =>
    rw [ofLines_of_output hfiller htext, ofLines_of_output hfiller htext]
    rfl
  | case4 n line rest hfiller hnone indent snippet afterCode expected later ih =>
    have hnumber : n + k + snippet.length + expected.length =
        n + snippet.length + expected.length + k := by omega
    rw [ofLines_of_code hfiller hnone, ofLines_of_code hfiller hnone]
    change (ofLines (n + k + snippet.length + expected.length) later).map _ = _
    rw [hnumber, ih]
    cases ofLines (n + snippet.length + expected.length) later <;> rfl

/-- The examples and the error of a zone further down are those of the zone, moved down. -/
theorem ofZone_shift (lines bytes : Nat) (z : Zone) :
    ofZone (z.shift lines bytes) =
      ((ofZone z).map (List.map (shift lines))).mapError (ExtractError.shift lines) :=
  ofLines_shift lines z.line z.text.lines

end Example

namespace Extraction

/-- What is found in zones further down is what is found in them where they stand, further down. -/
theorem ofZones_shift (lines bytes : Nat) (zones : List Zone) :
    ofZones (zones.map (Zone.shift lines bytes)) =
      { examples := (ofZones zones).examples.map (Example.shift lines),
        errors := (ofZones zones).errors.map (ExtractError.shift lines) } :=
  ofZones_map (Example.ofZone_shift lines bytes) zones

end Extraction

end Literate
