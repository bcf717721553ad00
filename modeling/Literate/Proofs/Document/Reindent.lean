import Mathlib.Data.List.Induction
import Literate.Document.Extraction
import Literate.Proofs.Document.Blocks
import Literate.Proofs.Document.Cover
import Literate.Proofs.Document.Preparation

/-!
# Headers that are indented further

The comment blocks of a header move with it when every line is put behind the same spaces: the
zones and the examples are those of the header, under a longer indentation. A tab may indent an
example, but not the line that opens a comment block, so a header behind an indentation with a tab
has no examples at all.
-/

namespace Literate

namespace Text

/-- A text with something before every line. -/
def reindent (w t : Text) : Text :=
  t.rawLines.flatMap (w ++ ·)

variable {w : Text}

/-- The lines of a text stay its lines behind what holds no line feed. -/
theorem rawLines_reindent (hw : '\n' ∉ w) (t : Text) :
    rawLines (reindent w t) = t.rawLines.map (w ++ ·) := by
  by_cases hmem : '\n' ∈ t
  · obtain ⟨line, rest, ht, hline⟩ := List.eq_append_cons_of_mem hmem
    have hsplit : t = ended line ++ rest := by simp [ht, ended]
    have hfirst : '\n' ∉ w ++ line := List.not_mem_append hw hline
    have hrest := rawLines_reindent hw rest
    have hended : w ++ ended line = ended (w ++ line) := (List.append_assoc w line _).symm
    rw [hsplit, reindent, rawLines_ended_append hline, List.flatMap_cons, ← reindent, List.map_cons,
      hended, rawLines_ended_append hfirst, hrest]
  · by_cases hne : t = []
    · subst hne
      rfl
    · have hfirst : '\n' ∉ w ++ t := List.not_mem_append hw hmem
      rw [reindent, rawLines_of_newline_notMem hne hmem, List.map_singleton, List.flatMap_singleton,
        rawLines_of_newline_notMem (by simp [hne]) hfirst]
termination_by t.length
decreasing_by
  rw [ht, List.length_append, List.length_cons]
  omega

private theorem unterminated_append (hfeed : '\n' ∉ w) (hreturn : '\r' ∉ w) (raw : Text) :
    unterminated (w ++ raw) = w ++ unterminated raw := by
  cases raw using List.reverseRecOn with
  | nil =>
    have hlast : w.getLast? ≠ some '\n' := fun h => hfeed (List.mem_of_getLast? h)
    rw [List.append_nil, unterminated, if_neg hlast]
    exact (List.append_nil w).symm
  | append_singleton init c =>
    rw [← List.append_assoc, unterminated, unterminated, List.getLast?_concat,
      List.getLast?_concat, List.dropLast_concat, List.dropLast_concat, chop_append hreturn]
    split
    · rfl
    · rw [List.append_assoc]

/-- The lines of a text behind an indentation are its lines, each behind it. -/
theorem lines_reindent (hfeed : '\n' ∉ w) (hreturn : '\r' ∉ w) (t : Text) :
    lines (reindent w t) = t.lines.map (w ++ ·) := by
  rw [lines, rawLines_reindent hfeed, lines, List.map_map, List.map_map]
  exact List.map_congr_left fun raw _ => unterminated_append hfeed hreturn raw

private theorem after?_append_append (w start t : Text) :
    after? (w ++ start) (w ++ t) = after? start t := by
  refine Option.ext fun rest => ?_
  simp only [after?_eq_some, List.append_assoc, List.append_right_inj]

end Text

namespace Line

/-- A line behind what is put before every line of its document. -/
def reindent (w : Text) (l : Line) : Line where
  number := l.number
  start := l.start + (l.number - 1) * w.byteCount
  raw := w ++ l.raw

variable {w : Text}

/-- The text of a line behind an indentation is its text behind it. -/
theorem text_reindent (hfeed : '\n' ∉ w) (hreturn : '\r' ∉ w) (l : Line) :
    (l.reindent w).text = w ++ l.text := by
  rw [text, reindent, Text.chop_append hfeed, Text.chop_append hreturn, text]

private theorem place_reindent (w : Text) (n start : Nat) (raws : List Text) :
    place (n + 1) (start + n * w.byteCount) (raws.map (w ++ ·)) =
      (place (n + 1) start raws).map (reindent w) := by
  induction raws generalizing n start with
  | nil => rfl
  | cons raw rest ih =>
    have hstart : start + n * w.byteCount + (w ++ raw).byteCount =
        start + raw.byteCount + (n + 1) * w.byteCount := by
      rw [Text.byteCount_append, Nat.succ_mul]
      omega
    rw [List.map_cons, place, place, List.map_cons, hstart, ih]
    rfl

/-- The lines of a document move with it. -/
theorem reindent_ofDocument (hw : '\n' ∉ w) (document : Text) :
    ofDocument (Text.reindent w document) = (ofDocument document).map (reindent w) := by
  have hplace := place_reindent w 0 0 document.rawLines
  rw [Nat.zero_mul, Nat.add_zero] at hplace
  rw [ofDocument, Text.rawLines_reindent hw, hplace, ofDocument]

end Line

namespace Zone

/-- A zone behind what is put before every line of its document. -/
def reindent (w : Text) (z : Zone) : Zone where
  marker := z.marker
  text := Text.reindent w z.text
  start := z.start + (z.line - 1) * w.byteCount
  stop := z.start + (z.line - 1) * w.byteCount + (Text.reindent w z.text).byteCount
  line := z.line

/-- The zone of some lines moves with them. -/
theorem after_reindent (w : Text) {n m : Nat} {opener : Line} {content : List Line}
    (hopener : opener.number = n + 1) (hcontent : Line.Run m content) (marker : Text) :
    after (opener.reindent w) marker (content.map (Line.reindent w)) =
      (after opener marker content).reindent w := by
  have htext : (content.map (Line.reindent w)).flatMap Line.raw =
      Text.reindent w (content.flatMap Line.raw) := by
    rw [Text.reindent, hcontent.raw, List.flatMap_map, List.flatMap_map]
    rfl
  have hstart : (opener.reindent w).stop = opener.stop + opener.number * w.byteCount := by
    simp only [Line.reindent, Line.stop, Text.byteCount_append, hopener, Nat.add_sub_cancel,
      Nat.succ_mul]
    omega
  simp only [after, reindent, htext, hstart, Nat.add_sub_cancel]
  rfl

end Zone

namespace Comment

variable {w : Text} {sigil : Text}

/-- A line opens a block behind some spaces as it does without them. -/
theorem opener?_append (hw : ∀ c ∈ w, c = ' ') (line : Text) :
    opener? sigil (w ++ line) = (opener? sigil line).map (w ++ ·) := by
  have hspaces : ∀ c ∈ w, decide (c = ' ') = true := fun c hc => decide_eq_true (hw c hc)
  unfold opener?
  rw [List.dropWhile_append_of_pos hspaces, List.takeWhile_append_of_pos hspaces]
  split <;> rfl

/-- Whether a block goes on does not depend on what stands before all of its lines. -/
theorem continues_append (w indent line : Text) :
    continues sigil (w ++ indent) (w ++ line) = continues sigil indent line := by
  simp only [continues, margin, List.append_assoc]
  rw [Bool.eq_iff_iff, List.isPrefixOf_iff_prefix, List.isPrefixOf_iff_prefix,
    List.prefix_append_right_inj]

/-- The blocks of a header move with it behind spaces. -/
theorem scan_reindent (hw : ∀ c ∈ w, c = ' ') (inside : Option Text) {n : Nat} {ls : List Line}
    (h : Line.Run (n + 1) ls) :
    scan sigil (inside.map (w ++ ·)) (ls.map (Line.reindent w)) =
      (scan sigil inside ls).map (Zone.reindent w) := by
  have hfeed : '\n' ∉ w := fun hmem => absurd (hw _ hmem) (by decide)
  have hreturn : '\r' ∉ w := fun hmem => absurd (hw _ hmem) (by decide)
  have hcontinues (indent : Text) (l : Line) :
      continues sigil (w ++ indent) (l.reindent w).text = continues sigil indent l.text := by
    rw [Line.text_reindent hfeed hreturn, continues_append]
  induction ls generalizing inside n with
  | nil => cases inside <;> rfl
  | cons l rest ih =>
    obtain ⟨hnumber, hrest⟩ := h.cons
    have hinside : (inside.map (w ++ ·)).any (fun indent =>
        continues sigil indent (l.reindent w).text) =
        inside.any fun indent => continues sigil indent l.text := by
      cases inside with
      | none => rfl
      | some indent => exact hcontinues indent l
    rw [List.map_cons, scan, scan, hinside, Line.text_reindent hfeed hreturn, opener?_append hw]
    split
    · exact ih inside hrest
    · cases opener? sigil l.text with
      | none => exact ih none hrest
      | some indent =>
        have htake : ((rest.map (Line.reindent w)).takeWhile fun l =>
            continues sigil (w ++ indent) l.text) =
            (rest.takeWhile fun l => continues sigil indent l.text).map (Line.reindent w) := by
          rw [List.takeWhile_map]
          congr 2
          exact funext (hcontinues indent)
        have hcontent : Line.Run (n + 1 + 1)
            (rest.takeWhile fun l => continues sigil indent l.text) := by
          have happend : rest = _ ++ _ := (List.takeWhile_append_dropWhile
            (p := fun l : Line => continues sigil indent l.text)).symm
          rw [happend] at hrest
          exact hrest.append.1
        simp only [Option.map_some, htake]
        cases hcases : rest.takeWhile fun l => continues sigil indent l.text with
        | nil => exact ih none hrest
        | cons first others =>
          rw [hcases] at hcontent
          have hzone := Zone.after_reindent w hnumber hcontent sigil
          have hlater := ih (some indent) hrest
          simp only [List.map_cons] at hzone ⊢
          rw [hzone, ← hlater]
          rfl

/-- Without a line that opens one there are no blocks. -/
theorem scan_eq_nil {ls : List Line} (h : ∀ l ∈ ls, opener? sigil l.text = none) :
    scan sigil none ls = [] := by
  induction ls with
  | nil => rfl
  | cons l rest ih =>
    have hl : opener? sigil l.text = none := h l List.mem_cons_self
    rw [scan, hl]
    exact ih fun l hl => h l (List.mem_cons_of_mem _ hl)

/-- No line behind a tab opens a block. -/
theorem opener?_of_tab (hw : ∀ c ∈ w, Text.isIndent c = true) (htab : '\t' ∈ w) (line : Text) :
    opener? Example.sigil (w ++ line) = none := by
  have hdrop : ∃ rest, (w ++ line).dropWhile (· = ' ') = '\t' :: rest := by
    induction w with
    | nil => simp at htab
    | cons c w ih =>
      obtain ⟨hc, hmore⟩ := List.forall_mem_cons.mp hw
      simp only [Text.isIndent, Bool.or_eq_true, decide_eq_true_eq] at hc
      rcases hc with rfl | rfl
      · have hrest : '\t' ∈ w := by simpa using htab
        simpa using ih hmore hrest
      · exact ⟨w ++ line, by simp⟩
  obtain ⟨rest, hrest⟩ := hdrop
  rw [opener?, hrest]
  rfl

end Comment

namespace Example

/-- An example behind what is put before every line of its document. -/
def reindent (w : Text) (e : Example) : Example :=
  { e with indent := w ++ e.indent }

variable {w : Text}

private theorem isFiller_append (hw : ∀ c ∈ w, Text.isIndent c = true) (line : Text) :
    isFiller (w ++ line) = isFiller line := by
  have htrim : Text.trim (w ++ line) = Text.trim line := by
    rw [Text.trim, Text.trimStart_append_blanks fun c hc => Text.isBlank_of_isIndent (hw c hc),
      Text.trim]
  rw [isFiller, isFiller, htrim]

/-- What indents a line comes before the indentation that it has. -/
theorem indentOf_append (hw : ∀ c ∈ w, Text.isIndent c = true) (line : Text) :
    indentOf (w ++ line) = w ++ indentOf line := by
  unfold indentOf
  rw [List.takeWhile_append_of_pos hw, List.dropWhile_append_of_pos hw]
  dsimp only
  split <;> simp

private theorem expectation?_append (w indent line : Text) :
    expectation? (w ++ indent) (w ++ line) = expectation? indent line := by
  rw [expectation?, expectation?, Text.after?_append_append]

private theorem code?_append_append (hw : ∀ c ∈ w, Text.isIndent c = true) (indent line : Text) :
    code? (w ++ indent) (w ++ line) = code? indent line := by
  rw [code?, code?, isFiller_append hw, expectation?_append, Text.after?_append_append]

private theorem takeSome_map {α β γ : Type} (f : β → Option γ) (g : α → β) (l : List α) :
    takeSome f (l.map g) = takeSome (f ∘ g) l := by
  induction l with
  | nil => rfl
  | cons a rest ih => simp only [List.map_cons, takeSome, Function.comp_apply, ih]

private theorem dropSome_map {α β γ : Type} (f : β → Option γ) (g : α → β) (l : List α) :
    dropSome f (l.map g) = (dropSome (f ∘ g) l).map g := by
  induction l with
  | nil => rfl
  | cons a rest ih =>
    simp only [List.map_cons, dropSome, Function.comp_apply, ih]
    split <;> rfl

/-- What is read off lines does not change behind an indentation, but for the indentation. -/
theorem ofLines_reindent (hw : ∀ c ∈ w, Text.isIndent c = true) (n : Nat) (lines : List Text) :
    ofLines n (lines.map (w ++ ·)) = (ofLines n lines).map (List.map (reindent w)) := by
  induction n, lines using ofLines.induct with
  | case1 n => simp [ofLines, Except.map]
  | case2 n line rest hfiller ih =>
    have hfiller' : isFiller (w ++ line) = true := by rwa [isFiller_append hw]
    rw [List.map_cons, ofLines_of_isFiller hfiller', ofLines_of_isFiller hfiller, ih]
  | case3 n line rest hfiller text htext =>
    have hfiller' : ¬isFiller (w ++ line) = true := by rwa [isFiller_append hw]
    have htext' : expectation? (indentOf (w ++ line)) (w ++ line) = some text := by
      rwa [indentOf_append hw, expectation?_append]
    rw [List.map_cons, ofLines_of_output hfiller' htext', ofLines_of_output hfiller htext]
    rfl
  | case4 n line rest hfiller hnone indent snippet afterCode expected later ih =>
    have hfiller' : ¬isFiller (w ++ line) = true := by rwa [isFiller_append hw]
    have hnone' : expectation? (indentOf (w ++ line)) (w ++ line) = none := by
      rwa [indentOf_append hw, expectation?_append]
    have hcode : code? (indentOf (w ++ line)) ∘ (w ++ ·) = code? indent := by
      rw [indentOf_append hw]
      exact funext (code?_append_append hw indent)
    have hexpected : expectation? (indentOf (w ++ line)) ∘ (w ++ ·) = expectation? indent := by
      rw [indentOf_append hw]
      exact funext (expectation?_append w indent)
    have hfirst : (w ++ line).drop (indentOf (w ++ line)).length = line.drop indent.length := by
      rw [indentOf_append hw, List.length_append, List.drop_length_add_append]
    rw [List.map_cons, ofLines_of_code hfiller' hnone', ofLines_of_code hfiller hnone]
    simp only [takeSome_map, dropSome_map, hcode, hexpected, hfirst]
    rw [ih]
    cases ofLines (n + snippet.length + expected.length) later with
    | error e => rfl
    | ok others =>
      simp only [Except.map, List.map_cons, reindent, indentOf_append hw]
      rfl

/-- The examples of a zone behind an indentation are those of the zone, behind it. -/
theorem ofZone_reindent (hw : ∀ c ∈ w, Text.isIndent c = true) (z : Zone) :
    ofZone (z.reindent w) = (ofZone z).map (List.map (reindent w)) := by
  have hfeed := Text.notMem_of_isIndent hw (c := '\n') (by decide)
  have hreturn := Text.notMem_of_isIndent hw (c := '\r') (by decide)
  rw [ofZone, Zone.reindent]
  dsimp only
  rw [Text.lines_reindent hfeed hreturn, ofLines_reindent hw, ofZone]

end Example

namespace Extraction

/-- What is found in a document behind what is put before every line. -/
def reindent (w : Text) (x : Extraction) : Extraction :=
  { x with examples := x.examples.map (Example.reindent w) }

variable {w : Text}

/-- So are the examples of several zones, and their errors stay. -/
theorem ofZones_reindent (hw : ∀ c ∈ w, Text.isIndent c = true) (zones : List Zone) :
    ofZones (zones.map (Zone.reindent w)) = (ofZones zones).reindent w := by
  have hzone (z : Zone) : Example.ofZone (z.reindent w) =
      ((Example.ofZone z).map (List.map (Example.reindent w))).mapError id := by
    rw [Example.ofZone_reindent hw]
    cases Example.ofZone z <;> rfl
  rw [ofZones_map hzone, List.map_id, reindent]

/-- A header behind an indentation has the same examples and errors, under a longer indentation,
if that is made of spaces. Behind a tab it has none. -/
theorem ofDocument_reindent (hw : ∀ c ∈ w, Text.isIndent c = true) (document : Text) :
    ofDocument .header (Text.reindent w document) =
      if '\t' ∈ w then {} else (ofDocument .header document).reindent w := by
  have hfeed := Text.notMem_of_isIndent hw (c := '\n') (by decide)
  have hreturn := Text.notMem_of_isIndent hw (c := '\r') (by decide)
  have hlines := Line.reindent_ofDocument hfeed document
  have hheader (d : Text) : ofDocument .header d =
      { ofZones (Comment.scan Example.sigil none (Line.ofDocument d)) with
        errors := (ofZones (Comment.scan Example.sigil none (Line.ofDocument d))).errors.mergeSort
          (·.line ≤ ·.line) } := rfl
  split
  · next htab =>
    have hscan : Comment.scan Example.sigil none (Line.ofDocument (Text.reindent w document)) =
        [] := by
      rw [hlines]
      apply Comment.scan_eq_nil
      intro l hl
      obtain ⟨l, -, rfl⟩ := List.mem_map.mp hl
      rw [Line.text_reindent hfeed hreturn, Comment.opener?_of_tab hw htab]
    rw [hheader, hscan]
    simp [ofZones]
  · next htab =>
    have hspaces : ∀ c ∈ w, c = ' ' := by
      intro c hc
      have hindent := hw c hc
      simp only [Text.isIndent, Bool.or_eq_true, decide_eq_true_eq] at hindent
      rcases hindent with h | rfl
      · exact h
      · exact absurd hc htab
    have hscan : Comment.scan Example.sigil none
        ((Line.ofDocument document).map (Line.reindent w)) =
          (Comment.scan Example.sigil none (Line.ofDocument document)).map (Zone.reindent w) :=
      Comment.scan_reindent hspaces none (Line.Run.ofDocument document)
    rw [← hlines] at hscan
    rw [hheader, hscan, ofZones_reindent hw, hheader]
    rfl

/-- The example of a header is found behind spaces. -/
theorem ofDocument_reindent_spaces :
    ofDocument .header "  ///\n  ///     1 + 1\n  ///     // -> 2\n".toList =
      { examples := [⟨"  ///     ".toList, ["1 + 1".toList], ["2".toList], 2⟩] } := by
  have h := @ofDocument_reindent "  ".toList (by simp [Text.isIndent])
    "///\n///     1 + 1\n///     // -> 2\n".toList
  rw [if_neg (by decide)] at h
  exact h.trans (by decide +kernel)

/-- Not every indentation of a header keeps its examples: behind a tab one is lost. -/
theorem not_forall_ofDocument_reindent :
    ¬∀ w document, (∀ c ∈ w, Text.isIndent c = true) →
      ofDocument .header (Text.reindent w document) = (ofDocument .header document).reindent w := by
  intro h
  have htab := h ['\t'] "///\n///     1 + 1\n///     // -> 2\n".toList
    (by simp [Text.isIndent])
  revert htab
  decide +kernel

end Extraction

end Literate
