import Mathlib.Data.List.Induction
import Mathlib.Data.List.TakeWhile
import Literate.Proofs.Document.Blocks
import Literate.Proofs.Document.Fidelity
import Literate.Request

/-!
# No line of code is lost on its way to the engine

A request is cut into lines again, and empty lines are left out. Nothing of an example is lost by
that: a line of code is a line of its document without the indentation, so it holds no line feed,
and it is not empty, since an indentation alone is a line without code. Every line of an example is
therefore a definition or a line of the block, once and as it stands, but for the last line of the
block where that is printed.
-/

namespace Literate

namespace Text

/-- Lines are read back from the text that they make. -/
theorem splitOn_unlines {ls : List Text} (hne : ls ≠ []) (h : ∀ l ∈ ls, '\n' ∉ l) :
    (unlines ls).splitOn '\n' = ls :=
  List.splitOn_intercalate '\n' h hne

/-- A line holds no line feed. -/
theorem newline_notMem_of_mem_splitOn {l t : Text} (h : l ∈ t.splitOn '\n') : '\n' ∉ l := by
  induction t generalizing l with
  | nil =>
    rw [List.splitOn_nil, List.mem_singleton] at h
    rw [h]
    exact List.not_mem_nil
  | cons c rest ih =>
    rw [List.splitOn_cons_eq_if_modifyHead] at h
    split at h
    · rcases List.mem_cons.mp h with rfl | h
      · exact List.not_mem_nil
      · exact ih h
    · next hc =>
      obtain ⟨first, later, hrest⟩ := List.exists_cons_of_ne_nil (List.splitOn_ne_nil '\n' rest)
      rw [hrest] at h ih
      rcases List.mem_cons.mp h with rfl | h
      · have hne : '\n' ≠ c := fun heq => hc (beq_iff_eq.mpr heq.symm)
        exact List.not_mem_cons_of_ne_of_not_mem hne (ih List.mem_cons_self)
      · exact ih (List.mem_cons_of_mem _ h)

end Text

namespace Example

/-- The indentation of a line is one. -/
theorem indentation_indentOf (line : Text) : Indentation (indentOf line) := by
  have hleading : ∀ c ∈ line.takeWhile Text.isIndent, Text.isIndent c = true := fun c hc =>
    List.mem_takeWhile_imp hc
  unfold indentOf
  dsimp only
  split
  · exact .sign hleading fun c hc => List.mem_takeWhile_imp hc
  · exact .blank hleading

/-- An indentation alone is a line without code. -/
theorem Indentation.isFiller {indent : Text} (h : Indentation indent) :
    Example.isFiller indent = true := by
  have hblank {t : Text} (ht : ∀ c ∈ t, Text.isIndent c = true) : ∀ c ∈ t, Text.isBlank c = true :=
    fun c hc => Text.isBlank_of_isIndent (ht c hc)
  cases h with
  | blank h =>
    have htrim : Text.trim indent = [] := by
      rw [← List.append_nil indent, Text.trim, Text.trimStart_append_blanks (hblank h)]
      rfl
    rw [Example.isFiller, htrim]
    rfl
  | @sign leading more h hmore =>
    have hmore : ∀ c ∈ ' ' :: more, Text.isBlank c = true :=
      List.forall_mem_cons.mpr ⟨by decide, hblank hmore⟩
    have htrim : Text.trim (leading ++ sigil ++ ' ' :: more) = sigil := by
      rw [Text.trim, List.append_assoc, Text.trimStart_append_blanks (hblank h)]
      exact Text.trimEnd_append_blanks hmore sigil
    rw [Example.isFiller, htrim]
    rfl

private theorem exists_of_mem_takeSome {α β : Type} {f : α → Option β} {l : List α} {b : β}
    (h : b ∈ takeSome f l) : ∃ a ∈ l, f a = some b := by
  induction l with
  | nil => simp [takeSome] at h
  | cons a rest ih =>
    cases ha : f a with
    | none => simp [takeSome, ha] at h
    | some value =>
      simp only [takeSome, ha, List.mem_cons] at h
      rcases h with rfl | h
      · exact ⟨a, List.mem_cons_self, ha⟩
      · obtain ⟨x, hx, hfx⟩ := ih h
        exact ⟨x, List.mem_cons_of_mem _ hx, hfx⟩

/-- Code is not empty. -/
theorem ne_nil_of_code? {indent line text : Text} (h : Indentation indent)
    (hcode : code? indent line = some text) : text ≠ [] := by
  rintro rfl
  have hline : line = indent := by simpa using code?_eq_some hcode
  rw [hline, code?_of_isFiller h.isFiller] at hcode
  cases hcode

/-- No line of the code that is read off some lines is empty. -/
theorem ne_nil_of_mem_snippet {n : Nat} {lines : List Text} {examples : List Example}
    (h : ofLines n lines = .ok examples) : ∀ e ∈ examples, ∀ l ∈ e.snippet, l ≠ [] := by
  induction n, lines using ofLines.induct generalizing examples with
  | case1 n =>
    rw [ofLines] at h
    cases h
    simp
  | case2 n line rest hfiller ih =>
    rw [ofLines_of_isFiller hfiller] at h
    exact ih h
  | case3 n line rest hfiller text htext =>
    rw [ofLines_of_output hfiller htext] at h
    cases h
  | case4 n line rest hfiller hnone indent snippet afterCode expected later =>
    rename_i ih
    rw [ofLines_of_code hfiller hnone] at h
    obtain ⟨others, hothers, rfl⟩ := map_eq_ok.mp h
    have hindent : Indentation indent := indentation_indentOf line
    have hfirst : line.drop indent.length ≠ [] := by
      intro hnil
      have hline := indentOf_append_drop line
      rw [hnil, List.append_nil] at hline
      exact hfiller (hline ▸ hindent.isFiller)
    have hcode : ∀ l ∈ takeSome (code? indent) rest, l ≠ [] := by
      intro l hl
      obtain ⟨source, -, hsource⟩ := exists_of_mem_takeSome hl
      exact ne_nil_of_code? hindent hsource
    exact List.forall_mem_cons.mpr ⟨List.forall_mem_cons.mpr ⟨hfirst, hcode⟩, ih hothers⟩

end Example

namespace Extraction

/-- No line of code of a document is empty or broken. -/
theorem ne_nil_and_newline_notMem {kind : DocumentKind} {document : Text} {e : Example}
    (he : e ∈ (ofDocument kind document).examples) :
    e.snippet ≠ [] ∧ ∀ l ∈ e.snippet, l ≠ [] ∧ '\n' ∉ l := by
  have hstands : e.StandsIn document.lines :=
    (kind.delimiters.cover_scan document).laid.standsIn [] rfl e he
  refine ⟨hstands.snippet_ne_nil, fun l hl => ⟨?_, ?_⟩⟩
  · obtain ⟨z, -, own, hown, hmem⟩ := mem_ofZones.mp he
    exact Example.ne_nil_of_mem_snippet hown e hmem l hl
  · obtain ⟨k, hk, rfl⟩ := List.mem_iff_getElem.mp hl
    have hline := Text.newline_notMem_of_mem_lines (List.mem_of_getElem? (hstands.code k hk))
    exact fun hmem => hline (List.mem_append_right _ hmem)

end Extraction

namespace Preparation

/-- The statement that sets the number format is one line. -/
theorem newline_notMem_formatStatement (p : Preparation) : '\n' ∉ p.formatStatement := by
  have hstart : '\n' ∉ "std::cout << std::setprecision(".toList := by decide
  have hdigits : '\n' ∉ Decimal.ofNat p.precision := fun h =>
    absurd (Decimal.isDigit_of_mem_ofNat h) (by decide)
  have hend : '\n' ∉ ");".toList := by decide
  exact List.not_mem_append (List.not_mem_append hstart hdigits) hend

private theorem newline_notMem_completed {line : Text} (h : '\n' ∉ line) :
    '\n' ∉ completed line := by
  unfold completed
  split
  · exact h
  · simp [h]

/-- Only the last lines of a block are ever completed. -/
theorem completeLast_append {last : List Text} (h : last ≠ []) (init : List Text) :
    completeLast (init ++ last) = init ++ completeLast last := by
  induction init with
  | nil => rfl
  | cons line rest ih =>
    obtain ⟨next, later, hrest⟩ : ∃ next later, rest ++ last = next :: later :=
      List.exists_cons_of_ne_nil (by simp [h])
    rw [List.cons_append, hrest, completeLast, ← hrest, ih, List.cons_append]
    simp

/-- The last line of a block is the one that is completed. -/
theorem completeLast_append_singleton (init : List Text) (last : Text) :
    completeLast (init ++ [last]) = init ++ [completed last] :=
  completeLast_append (List.cons_ne_nil _ _) init

/-- The lines of a block are its statements, the last of them completed. -/
theorem splitOn_unlines_completeLast {init : List Text} {last : Text}
    (hinit : ∀ l ∈ init, '\n' ∉ l) (hlast : '\n' ∉ last) :
    (Text.unlines (completeLast (init ++ [last]))).splitOn '\n' = init ++ [completed last] := by
  rw [completeLast_append_singleton]
  apply Text.splitOn_unlines (by simp)
  intro l hl
  rcases List.mem_append.mp hl with hl | hl
  · exact hinit l hl
  · rw [List.mem_singleton.mp hl]
    exact newline_notMem_completed hlast

/-- Every line of code of an example of a document is a definition, which is made before the one
that is always made, or a line of the block after the statement that sets the number format, in
order and as it stands. Only the last line of the block is printed, where it is no statement. -/
theorem prepare_ofDocument {kind : DocumentKind} {document : Text} {e : Example}
    (he : e ∈ (Extraction.ofDocument kind document).examples) (p : Preparation) :
    let prepared := p.prepare (Request.ofExample e)
    let code := e.snippet.filter fun l => !p.isDefinition l
    prepared.definitions = e.snippet.filter p.isDefinition ++ [p.baseline] ∧
      (code = [] ∧ prepared.block.splitOn '\n' = [p.formatStatement] ∨
        ∃ init last, code = init ++ [last] ∧
          prepared.block.splitOn '\n' = p.formatStatement :: (init ++
            [if last.getLast? = some ';' then last
              else "std::cout << std::boolalpha << (".toList ++ last ++ ");".toList])) := by
  obtain ⟨hne, hlines⟩ := Extraction.ne_nil_and_newline_notMem he
  intro prepared code
  have hsplit : (Request.ofExample e).code.splitOn '\n' = e.snippet :=
    Text.splitOn_unlines hne fun l hl => (hlines l hl).2
  have hcode : (e.snippet.filter fun l => l ≠ [] && !p.isDefinition l) = code :=
    List.filter_congr fun l hl => by simp [(hlines l hl).1]
  have hfeed : ∀ l ∈ code, '\n' ∉ l := fun l hl => (hlines l (List.mem_of_mem_filter hl)).2
  have hblock : prepared.block = Text.unlines (completeLast (p.formatStatement :: code)) := by
    simp only [prepared, prepare, statements, hsplit, hcode]
  refine ⟨by simp only [prepared, prepare, definitions, hsplit], ?_⟩
  rw [hblock]
  cases hcases : code using List.reverseRecOn with
  | nil =>
    left
    have h := splitOn_unlines_completeLast (List.forall_mem_nil _) p.newline_notMem_formatStatement
    rw [completed, if_pos p.getLast?_formatStatement] at h
    exact ⟨rfl, h⟩
  | append_singleton init last =>
    right
    rw [hcases] at hfeed
    refine ⟨init, last, rfl, ?_⟩
    have hinit : ∀ l ∈ p.formatStatement :: init, '\n' ∉ l :=
      List.forall_mem_cons.mpr ⟨p.newline_notMem_formatStatement, fun l hl =>
        hfeed l (List.mem_append_left _ hl)⟩
    exact splitOn_unlines_completeLast hinit (hfeed last (by simp))

/-- A document with a definition, a statement and an expression, which is printed. -/
theorem prepare_ofDocument_markdown :
    let e : Example := ⟨[], ["#include <cmath>".toList, "int x;".toList, "x".toList], [], 2⟩
    let prepared := ({} : Preparation).prepare (Request.ofExample e)
    e ∈ (Extraction.ofDocument .markdown
        "```cpp\n#include <cmath>\nint x;\nx\n```\n".toList).examples ∧
      prepared.definitions = ["#include <cmath>".toList, "#include <iostream>".toList] ∧
      prepared.block.splitOn '\n' = ["std::cout << std::setprecision(6);".toList, "int x;".toList,
        "std::cout << std::boolalpha << (x);".toList] := by
  intro e prepared
  have he : e ∈ (Extraction.ofDocument .markdown
      "```cpp\n#include <cmath>\nint x;\nx\n```\n".toList).examples := by
    decide +kernel
  obtain ⟨hdefinitions, ⟨hnil, -⟩ | ⟨init, last, hcode, hblock⟩⟩ := prepare_ofDocument he {}
  · exact absurd hnil (by decide)
  · have hlines : ["int x;".toList] ++ ["x".toList] = init ++ [last] := hcode
    obtain ⟨rfl, hlast⟩ := List.append_inj' hlines rfl
    cases hlast
    exact ⟨he, hdefinitions, hblock⟩

end Preparation

end Literate
