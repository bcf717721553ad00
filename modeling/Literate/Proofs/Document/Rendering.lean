import Literate.Proofs.Document.Blocks

/-!
# Extraction undoes rendering

A Markdown document that is one fenced block of written examples gives these examples back, with
the numbers of the lines on which they stand. The fence is found again as long as no line between
closes it, and the lines of the block are those that were written.
-/

namespace Literate

namespace Fence

/-- Some lines in a block of this fence with a tag after its opening. The last line is not ended. -/
def wrap (f : Fence) (tag : Text) (lines : List Text) : Text :=
  (f.text ++ tag).ended ++ (lines.flatMap Text.ended ++ f.text)

variable {f : Fence}

/-- A fence character is neither blank nor a part of a word or a comment sign. -/
theorem ne_of_isMark {c d : Char} (hc : isMark c = true) (hd : d ≠ '\x60' ∧ d ≠ '~') : c ≠ d := by
  rintro rfl
  simp only [isMark, Bool.or_eq_true, decide_eq_true_eq] at hc
  rcases hc with hc | hc
  · exact hd.1 hc
  · exact hd.2 hc

/-- A fence character is not blank. -/
theorem isBlank_of_isMark {c : Char} (hc : isMark c = true) : Text.isBlank c = false := by
  simp only [isMark, Bool.or_eq_true, decide_eq_true_eq] at hc
  rcases hc with rfl | rfl <;> decide

/-- A run of fence characters is split from what follows it. -/
theorem takeWhile_text_append (f : Fence) {rest : Text}
    (hrest : ∀ c ∈ rest.head?, c ≠ f.mark) :
    (f.text ++ rest).takeWhile (· = f.mark) = f.text ∧
      (f.text ++ rest).dropWhile (· = f.mark) = rest :=
  Text.takeWhile_dropWhile_append (by simp [text]) (by simpa using hrest)

/-- A fence begins where its marks do. -/
theorem unindented_text_append (hmark : isMark f.mark = true) (hlength : 3 ≤ f.length)
    (rest : Text) : unindented (f.text ++ rest) = f.text ++ rest := by
  obtain ⟨mark, length⟩ := f
  obtain ⟨k, rfl⟩ := Nat.exists_eq_add_of_le' hlength
  have hspace : mark ≠ ' ' := ne_of_isMark hmark (by decide)
  simp [unindented, text, List.replicate_succ, hspace]

/-- A line with the run of a fence opens it. -/
theorem ofLine?_text_append (hmark : isMark f.mark = true) (hlength : 3 ≤ f.length) {rest : Text}
    (hrest : ∀ c ∈ rest.head?, c ≠ f.mark) : ofLine? (f.text ++ rest) = some (f, rest) := by
  have hindent := unindented_text_append hmark hlength rest
  obtain ⟨mark, length⟩ := f
  obtain ⟨k, rfl⟩ := Nat.exists_eq_add_of_le' hlength
  obtain ⟨htake, hdrop⟩ := takeWhile_text_append ⟨mark, k + 2⟩ hrest
  have hlines : text ⟨mark, k + 3⟩ ++ rest = mark :: (text ⟨mark, k + 2⟩ ++ rest) := rfl
  have hcount : (text ⟨mark, k + 2⟩).length + 1 = k + 3 := by simp [text]
  rw [hlines] at hindent ⊢
  rw [ofLine?, hindent]
  dsimp only at htake hdrop ⊢
  rw [htake, hdrop, hcount]
  exact if_pos ⟨hmark, by omega⟩

/-- A line with nothing but the run of a fence closes it. -/
theorem closedBy_text (hmark : isMark f.mark = true) (hlength : 3 ≤ f.length) :
    f.closedBy f.text = true := by
  have hindent := unindented_text_append hmark hlength []
  obtain ⟨htake, hdrop⟩ := @takeWhile_text_append f [] (by simp)
  rw [List.append_nil] at hindent htake hdrop
  rw [closedBy, hindent, htake, hdrop]
  simp [text]

/-- A line of blanks and comment signs closes no fence. -/
theorem closedBy_of_isFiller (hmark : isMark f.mark = true) (hlength : 3 ≤ f.length) {line : Text}
    (h : Example.isFiller line = true) : f.closedBy line = false := by
  have hrun : (unindented line).takeWhile (· = f.mark) = [] := by
    cases hline : unindented line with
    | nil => rfl
    | cons c rest =>
      have hc : c ∈ line := (List.dropWhile_sublist _).subset (hline ▸ List.mem_cons_self)
      have hne : c ≠ f.mark := by
        rintro rfl
        rcases Example.isBlank_of_mem_filler h hc with hblank | hslash
        · simp [isBlank_of_isMark hmark] at hblank
        · exact ne_of_isMark hmark (by decide) hslash
      simp [hne]
  have hshort : ¬0 = f.length := by omega
  rw [closedBy, hrun]
  simp [hshort]

/-- The lines of a block are passed over up to the one that closes it. -/
theorem scan_some_append (languages : List Text) {content : List Line}
    (h : ∀ l ∈ content, f.closedBy l.text = false) (more : List Line) :
    scan languages (some f) (content ++ more) = scan languages (some f) more := by
  induction content with
  | nil => rfl
  | cons l content ih =>
    have hl : f.closedBy l.text = false := h l List.mem_cons_self
    rw [List.cons_append, scan, hl]
    exact ih fun l hl => h l (List.mem_cons_of_mem _ hl)

/-- The line that closes a block ends it. -/
theorem scan_some_closed (languages : List Text) {content : List Line} {closer : Line}
    (h : ∀ l ∈ content, f.closedBy l.text = false) (hclose : f.closedBy closer.text = true)
    (rest : List Line) :
    scan languages (some f) (content ++ closer :: rest) = scan languages none rest := by
  rw [scan_some_append languages h, scan, hclose]
  rfl

/-- A fenced block of lines that do not close it is one zone. -/
theorem scan_block {languages : List Text} {opener closer : Line} {content : List Line}
    (hopen : opener? languages opener.text = some f)
    (hcontent : ∀ l ∈ content, f.closedBy l.text = false)
    (hclose : f.closedBy closer.text = true) (rest : List Line) :
    scan languages none (opener :: (content ++ closer :: rest)) =
      { scan languages none rest with
        zones := Zone.after opener f.text content :: (scan languages none rest).zones } := by
  have hany : ((content ++ closer :: rest).any fun l => f.closedBy l.text) = true := by
    simp [hclose]
  have htake : ((content ++ closer :: rest).takeWhile fun l => !f.closedBy l.text) = content := by
    rw [List.takeWhile_append_of_pos (by simpa using hcontent)]
    simp [hclose]
  rw [scan, hopen]
  simp only [hany, htake, scan_some_closed languages hcontent hclose, ↓reduceIte]

private theorem notMem_text (hmark : isMark f.mark = true) {d : Char} (hd : d ≠ '\x60' ∧ d ≠ '~') :
    d ∉ f.text := by
  intro h
  exact ne_of_isMark hmark hd (List.eq_of_mem_replicate h).symm

/-- The raw lines of a fenced block. -/
theorem rawLines_wrap (hmark : isMark f.mark = true) (hlength : 3 ≤ f.length) {tag tail : Text}
    {lines : List Text} (htag : '\n' ∉ tag) (hlines : ∀ l ∈ lines, '\n' ∉ l)
    (htail : tail = [] ∨ tail = ['\n']) :
    Text.rawLines (f.wrap tag lines ++ tail) =
      (f.text ++ tag).ended :: (lines.map Text.ended ++ [f.text ++ tail]) := by
  have htext : '\n' ∉ f.text := notMem_text hmark (by decide)
  have hne : f.text ≠ [] := by
    intro h
    have hzero : f.text.length = 0 := by rw [h]; rfl
    rw [text, List.length_replicate] at hzero
    omega
  have hlast : Text.rawLines (f.text ++ tail) = [f.text ++ tail] := by
    rcases htail with rfl | rfl
    · rw [List.append_nil]
      exact Text.rawLines_of_newline_notMem hne htext
    · have hcut := @Text.rawLines_flatMap_ended [f.text] (by simpa using htext) []
      simpa [Text.ended] using hcut
  have hall : ∀ l ∈ (f.text ++ tag) :: lines, '\n' ∉ l := by
    intro l hl
    rcases List.mem_cons.mp hl with rfl | hl
    · simp [htext, htag]
    · exact hlines l hl
  have hcut := Text.rawLines_flatMap_ended hall (f.text ++ tail)
  rw [hlast, List.flatMap_cons, List.map_cons, List.cons_append] at hcut
  rw [← hcut, wrap]
  simp only [List.append_assoc]

end Fence

namespace Line

/-- The text of a line that ends is what stands before its end. -/
theorem text_of_raw_ended {l : Line} {t : Text} (h : l.raw = t.ended) : l.text = t.chop '\r' := by
  rw [text, h]
  simp [Text.ended, Text.chop]

/-- The line that closes a fence, with or without a line feed. -/
theorem text_of_raw_fence {f : Fence} (hmark : Fence.isMark f.mark = true) {l : Line} {tail : Text}
    (h : l.raw = f.text ++ tail) (htail : tail = [] ∨ tail = ['\n']) : l.text = f.text := by
  have hfeed : f.text.getLast? ≠ some '\n' := fun h =>
    Fence.notMem_text hmark (by decide) (List.mem_of_getLast? h)
  have hreturn : f.text.getLast? ≠ some '\r' := fun h =>
    Fence.notMem_text hmark (by decide) (List.mem_of_getLast? h)
  rcases htail with rfl | rfl
  · rw [text, h, List.append_nil, Text.chop_of_getLast?_ne hfeed, Text.chop_of_getLast?_ne hreturn]
  · rw [text_of_raw_ended h, Text.chop_of_getLast?_ne hreturn]

/-- The lines of a fenced block: the one that opens it, the content, and the one that closes it. -/
theorem ofDocument_wrap {f : Fence} (hmark : Fence.isMark f.mark = true) (hlength : 3 ≤ f.length)
    {tag tail : Text} {lines : List Text} (htag : '\n' ∉ tag) (hlines : ∀ l ∈ lines, '\n' ∉ l)
    (htail : tail = [] ∨ tail = ['\n']) :
    ∃ opener content closer,
      ofDocument (f.wrap tag lines ++ tail) = opener :: (content ++ [closer]) ∧
        opener.number = 1 ∧ opener.raw = (f.text ++ tag).ended ∧
        content.map raw = lines.map Text.ended ∧ closer.raw = f.text ++ tail := by
  have hraw := Fence.rawLines_wrap hmark hlength htag hlines htail
  have hplace : ofDocument (f.wrap tag lines ++ tail) =
      place 1 0 ((f.text ++ tag).ended :: (lines.map Text.ended ++ [f.text ++ tail])) := by
    rw [ofDocument, hraw]
  rw [place, place_append, place, place] at hplace
  exact ⟨_, _, _, hplace, rfl, rfl, map_raw_place _ _ _, rfl⟩

end Line

namespace Extraction

/-- A Markdown document that is one block of C++ lines holds the examples of these lines. -/
theorem ofDocument_wrap {f : Fence} (hmark : Fence.isMark f.mark = true) (hlength : 3 ≤ f.length)
    {lines : List Text} {tail : Text} (hlines : ∀ l ∈ lines, '\n' ∉ l)
    (hopen : ∀ l ∈ lines, f.closedBy (l.chop '\r') = false)
    (htail : tail = [] ∨ tail = ['\n']) {examples : List Example}
    (h : Example.ofLines 2 (lines.map (Text.chop '\r')) = .ok examples) :
    ofDocument .markdown (f.wrap "cpp".toList lines ++ tail) = { examples } := by
  obtain ⟨opener, content, closer, hdocument, hnumber, hopener, hcontent, hcloser⟩ :=
    Line.ofDocument_wrap hmark hlength (by decide : '\n' ∉ "cpp".toList) hlines htail
  have hopens : Fence.opener? ["c".toList, "c++".toList, "cpp".toList] opener.text = some f := by
    have htext : opener.text = f.text ++ "cpp".toList := by
      rw [Line.text_of_raw_ended hopener]
      exact Text.chop_of_getLast?_ne (by simp)
    have hhead : ∀ c ∈ "cpp".toList.head?, c ≠ f.mark := by
      rintro c ⟨⟩
      exact (Fence.ne_of_isMark hmark (by decide)).symm
    have haccepts : Fence.accepts ["c".toList, "c++".toList, "cpp".toList] "cpp".toList = true := by
      decide
    rw [Fence.opener?, htext, Fence.ofLine?_text_append hmark hlength hhead]
    exact if_pos haccepts
  have hinside : ∀ l ∈ content, f.closedBy l.text = false := by
    intro l hl
    have hmem : l.raw ∈ lines.map Text.ended := hcontent ▸ List.mem_map_of_mem hl
    obtain ⟨t, ht, hraw⟩ := List.mem_map.mp hmem
    rw [Line.text_of_raw_ended hraw.symm]
    exact hopen t ht
  have hcloses : f.closedBy closer.text = true := by
    rw [Line.text_of_raw_fence hmark hcloser htail]
    exact Fence.closedBy_text hmark hlength
  have hzone : Example.ofZone (Zone.after opener f.text content) = .ok examples := by
    have hcut := Text.rawLines_flatMap_ended hlines []
    have htext : (Zone.after opener f.text content).text.lines = lines.map (Text.chop '\r') := by
      rw [Zone.after, Text.lines, List.flatMap_def, hcontent, ← List.flatMap_def]
      rw [List.append_nil] at hcut
      rw [hcut]
      simp
    have hline : (Zone.after opener f.text content).line = 2 := congrArg (· + 1) hnumber
    rw [Example.ofZone, htext, hline, h]
  have hscan := Fence.scan_block hopens hinside hcloses []
  rw [← hdocument] at hscan
  have hfound : ofZones [Zone.after opener f.text content] = { examples } := by
    rw [ofZones, hzone]
    simp [ofZones]
  have hzones : DocumentKind.markdown.delimiters.scan (f.wrap "cpp".toList lines ++ tail) =
      { zones := [Zone.after opener f.text content] } := hscan
  rw [ofDocument, hzones]
  simp [hfound]

/-- Well-formed examples, written into a block of C++ with lines without code between them, are
the examples of the document, with the numbers of the lines on which they stand. -/
theorem ofDocument_render {f : Fence} {items : List (Example × List Text)} {tail : Text}
    (hmark : Fence.isMark f.mark = true) (hlength : 3 ≤ f.length)
    (hitems : ∀ x ∈ items, x.1.WellFormed)
    (hgaps : ∀ x ∈ items, ∀ l ∈ x.2, Example.isFiller l = true ∧ '\n' ∉ l)
    (hapart : ∀ x ∈ items.dropLast, x.2 ≠ [])
    (hopen : ∀ l ∈ Example.renderAll items, f.closedBy l = false)
    (htail : tail = [] ∨ tail = ['\n']) :
    ofDocument .markdown (f.wrap "cpp".toList (Example.renderAll items) ++ tail) =
      { examples := Example.placeAll 2 items, errors := [] } := by
  have hfiller : ∀ x ∈ items, ∀ l ∈ x.2, Example.isFiller (l.chop '\r') = true := by
    intro x hx l hl
    rw [Example.isFiller_chop]
    exact (hgaps x hx l hl).1
  refine ofDocument_wrap hmark hlength (fun l hl => ?_) (fun l hl => ?_) htail ?_
  · obtain ⟨x, hx, hl | hl⟩ := Example.mem_renderAll.mp hl
    · exact ((hitems x hx).unbroken_render l hl).1
    · exact (hgaps x hx l hl).2
  · obtain ⟨x, hx, hmem | hmem⟩ := Example.mem_renderAll.mp hl
    · rw [Text.chop_of_getLast?_ne ((hitems x hx).unbroken_render l hmem).2]
      exact hopen l hl
    · exact Fence.closedBy_of_isFiller hmark hlength (hfiller x hx l hmem)
  · rw [Example.map_chop_renderAll hitems, ← Example.placeAll_chopGaps]
    apply Example.ofLines_renderAll
    · intro x hx
      obtain ⟨y, hy, rfl⟩ := List.mem_map.mp hx
      exact hitems y hy
    · intro x hx l hl
      obtain ⟨y, hy, rfl⟩ := List.mem_map.mp hx
      obtain ⟨t, ht, rfl⟩ := List.mem_map.mp hl
      exact hfiller y hy t ht
    · intro x hx
      rw [Example.chopGaps, ← List.map_dropLast] at hx
      obtain ⟨y, hy, rfl⟩ := List.mem_map.mp hx
      simpa using hapart y hy

/-- Two written examples, one of them under a comment sign, are read back. -/
theorem ofDocument_render_pair :
    ofDocument .markdown "```cpp\nint x = 1;\n\n/// x\n/// // -> 1\n```\n".toList =
      { examples := [⟨[], ["int x = 1;".toList], [], 2⟩,
          ⟨"/// ".toList, ["x".toList], ["1".toList], 4⟩],
        errors := [] } := by
  have hfirst : Example.WellFormed ⟨[], ["int x = 1;".toList], [], 0⟩ :=
    ⟨.blank (by simp), by simp, by decide, by decide, by simp [Text.isIndent],
      fun _ => by simp [Example.sigil]⟩
  have hsecond : Example.WellFormed ⟨"/// ".toList, ["x".toList], ["1".toList], 0⟩ :=
    ⟨@Example.Indentation.sign [] [] (by simp) (by simp), by simp, by decide, by decide,
      by simp [Text.isIndent], fun _ => by simp [Example.sigil]⟩
  have hboth : ∀ x ∈ [((⟨[], ["int x = 1;".toList], [], 0⟩ : Example), [([] : Text)]),
      (⟨"/// ".toList, ["x".toList], ["1".toList], 0⟩, [])], x.1.WellFormed :=
    List.forall_mem_cons.mpr ⟨hfirst, List.forall_mem_cons.mpr ⟨hsecond, by simp⟩⟩
  have h := @ofDocument_render ⟨'\x60', 3⟩ _ ['\n'] (by decide) (by decide) hboth (by decide)
    (by decide) (by decide) (.inr rfl)
  exact h

end Extraction

end Literate
