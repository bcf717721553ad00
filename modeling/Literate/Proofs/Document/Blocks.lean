import Literate.Proofs.Document.Laid
import Literate.Proofs.Text.Trim

/-!
# Examples are read back from the lines they are written on

An example is written as a block of lines, its code and then its expected output, each under its
indentation. Blocks that are kept apart by lines without code are read back as they were, if no
line of code can be taken for something else.
-/

namespace Literate.Example

/-- What may begin the lines of an example: spaces and tabs, and with them a comment sign that a
space follows and more spaces and tabs. -/
inductive Indentation : Text → Prop
  | blank {leading : Text} (h : ∀ c ∈ leading, Text.isIndent c = true) : Indentation leading
  | sign {leading more : Text} (h : ∀ c ∈ leading, Text.isIndent c = true)
    (hmore : ∀ c ∈ more, Text.isIndent c = true) :
    Indentation (leading ++ sigil ++ ' ' :: more)

/-- An example whose lines cannot be taken for anything else once they are written. -/
structure WellFormed (e : Example) : Prop where
  indentation : Indentation e.indent
  snippet_ne_nil : e.snippet ≠ []
  unbroken : ∀ l ∈ e.snippet ++ e.expected, '\n' ∉ l ∧ l.getLast? ≠ some '\r'
  code : ∀ l ∈ e.snippet, ¬marker <+: l ∧ l ≠ bareMarker ∧ isFiller (e.indent ++ l) = false
  /-- The first line of code is not indented further. -/
  flush : ∀ l ∈ e.snippet.head?, ∀ c ∈ l.head?, Text.isIndent c = false
  /-- The first line of code does not look like a comment sign of the indentation. -/
  unsigned : (∀ c ∈ e.indent, Text.isIndent c = true) →
    ∀ l ∈ e.snippet.head?, ¬sigil ++ [' '] <+: l

/-- The lines on which an example is written. -/
def render (e : Example) : List Text :=
  e.snippet.map (e.indent ++ ·) ++ e.expected.map (e.indent ++ marker ++ ·)

/-- The lines on which examples are written, each with the lines that are put after it. -/
def renderAll : List (Example × List Text) → List Text
  | [] => []
  | (e, gap) :: rest => e.render ++ (gap ++ renderAll rest)

/-- Examples numbered by the lines on which they are written, the first of which has the given
number. -/
def placeAll (n : Nat) : List (Example × List Text) → List Example
  | [] => []
  | (e, gap) :: rest =>
    { e with line := n } :: placeAll (n + e.render.length + gap.length) rest

/-- A line without code holds nothing but blanks and comment signs. -/
theorem isBlank_of_mem_filler {line : Text} (h : isFiller line = true) {c : Char} (hc : c ∈ line) :
    Text.isBlank c = true ∨ c = '/' := by
  simp only [isFiller, Bool.or_eq_true, decide_eq_true_eq] at h
  rcases Text.mem_trim_or_isBlank hc with hc | hc
  · rcases h with h | h
    · simp [h] at hc
    · refine .inr ?_
      simpa [h, sigil] using hc
  · exact .inl hc

/-- A line that holds a marker is not without code. -/
theorem expectation?_of_isFiller {line : Text} (h : isFiller line = true) (indent : Text) :
    expectation? indent line = none := by
  cases hline : expectation? indent line with
  | none => rfl
  | some text =>
    have harrow : '>' ∈ line := by
      rcases expectation?_eq_some hline with rfl | ⟨-, rfl⟩
      · simp [marker]
      · simp [bareMarker]
    rcases isBlank_of_mem_filler h harrow with h | h
    · exact absurd h (by decide)
    · exact absurd h (by decide)

/-- A line without code is not read as code. -/
theorem code?_of_isFiller {line : Text} (h : isFiller line = true) (indent : Text) :
    code? indent line = none :=
  if_pos (.inl h)

/-- A line of output is read as such. -/
theorem expectation?_append_marker (indent text : Text) :
    expectation? indent (indent ++ marker ++ text) = some text := by
  unfold expectation?
  rw [List.append_assoc, Text.after?_append]
  simp [Text.after?_append]

/-- Nor is a line of output. -/
theorem code?_append_marker (indent text : Text) :
    code? indent (indent ++ marker ++ text) = none := by
  refine if_pos (.inr ?_)
  rw [expectation?_append_marker]
  rfl

/-- A line that cannot be taken for output or for one without code is read as code. -/
theorem expectation?_append_of_code {indent text : Text} (hmarker : ¬marker <+: text)
    (hbare : text ≠ bareMarker) : expectation? indent (indent ++ text) = none := by
  have hnone : Text.after? marker text = none := by
    cases h : Text.after? marker text with
    | none => rfl
    | some rest => exact absurd ⟨rest, (Text.after?_eq_some.mp h).symm⟩ hmarker
  unfold expectation?
  rw [Text.after?_append]
  simp [hnone, hbare]

/-- A line of code is read as the text behind its indentation. -/
theorem code?_append {indent text : Text} (hmarker : ¬marker <+: text) (hbare : text ≠ bareMarker)
    (hfiller : isFiller (indent ++ text) = false) : code? indent (indent ++ text) = some text := by
  unfold code?
  rw [expectation?_append_of_code hmarker hbare, hfiller, Text.after?_append]
  rfl

/-- A function that is defined on some elements and not on the one after them takes those. -/
theorem takeSome_map_append {α β : Type} {f : α → Option β} {g : β → α} {bs : List β}
    {later : List α} (hf : ∀ b ∈ bs, f (g b) = some b) (hlater : ∀ a ∈ later.head?, f a = none) :
    takeSome f (bs.map g ++ later) = bs ∧ dropSome f (bs.map g ++ later) = later := by
  induction bs with
  | nil =>
    cases later with
    | nil => exact ⟨rfl, rfl⟩
    | cons a later =>
      have ha : f a = none := hlater a rfl
      simp [takeSome, dropSome, ha]
  | cons b bs ih =>
    have hb : f (g b) = some b := hf b List.mem_cons_self
    obtain ⟨htake, hdrop⟩ := ih fun x hx => hf x (List.mem_cons_of_mem _ hx)
    simp [takeSome, dropSome, hb, htake, hdrop]

/-- The indentation of a line is found again where code follows it that is not indented further. -/
theorem Indentation.indentOf_append {indent text : Text} (h : Indentation indent)
    (hflush : ∀ c ∈ text.head?, Text.isIndent c = false)
    (hunsigned : (∀ c ∈ indent, Text.isIndent c = true) → ¬sigil ++ [' '] <+: text) :
    indentOf (indent ++ text) = indent := by
  cases h with
  | @blank leading h =>
    obtain ⟨htake, hdrop⟩ := Text.takeWhile_dropWhile_append h hflush
    rw [indentOf, htake, hdrop]
    split
    · next rest hrest =>
      refine absurd ⟨rest, ?_⟩ (hunsigned h)
      rw [List.append_assoc, List.singleton_append, Text.after?_eq_some.mp hrest]
    · rfl
  | @sign leading more h hmore =>
    have hline : leading ++ sigil ++ ' ' :: more ++ text =
        leading ++ (sigil ++ ' ' :: (more ++ text)) := by simp
    have hslash : ∀ c ∈ (sigil ++ ' ' :: (more ++ text)).head?, Text.isIndent c = false := by
      simp [sigil, Text.isIndent]
    obtain ⟨htake, hdrop⟩ := Text.takeWhile_dropWhile_append h hslash
    have hrest := (Text.takeWhile_dropWhile_append hmore hflush).1
    rw [hline, indentOf, htake, hdrop, Text.after?_append]
    exact congrArg (leading ++ sigil ++ ' ' :: ·) hrest

/-- The output of an example ends at the first line after it. -/
theorem takeSome_expectation? (indent : Text) (expected : List Text) {later : List Text}
    (hlater : ∀ l ∈ later.head?, isFiller l = true) :
    takeSome (expectation? indent) (expected.map (indent ++ marker ++ ·) ++ later) = expected ∧
      dropSome (expectation? indent) (expected.map (indent ++ marker ++ ·) ++ later) = later :=
  takeSome_map_append (fun t _ => expectation?_append_marker indent t)
    fun l hl => expectation?_of_isFiller (hlater l hl) indent

/-- The code of an example ends at its first line of output. -/
theorem takeSome_code? {indent : Text} {code : List Text} (expected : List Text)
    {later : List Text}
    (hcode : ∀ l ∈ code, ¬marker <+: l ∧ l ≠ bareMarker ∧ isFiller (indent ++ l) = false)
    (hlater : ∀ l ∈ later.head?, isFiller l = true) :
    takeSome (code? indent)
        (code.map (indent ++ ·) ++ (expected.map (indent ++ marker ++ ·) ++ later)) = code ∧
      dropSome (code? indent)
        (code.map (indent ++ ·) ++ (expected.map (indent ++ marker ++ ·) ++ later)) =
        expected.map (indent ++ marker ++ ·) ++ later := by
  apply takeSome_map_append
  · intro l hl
    obtain ⟨hmarker, hbare, hfiller⟩ := hcode l hl
    exact code?_append hmarker hbare hfiller
  · cases expected with
    | nil => exact fun l hl => code?_of_isFiller (hlater l hl) indent
    | cons t expected =>
      rintro l ⟨⟩
      exact code?_append_marker indent t

/-- What output is expected has no part in whether the code can be taken for anything else. -/
theorem WellFormed.withoutOutput {e : Example} (he : e.WellFormed) :
    WellFormed { e with expected := [] } where
  indentation := he.indentation
  snippet_ne_nil := he.snippet_ne_nil
  unbroken l hl := he.unbroken l (List.mem_append_left _ (by simpa using hl))
  code := he.code
  flush := he.flush
  unsigned := he.unsigned

/-- An example that is followed by a line without code, or by none, is read back, whatever its
expected output is. -/
theorem ofLines_render {e : Example} (he : WellFormed { e with expected := [] }) (n : Nat)
    {later : List Text} (hlater : ∀ l ∈ later.head?, isFiller l = true) :
    ofLines n (e.render ++ later) =
      (ofLines (n + e.render.length) later).map fun others => { e with line := n } :: others := by
  obtain ⟨indent, snippet, expected, line⟩ := e
  obtain ⟨hindentation, hne, -, hcode, hflush, hunsigned⟩ := he
  cases snippet with
  | nil => exact absurd rfl hne
  | cons first others =>
    obtain ⟨hmarker, hbare, hfiller⟩ := hcode first List.mem_cons_self
    have hindent : indentOf (indent ++ first) = indent :=
      hindentation.indentOf_append (hflush first rfl) fun h => hunsigned h first rfl
    have hnone : expectation? (indentOf (indent ++ first)) (indent ++ first) = none := by
      rw [hindent]
      exact expectation?_append_of_code hmarker hbare
    obtain ⟨htake, hdrop⟩ := takeSome_code? expected
      (fun l hl => hcode l (List.mem_cons_of_mem _ hl)) hlater
    obtain ⟨htake', hdrop'⟩ := takeSome_expectation? indent expected hlater
    have hlength : (render ⟨indent, first :: others, expected, line⟩).length =
        (first :: others).length + expected.length := by
      rw [render, List.length_append, List.length_map, List.length_map]
    rw [hlength, render, List.map_cons, List.append_assoc, List.cons_append,
      ofLines_of_code (by simp [hfiller]) hnone, hindent, List.drop_left, htake, hdrop, htake',
      hdrop', Nat.add_assoc]

/-- An indentation holds nothing but spaces, tabs and comment signs. -/
theorem Indentation.notMem {indent : Text} (h : Indentation indent) {c : Char}
    (hc : Text.isIndent c = false) (hslash : c ≠ '/') : c ∉ indent := by
  have hspace : c ≠ ' ' := by
    rintro rfl
    simp [Text.isIndent] at hc
  cases h with
  | blank h => exact Text.notMem_of_isIndent h hc
  | sign h hmore =>
    simp [sigil, Text.notMem_of_isIndent h hc, Text.notMem_of_isIndent hmore hc, hslash, hspace]

/-- Every line on which an example is written is one line, and is no longer when it is read. -/
theorem WellFormed.unbroken_render {e : Example} (he : e.WellFormed) :
    ∀ l ∈ e.render, '\n' ∉ l ∧ l.getLast? ≠ some '\r' := by
  have hfeed : '\n' ∉ e.indent := he.indentation.notMem (by decide) (by decide)
  have hreturn : '\r' ∉ e.indent := he.indentation.notMem (by decide) (by decide)
  have happend {start t : Text} (hstart : '\n' ∉ start ∧ '\r' ∉ start)
      (ht : '\n' ∉ t ∧ t.getLast? ≠ some '\r') :
      '\n' ∉ start ++ t ∧ (start ++ t).getLast? ≠ some '\r' := by
    refine ⟨by simp [hstart.1, ht.1], fun h => ?_⟩
    rw [List.getLast?_append, Option.or_eq_some_iff] at h
    rcases h with h | ⟨-, h⟩
    · exact ht.2 h
    · exact hstart.2 (List.mem_of_getLast? h)
  intro l hl
  rcases List.mem_append.mp hl with hl | hl
  · obtain ⟨t, ht, rfl⟩ := List.mem_map.mp hl
    exact happend ⟨hfeed, hreturn⟩ (he.unbroken t (List.mem_append_left _ ht))
  · obtain ⟨t, ht, rfl⟩ := List.mem_map.mp hl
    refine happend ⟨?_, ?_⟩ (he.unbroken t (List.mem_append_right _ ht))
    · simp [hfeed, marker]
    · simp [hreturn, marker]

/-- Lines without code are passed over. -/
theorem ofLines_fillers {gap : List Text} (hgap : ∀ l ∈ gap, isFiller l = true) (n : Nat)
    (later : List Text) : ofLines n (gap ++ later) = ofLines (n + gap.length) later := by
  induction gap generalizing n with
  | nil => rfl
  | cons line gap ih =>
    have hline : isFiller line = true := hgap line List.mem_cons_self
    have ih := ih (fun l hl => hgap l (List.mem_cons_of_mem _ hl)) (n + 1)
    rw [List.cons_append, ofLines_of_isFiller hline, ih, List.length_cons, Nat.add_assoc,
      Nat.add_comm 1]

/-- Written examples are read back. -/
theorem ofLines_renderAll (n : Nat) {items : List (Example × List Text)}
    (hitems : ∀ x ∈ items, x.1.WellFormed) (hgaps : ∀ x ∈ items, ∀ l ∈ x.2, isFiller l = true)
    (hapart : ∀ x ∈ items.dropLast, x.2 ≠ []) :
    ofLines n (renderAll items) = .ok (placeAll n items) := by
  induction items generalizing n with
  | nil => rw [renderAll, ofLines, placeAll]
  | cons x rest ih =>
    obtain ⟨e, gap⟩ := x
    have he : e.WellFormed := hitems _ List.mem_cons_self
    have hgap : ∀ l ∈ gap, isFiller l = true := hgaps _ List.mem_cons_self
    have hrest := ih (n + e.render.length + gap.length)
      (fun x hx => hitems x (List.mem_cons_of_mem _ hx))
      (fun x hx => hgaps x (List.mem_cons_of_mem _ hx))
      (fun x hx => hapart x (by
        cases rest with
        | nil => simp at hx
        | cons y rest => exact List.mem_cons_of_mem _ hx))
    have hlater : ∀ l ∈ (gap ++ renderAll rest).head?, isFiller l = true := by
      cases gap with
      | cons line gap =>
        rintro l ⟨⟩
        exact hgap line List.mem_cons_self
      | nil =>
        cases rest with
        | nil => simp [renderAll]
        | cons y rest => exact absurd rfl (hapart (e, []) List.mem_cons_self)
    rw [renderAll, ofLines_render he.withoutOutput n hlater, ofLines_fillers hgap, hrest]
    rfl

/-- The lines on which examples are written are those of the examples and those between them. -/
theorem mem_renderAll {items : List (Example × List Text)} {l : Text} :
    l ∈ renderAll items ↔ ∃ x ∈ items, l ∈ x.1.render ∨ l ∈ x.2 := by
  induction items with
  | nil => simp [renderAll]
  | cons x rest ih =>
    simp only [renderAll, List.mem_append, ih, List.mem_cons, exists_eq_or_imp, or_assoc]

/-- A line without code stays one without a carriage return at its end. -/
theorem isFiller_chop (l : Text) : isFiller (l.chop '\r') = isFiller l := by
  rw [isFiller, isFiller, Text.trim_chop (by decide)]

/-- Examples and the lines between them, without the carriage returns that end the latter. -/
def chopGaps (items : List (Example × List Text)) : List (Example × List Text) :=
  items.map fun x => (x.1, x.2.map (Text.chop '\r'))

/-- What ends the lines between examples moves no example. -/
theorem placeAll_chopGaps (n : Nat) (items : List (Example × List Text)) :
    placeAll n (chopGaps items) = placeAll n items := by
  induction items generalizing n with
  | nil => rfl
  | cons x rest ih => simpa [placeAll, chopGaps] using ih _

/-- Chopping every line of some blocks chops the lines between their examples. -/
theorem map_chop_renderAll {items : List (Example × List Text)}
    (hitems : ∀ x ∈ items, x.1.WellFormed) :
    (renderAll items).map (Text.chop '\r') = renderAll (chopGaps items) := by
  induction items with
  | nil => rfl
  | cons x rest ih =>
    obtain ⟨e, gap⟩ := x
    have he : e.WellFormed := hitems _ List.mem_cons_self
    have hrender : e.render.map (Text.chop '\r') = e.render := by
      refine (List.map_congr_left fun l hl => ?_).trans (List.map_id' _)
      exact Text.chop_of_getLast?_ne (he.unbroken_render l hl).2
    have hrest := ih fun x hx => hitems x (List.mem_cons_of_mem _ hx)
    rw [renderAll, List.map_append, List.map_append, hrender, hrest]
    rfl

end Literate.Example
