import Mathlib.Data.List.Forall2
import Literate.Proofs.Document.Cover
import Literate.Proofs.Result

/-!
# Where examples stand

The examples of a document are laid out on its lines: each one is a block of lines, its code and
the expected output under one indentation, and the blocks follow one another with lines without
code between them. What is read off a document can therefore be found in it, line for line.
-/

namespace Literate.Example

/-- The number of the line after an example. -/
def stop (e : Example) : Nat :=
  e.line + e.snippet.length + e.expected.length

/-- Whether a line holds some expected output of an example. -/
def Prints (e : Example) (text line : Text) : Prop :=
  line = e.indent ++ marker ++ text ∨ text = [] ∧ line = e.indent ++ bareMarker

/-- Examples laid out on lines one after another, the first of which has the given number. Lines
between them satisfy `gap`. -/
inductive Laid (gap : Text → Prop) : Nat → List Text → List Example → Prop
  | nil (n : Nat) : Laid gap n [] []
  | gap {n : Nat} {rest : List Text} {examples : List Example} {line : Text} (hgap : gap line)
    (h : Laid gap (n + 1) rest examples) : Laid gap n (line :: rest) examples
  | block {rest output : List Text} {examples : List Example} {e : Example}
    (hsnippet : e.snippet ≠ []) (houtput : List.Forall₂ e.Prints e.expected output)
    (h : Laid gap e.stop rest examples) :
    Laid gap e.line (e.snippet.map (e.indent ++ ·) ++ (output ++ rest)) (e :: examples)

/-- An example that stands among the lines of a document, where its line number says. -/
structure StandsIn (lines : List Text) (e : Example) : Prop where
  snippet_ne_nil : e.snippet ≠ []
  line_pos : 1 ≤ e.line
  code (k : Nat) (h : k < e.snippet.length) :
    lines[e.line - 1 + k]? = some (e.indent ++ e.snippet[k])
  output (m : Nat) (h : m < e.expected.length) :
    ∃ line, lines[e.line - 1 + e.snippet.length + m]? = some line ∧ e.Prints e.expected[m] line

namespace Laid

variable {gap : Text → Prop} {n : Nat} {lines : List Text} {examples : List Example}

/-- Examples that are laid with gaps of one kind are laid with gaps of every wider one. -/
theorem mono {gap' : Text → Prop} (hgap : ∀ line, gap line → gap' line)
    (h : Laid gap n lines examples) : Laid gap' n lines examples := by
  induction h with
  | nil n => exact .nil n
  | gap hline h ih => exact .gap (hgap _ hline) ih
  | block hsnippet houtput h ih => exact .block hsnippet houtput ih

/-- Lines without examples. -/
theorem of_forall (n : Nat) (h : ∀ line ∈ lines, gap line) : Laid gap n lines [] := by
  induction lines generalizing n with
  | nil => exact .nil n
  | cons line rest ih =>
    exact .gap (h line List.mem_cons_self) (ih _ fun l hl => h l (List.mem_cons_of_mem _ hl))

/-- Lines and their examples one after another. -/
theorem append {more : List Text} {later : List Example} (h : Laid gap n lines examples)
    (hmore : Laid gap (n + lines.length) more later) :
    Laid gap n (lines ++ more) (examples ++ later) := by
  induction h with
  | nil n => exact hmore
  | @gap n rest examples line hline h ih =>
    refine .gap hline (ih ?_)
    rwa [List.length_cons, Nat.add_comm rest.length, ← Nat.add_assoc] at hmore
  | @block rest output examples e hsnippet houtput h ih =>
    rw [List.append_assoc, List.append_assoc, List.cons_append]
    refine .block hsnippet houtput (ih ?_)
    have hlength := houtput.length_eq
    simp only [List.length_append, List.length_map] at hmore
    rwa [stop, hlength, Nat.add_assoc, Nat.add_assoc]

/-- Every example lies within the lines. -/
theorem bounds (h : Laid gap n lines examples) :
    ∀ e ∈ examples, n ≤ e.line ∧ e.stop ≤ n + lines.length := by
  induction h with
  | nil n => simp
  | gap hline h ih =>
    intro e he
    obtain ⟨hline, hstop⟩ := ih e he
    rw [List.length_cons]
    omega
  | @block rest output examples e hsnippet houtput h ih =>
    have hlength := houtput.length_eq
    simp only [List.length_append, List.length_map]
    intro x hx
    rcases List.mem_cons.mp hx with rfl | hx
    · rw [stop]
      omega
    · obtain ⟨hline, hstop⟩ := ih x hx
      have he : e.stop = e.line + e.snippet.length + e.expected.length := rfl
      omega

/-- The lines of different examples are disjoint and in order. -/
theorem pairwise (h : Laid gap n lines examples) :
    examples.Pairwise fun a b => a.stop ≤ b.line := by
  induction h with
  | nil n => exact .nil
  | gap hline h ih => exact ih
  | block hsnippet houtput h ih => exact .cons (fun b hb => (h.bounds b hb).1) ih

/-- Every example stands where its number says. -/
theorem standsIn (h : Laid gap n lines examples) (before : List Text)
    (hn : n = before.length + 1) : ∀ e ∈ examples, e.StandsIn (before ++ lines) := by
  induction h generalizing before with
  | nil n => simp
  | @gap n rest examples line hline h ih =>
    have hbefore : n + 1 = (before ++ [line]).length + 1 := by simp [hn]
    rw [← List.singleton_append, ← List.append_assoc]
    exact ih _ hbefore
  | @block rest output examples e hsnippet houtput h ih =>
    have hlength := houtput.length_eq
    intro x hx
    rcases List.mem_cons.mp hx with rfl | hx
    · refine ⟨hsnippet, by omega, fun k hk => ?_, fun m hm => ?_⟩
      · rw [hn, Nat.add_sub_cancel, List.getElem?_append_right (by omega), Nat.add_sub_cancel_left,
          List.getElem?_append_left (by simpa using hk), List.getElem?_map,
          List.getElem?_eq_getElem hk]
        rfl
      · refine ⟨output[m], ?_, List.forall₂_iff_get.mp houtput |>.2 m hm (by omega)⟩
        have hindex : x.line - 1 + x.snippet.length + m =
            before.length + (x.snippet.length + m) := by omega
        rw [hindex, List.getElem?_append_right (by omega), Nat.add_sub_cancel_left,
          List.getElem?_append_right (by simp), List.length_map, Nat.add_sub_cancel_left,
          List.getElem?_append_left (by omega), List.getElem?_eq_getElem (by omega)]
    · have hbefore : e.stop =
          (before ++ (e.snippet.map (e.indent ++ ·) ++ output)).length + 1 := by
        simp only [stop, List.length_append, List.length_map]
        omega
      have hlater := ih _ hbefore x hx
      simpa only [List.append_assoc] using hlater

/-- A line outside all the examples is one between them. -/
theorem gap_of_outside (h : Laid gap n lines examples) {i : Nat} (hi : i < lines.length)
    (houtside : ∀ e ∈ examples, n + i < e.line ∨ e.stop ≤ n + i) : gap lines[i] := by
  induction h generalizing i with
  | nil n => simp at hi
  | @gap n rest examples line hline h ih =>
    cases i with
    | zero => exact hline
    | succ i =>
      refine ih (by simpa using hi) fun e he => ?_
      have := houtside e he
      omega
  | @block rest output examples e hsnippet houtput h ih =>
    have hlength := houtput.length_eq
    have he : e.stop = e.line + e.snippet.length + e.expected.length := rfl
    have hi' : i < e.snippet.length + (output.length + rest.length) := by simpa using hi
    have hafter : e.stop ≤ e.line + i := by
      have := houtside e List.mem_cons_self
      omega
    have hrest : i - e.snippet.length - output.length < rest.length := by omega
    have hlater := ih hrest fun x hx => by
      have := houtside x (List.mem_cons_of_mem _ hx)
      omega
    rw [List.getElem_append_right (by rw [List.length_map]; omega),
      List.getElem_append_right (by rw [List.length_map]; omega)]
    simpa only [List.length_map] using hlater

end Laid

/-- The values of a function on the beginning of a list on which it is defined. -/
theorem forall₂_takeSome {α β : Type} (f : α → Option β) (l : List α) :
    ∃ front, l = front ++ dropSome f l ∧
      List.Forall₂ (fun b a => f a = some b) (takeSome f l) front := by
  induction l with
  | nil => exact ⟨[], rfl, .nil⟩
  | cons a rest ih =>
    cases ha : f a with
    | none => exact ⟨[], by simp [dropSome, ha], by simp [takeSome, ha]⟩
    | some b =>
      obtain ⟨front, hfront, hvalues⟩ := ih
      refine ⟨a :: front, ?_, ?_⟩
      · simp only [dropSome, ha, Option.isSome_some, ↓reduceIte, List.cons_append]
        rw [← hfront]
      · simp only [takeSome, ha]
        exact .cons ha hvalues

/-- A line of code is the indentation with the code behind it. -/
theorem code?_eq_some {indent line text : Text} (h : code? indent line = some text) :
    line = indent ++ text := by
  unfold code? at h
  split at h
  · cases h
  · exact Text.after?_eq_some.mp h

private theorem map_append_of_code {indent : Text} {ts ls : List Text}
    (h : List.Forall₂ (fun t line => code? indent line = some t) ts ls) :
    ts.map (indent ++ ·) = ls := by
  induction h with
  | nil => rfl
  | cons hline hrest ih => rw [List.map_cons, ih, ← code?_eq_some hline]

/-- A line of output is the indentation with the marker and the text behind it, or with the bare
marker. -/
theorem expectation?_eq_some {indent line text : Text}
    (h : expectation? indent line = some text) :
    line = indent ++ marker ++ text ∨ text = [] ∧ line = indent ++ bareMarker := by
  unfold expectation? at h
  cases hrest : Text.after? indent line with
  | none => simp [hrest] at h
  | some rest =>
    have hline := Text.after?_eq_some.mp hrest
    rw [hrest] at h
    cases hmarker : Text.after? marker rest with
    | some t =>
      simp only [hmarker, Option.some_or, Option.some.injEq] at h
      rw [hline, Text.after?_eq_some.mp hmarker, h, List.append_assoc]
      exact .inl rfl
    | none =>
      simp only [hmarker, Option.none_or] at h
      split at h
      · next hbare =>
        cases h
        exact .inr ⟨rfl, hbare ▸ hline⟩
      · cases h

/-- A line begins with its indentation. -/
theorem indentOf_append_drop (line : Text) :
    indentOf line ++ line.drop (indentOf line).length = line := by
  rw [← List.prefix_iff_eq_append]
  have hleading : line.takeWhile Text.isIndent ++ line.dropWhile Text.isIndent = line :=
    List.takeWhile_append_dropWhile
  unfold indentOf
  dsimp only
  split
  · next rest hrest =>
    have htail := Text.after?_eq_some.mp hrest
    have hmore : rest.takeWhile Text.isIndent ++ rest.dropWhile Text.isIndent = rest :=
      List.takeWhile_append_dropWhile
    refine ⟨rest.dropWhile Text.isIndent, ?_⟩
    rw [List.append_assoc, List.cons_append, hmore, List.append_assoc, ← htail, hleading]
  · exact ⟨_, hleading⟩

/-- A line without code is passed over. -/
theorem ofLines_of_isFiller {line : Text} (hfiller : isFiller line = true) (n : Nat)
    (rest : List Text) : ofLines n (line :: rest) = ofLines (n + 1) rest := by
  rw [ofLines, if_pos hfiller]

/-- Expected output where an example would begin is an error. -/
theorem ofLines_of_output {line text : Text} (hfiller : ¬isFiller line = true)
    (htext : expectation? (indentOf line) line = some text) (n : Nat) (rest : List Text) :
    ofLines n (line :: rest) = .error (.orphanExpectation n text) := by
  rw [ofLines, if_neg hfiller]
  simp only [htext]

/-- A line of code opens an example. -/
theorem ofLines_of_code {line : Text} (hfiller : ¬isFiller line = true)
    (hnone : expectation? (indentOf line) line = none) (n : Nat) (rest : List Text) :
    let indent := indentOf line
    let snippet := line.drop indent.length :: takeSome (code? indent) rest
    let afterCode := dropSome (code? indent) rest
    let expected := takeSome (expectation? indent) afterCode
    ofLines n (line :: rest) =
      (ofLines (n + snippet.length + expected.length)
        (dropSome (expectation? indent) afterCode)).map
          fun others => ⟨indent, snippet, expected, n⟩ :: others := by
  rw [ofLines, if_neg hfiller]
  simp only [hnone]

/-- The examples read off some lines are laid out on them, with nothing but lines without code
between them. -/
theorem laid_ofLines {n : Nat} {lines : List Text} {examples : List Example}
    (h : ofLines n lines = .ok examples) :
    Laid (fun line => isFiller line = true) n lines examples := by
  induction n, lines using ofLines.induct generalizing examples with
  | case1 n =>
    rw [ofLines] at h
    cases h
    exact .nil n
  | case2 n line rest hfiller ih =>
    rw [ofLines_of_isFiller hfiller] at h
    exact .gap hfiller (ih h)
  | case3 n line rest hfiller text htext =>
    rw [ofLines_of_output hfiller htext] at h
    cases h
  | case4 n line rest hfiller hnone indent snippet afterCode expected later =>
    rename_i ih
    rw [ofLines_of_code hfiller hnone] at h
    obtain ⟨others, hothers, rfl⟩ := map_eq_ok.mp h
    obtain ⟨code, hcode, hsnippet⟩ := forall₂_takeSome (code? indent) rest
    obtain ⟨output, houtput, hexpected⟩ := forall₂_takeSome (expectation? indent) afterCode
    have hmap : (takeSome (code? indent) rest).map (indent ++ ·) = code :=
      map_append_of_code hsnippet
    have hprints : List.Forall₂ (Prints ⟨indent, snippet, expected, n⟩) expected output :=
      hexpected.imp fun _ _ => expectation?_eq_some
    have hlines : line :: rest = snippet.map (indent ++ ·) ++ (output ++ later) := by
      rw [List.map_cons, indentOf_append_drop, hmap, List.cons_append, ← houtput, ← hcode]
    rw [hlines]
    exact .block (e := ⟨indent, snippet, expected, n⟩) (by simp [snippet]) hprints (ih hothers)

end Literate.Example
