import Literate.Proofs.Document.Laid

/-!
# Extraction is faithful to its document

What is read off a document can be found in it: every example stands on the lines that its number
says, inside one zone, and the examples follow one another. Nothing in a zone that has examples is
lost: what no example holds is blank or a bare comment sign.
-/

namespace Literate

namespace Zone.Cover

variable {n : Nat} {lines : List Text} {zones : List Zone}

/-- The content of every zone stands where its number says. -/
theorem content (h : Cover n lines zones) (before : List Text) (hn : n = before.length + 1) :
    ∀ z ∈ zones, 1 ≤ z.line ∧ ∀ i (hi : i < z.text.lines.length),
      (before ++ lines)[z.line - 1 + i]? = some z.text.lines[i] := by
  induction h generalizing before with
  | nil n => simp
  | @skip n rest zones line h ih =>
    have hbefore : n + 1 = (before ++ [line]).length + 1 := by simp [hn]
    rw [← List.singleton_append, ← List.append_assoc]
    exact ih _ hbefore
  | @zone n rest zones z opener hline h ih =>
    intro x hx
    rcases List.mem_cons.mp hx with rfl | hx
    · refine ⟨by omega, fun i hi => ?_⟩
      have hindex : x.line - 1 + i = before.length + (1 + i) := by omega
      rw [hindex, List.getElem?_append_right (by omega), Nat.add_sub_cancel_left, Nat.add_comm 1,
        List.getElem?_cons_succ, List.getElem?_append_left hi, List.getElem?_eq_getElem hi]
    · have hbefore : n + 1 + z.text.lines.length =
          (before ++ opener :: z.text.lines).length + 1 := by
        simp only [List.length_append, List.length_cons]
        omega
      have hlater := ih _ hbefore x hx
      simpa only [List.append_assoc, List.cons_append] using hlater

/-- The examples of zones that cover some lines are laid out on them. -/
theorem laid (h : Cover n lines zones) :
    Example.Laid (fun _ => True) n lines (Extraction.ofZones zones).examples := by
  induction h with
  | nil n => exact .nil n
  | skip line h ih => exact .gap trivial ih
  | @zone n rest zones z opener hline h ih =>
    refine .gap trivial ?_
    rw [Extraction.ofZones]
    cases hz : Example.ofZone z with
    | ok examples =>
      have hlaid := Example.laid_ofLines hz
      rw [hline] at hlaid
      exact (hlaid.mono fun _ _ => trivial).append ih
    | error e => exact (Example.Laid.of_forall _ fun _ _ => trivial).append ih

end Zone.Cover

namespace Extraction

/-- Of zones in order, those that are not at fault give the examples, and the others the
errors. -/
theorem ofZones_eq (zones : List Zone) :
    ofZones zones =
      { examples := (zones.filterMap fun z => (Example.ofZone z).toOption).flatten,
        errors := zones.filterMap fun z => error? (Example.ofZone z) } := by
  induction zones with
  | nil => rfl
  | cons z rest ih =>
    rw [ofZones, ih]
    cases hz : Example.ofZone z with
    | ok own => simp [hz, Except.toOption, error?]
    | error e => simp [hz, Except.toOption, error?]

/-- The examples of zones are those of the zones that have some. -/
theorem mem_ofZones {e : Example} {zones : List Zone} :
    e ∈ (ofZones zones).examples ↔
      ∃ z ∈ zones, ∃ own, Example.ofZone z = .ok own ∧ e ∈ own := by
  simp only [ofZones_eq, List.mem_flatten, List.mem_filterMap, toOption_eq_some]
  constructor
  · rintro ⟨own, ⟨z, hz, hown⟩, he⟩
    exact ⟨z, hz, own, hown, he⟩
  · rintro ⟨z, hz, own, hown, he⟩
    exact ⟨own, ⟨z, hz, hown⟩, he⟩

/-- A change of zones that comes to a change of what each of them gives comes to that change of what
they give together. -/
theorem ofZones_map {change : Zone → Zone} {onExample : Example → Example}
    {onError : ExtractError → ExtractError}
    (h : ∀ z, Example.ofZone (change z) =
      ((Example.ofZone z).map (List.map onExample)).mapError onError) (zones : List Zone) :
    ofZones (zones.map change) =
      { examples := (ofZones zones).examples.map onExample,
        errors := (ofZones zones).errors.map onError } := by
  induction zones with
  | nil => rfl
  | cons z rest ih =>
    rw [List.map_cons, ofZones, ofZones, h, ih]
    cases Example.ofZone z with
    | error e => rfl
    | ok examples => simp [Except.map, Except.mapError]

/-- Every example of a document stands in it where its number says, on lines of one zone that no
other example holds, and every line of a zone with examples that none of them holds is without
code. -/
theorem ofDocument_faithful (kind : DocumentKind) (document : Text) :
    let examples := (ofDocument kind document).examples
    let zones := (kind.delimiters.scan document).zones
    (∀ e ∈ examples, e.StandsIn document.lines) ∧
    examples.Pairwise (fun a b => a.stop ≤ b.line) ∧
    (∀ e ∈ examples, ∃ z ∈ zones,
      z.line ≤ e.line ∧ e.stop ≤ z.line + z.text.lines.length) ∧
    ∀ z ∈ zones,
      (∀ i (hi : i < z.text.lines.length),
        document.lines[z.line - 1 + i]? = some z.text.lines[i]) ∧
      ∀ own, Example.ofZone z = .ok own →
        ∀ n, z.line ≤ n → n < z.line + z.text.lines.length →
          (∀ e ∈ examples, n < e.line ∨ e.stop ≤ n) →
          ∃ line, document.lines[n - 1]? = some line ∧ Example.isFiller line = true := by
  intro examples zones
  have hcover : Zone.Cover 1 document.lines zones := kind.delimiters.cover_scan document
  have hlaid : Example.Laid (fun _ => True) 1 document.lines examples := hcover.laid
  have hcontent := hcover.content [] rfl
  refine ⟨hlaid.standsIn [] rfl, hlaid.pairwise, fun e he => ?_, fun z hz => ?_⟩
  · obtain ⟨z, hz, own, hown, hmem⟩ := mem_ofZones.mp he
    exact ⟨z, hz, (Example.laid_ofLines hown).bounds e hmem⟩
  · obtain ⟨hpos, hlines⟩ := hcontent z hz
    refine ⟨hlines, fun own hown n hfrom hto houtside => ?_⟩
    obtain ⟨i, rfl⟩ := Nat.exists_eq_add_of_le hfrom
    have hi : i < z.text.lines.length := by omega
    refine ⟨z.text.lines[i], ?_, ?_⟩
    · rw [← hlines i hi]
      congr 1
      omega
    · exact (Example.laid_ofLines hown).gap_of_outside hi fun e he =>
        houtside e (mem_ofZones.mpr ⟨z, hz, own, hown, he⟩)

end Extraction

end Literate
