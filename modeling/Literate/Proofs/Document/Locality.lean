import Mathlib.Data.List.Pairwise
import Literate.Proofs.Document.Detection
import Literate.Proofs.Document.Fidelity

/-!
# Problems of a document stay where they are

A fence that is never closed is reported at its own line, outside every zone, and expected output
without code at a line of the zone that holds it. The zones follow one another, so no two problems
share a line, and none lies among the lines of an example. A zone at fault loses its own examples
and no others.
-/

namespace Literate

/-- A sorted list whose elements have different keys is strictly sorted. -/
theorem pairwise_lt_mergeSort {α : Type} {key : α → Nat} {l : List α}
    (h : l.Pairwise fun a b => key a ≠ key b) :
    (l.mergeSort fun a b => key a ≤ key b).Pairwise fun a b => key a < key b := by
  have hsorted : (l.mergeSort fun a b => key a ≤ key b).Pairwise fun a b =>
      decide (key a ≤ key b) = true := by
    apply List.pairwise_mergeSort
    · intro a b c hab hbc
      simp only [decide_eq_true_eq] at hab hbc ⊢
      omega
    · intro a b
      simp only [Bool.or_eq_true, decide_eq_true_eq]
      omega
  have hne := ((List.mergeSort_perm l fun a b => key a ≤ key b).pairwise_iff Ne.symm).mpr h
  refine (hsorted.and hne).imp fun {a b} hab => ?_
  have hle : key a ≤ key b := of_decide_eq_true hab.1
  have hdistinct : key a ≠ key b := hab.2
  omega

/-- The lines of a document are numbered from one. -/
theorem Line.number_of_mem {document : Text} {l : Line} (h : l ∈ ofDocument document) :
    1 ≤ l.number ∧ l.number ≤ document.lines.length := by
  have hlength : (ofDocument document).length = document.lines.length := by
    rw [← map_plain_ofDocument, List.length_map]
  have hmem : l.number ∈ (ofDocument document).map number := List.mem_map_of_mem h
  rw [(Run.ofDocument document).number, List.mem_range'_1, hlength] at hmem
  omega

namespace Zone

/-- The number of the line after a zone. -/
def next (z : Zone) : Nat :=
  z.line + z.text.lines.length

namespace Cover

variable {n : Nat} {lines : List Text} {zones : List Zone}

/-- Zones lie within the lines that they cover, after the first. -/
theorem bounds (h : Cover n lines zones) :
    ∀ z ∈ zones, n < z.line ∧ z.next ≤ n + lines.length := by
  induction h with
  | nil n => simp
  | skip line h ih =>
    intro z hz
    obtain ⟨hline, hnext⟩ := ih z hz
    rw [List.length_cons]
    omega
  | @zone n rest zones z opener hline h ih =>
    have hz : z.next = n + 1 + z.text.lines.length := congrArg (· + _) hline
    rw [List.length_cons, List.length_append]
    intro x hx
    rcases List.mem_cons.mp hx with rfl | hx
    · omega
    · obtain ⟨hline', hnext⟩ := ih x hx
      omega

/-- Zones follow one another. -/
theorem pairwise (h : Cover n lines zones) : zones.Pairwise fun a b => a.next ≤ b.line := by
  induction h with
  | nil n => exact .nil
  | skip line h ih => exact ih
  | @zone n rest zones z opener hline h ih =>
    refine .cons (fun x hx => ?_) ih
    have hz : z.next = n + 1 + z.text.lines.length := congrArg (· + _) hline
    have hx := (h.bounds x hx).1
    omega

end Cover

end Zone

namespace Fence.Scanned

variable {languages : List Text} {ls : List Line} {s : Scan} {n start : Nat}

/-- Errors point at different lines, in order. -/
theorem pairwise_errors (h : Scanned languages ls s) (hp : Line.Placed n start ls) :
    s.errors.Pairwise fun a b => a.line < b.line := by
  induction h generalizing n start with
  | nil => exact .nil
  | plain hplain hrest ih => exact ih hp.cons.2.2
  | @unclosed l rest s f hopens hopen hrest ih =>
    obtain ⟨hnumber, -, hplaced⟩ := hp.cons
    refine .cons (fun e he => ?_) (ih hplaced)
    have hle := hrest.le_of_mem_errors hplaced he
    show l.number < e.line
    omega
  | block hopens hopen hcloses hrest ih => exact ih hp.block.2.2.2.2

/-- Errors point at lines outside the zones. -/
theorem outside (h : Scanned languages ls s) (hp : Line.Placed n start ls) (hr : Line.Run n ls) :
    ∀ e ∈ s.errors, ∀ z ∈ s.zones, e.line < z.line ∨ z.next ≤ e.line := by
  induction h generalizing n start with
  | nil => simp
  | plain hplain hrest ih => exact ih hp.cons.2.2 hr.cons.2
  | @unclosed l rest s f hopens hopen hrest ih =>
    obtain ⟨hnumber, -, hplaced⟩ := hp.cons
    intro e he z hz
    rcases List.mem_cons.mp he with rfl | he
    · left
      have hlt := (hrest.lt_of_mem_zones hplaced hz).1
      show l.number < z.line
      omega
    · exact ih hplaced hr.cons.2 e he z hz
  | @block l closer content rest s f hopens hopen hcloses hrest ih =>
    obtain ⟨hnumber, -, hcloser, -, hplaced⟩ := hp.block
    obtain ⟨hcontent, hlater⟩ := hr.cons.2.append
    rw [← hcloser] at hlater
    intro e he z hz
    rcases List.mem_cons.mp hz with rfl | hz
    · right
      have hle := hrest.le_of_mem_errors hplaced he
      have hnext : (Zone.after l f.text content).next = l.number + 1 + content.length := by
        rw [Zone.next, Zone.after, hcontent.lines, List.length_map]
      omega
    · exact ih hplaced hlater.cons.2 e he z hz

/-- The errors are those of the fences outside the zones that are never closed. -/
theorem mem_errors_iff (h : Scanned languages ls s) (hp : Line.Placed n start ls)
    {e : ExtractError} :
    e ∈ s.errors ↔ ∃ l ∈ ls, ∃ f, Opens languages f l.text ∧ ¬Held s l ∧
      (∀ k ∈ ls, l.number < k.number → ¬Closes f k.text) ∧
      e = .unterminatedFence l.number f.text := by
  have hfound {l : Line} {s' : Scan} (habout : s.about l.number = s') (he : e ∈ s.errors)
      (hline : e.line = l.number) : e ∈ s'.errors := by
    rw [← habout]
    exact List.mem_filter.mpr ⟨he, by simpa using hline⟩
  constructor
  · intro he
    obtain ⟨l, hl, f, hopens, rfl⟩ := h.exists_of_mem_errors hp he
    refine ⟨l, hl, f, hopens, ?_⟩
    rcases h.fate hp hl hopens with ⟨-, hs⟩ | ⟨-, closer, z, -, -, hs⟩ | ⟨hout, hopen, -⟩
    · exact absurd (hfound hs he rfl) (List.not_mem_nil)
    · exact absurd (hfound hs he rfl) (List.not_mem_nil)
    · exact ⟨hout, hopen, rfl⟩
  · rintro ⟨l, hl, f, hopens, hout, hopen, rfl⟩
    rcases h.fate hp hl hopens with ⟨hin, -⟩ | ⟨-, closer, z, hblock, -⟩ | ⟨-, -, hs⟩
    · exact absurd hin hout
    · exact absurd hblock.closes (hopen closer hblock.closer_mem hblock.later)
    · have herrors : s.errors.filter (·.line = l.number) =
          [.unterminatedFence l.number f.text] := congrArg Scan.errors hs
      have hmem : .unterminatedFence l.number f.text ∈ s.errors.filter (·.line = l.number) := by
        rw [herrors]
        exact List.mem_singleton_self _
      exact List.mem_of_mem_filter hmem

end Fence.Scanned

/-- A scan whose zones follow one another, and whose errors point at different lines outside
them. -/
structure Scan.Apart (s : Scan) : Prop where
  zones : s.zones.Pairwise fun a b => a.next ≤ b.line
  errors : s.errors.Pairwise fun a b => a.line < b.line
  outside : ∀ e ∈ s.errors, ∀ z ∈ s.zones, e.line < z.line ∨ z.next ≤ e.line

/-- Of two zones, one ends before the other begins. -/
theorem Scan.Apart.disjoint {s : Scan} (h : s.Apart) {z z' : Zone} (hz : z ∈ s.zones)
    (hz' : z' ∈ s.zones) (hne : z ≠ z') : z.next ≤ z'.line ∨ z'.next ≤ z.line := by
  have : Std.Symm fun a b : Zone => a.next ≤ b.line ∨ b.next ≤ a.line := ⟨fun _ _ => Or.symm⟩
  have hapart : s.zones.Pairwise fun a b => a.next ≤ b.line ∨ b.next ≤ a.line :=
    h.zones.imp Or.inl
  exact hapart.forall hz hz' hne

namespace Delimiters

/-- The error of a fence that is never closed: a line outside the zones opens it, and no later line
closes it. Comments have none. -/
def Unclosed (d : Delimiters) (document : Text) (e : ExtractError) : Prop :=
  match d with
  | fences languages =>
    let lines := Line.ofDocument document
    ∃ l ∈ lines, ∃ f, Fence.Opens languages f l.text ∧
      ¬Fence.Held ((fences languages).scan document) l ∧
      (∀ k ∈ lines, l.number < k.number → ¬Fence.Closes f k.text) ∧
      e = .unterminatedFence l.number f.text
  | comments _ => False

/-- The errors of a scan are its fences that are not closed. -/
theorem mem_errors_scan (d : Delimiters) (document : Text) (e : ExtractError) :
    e ∈ (d.scan document).errors ↔ d.Unclosed document e := by
  cases d with
  | fences languages =>
    exact (Fence.scanned_scan languages _).mem_errors_iff (Line.placed_ofDocument document)
  | comments sigil => exact iff_of_false List.not_mem_nil id

/-- An error of a scan points at a line of the document. -/
theorem line_of_mem_errors {d : Delimiters} {document : Text} {e : ExtractError}
    (h : e ∈ (d.scan document).errors) : 1 ≤ e.line ∧ e.line ≤ document.lines.length := by
  cases d with
  | fences languages =>
    obtain ⟨l, hl, f, -, -, -, rfl⟩ := (mem_errors_scan _ _ _).mp h
    exact Line.number_of_mem hl
  | comments sigil => exact absurd h List.not_mem_nil

/-- The zones of a scan and its errors are apart. -/
theorem apart_scan (d : Delimiters) (document : Text) : (d.scan document).Apart := by
  have hzones := (d.cover_scan document).pairwise
  cases d with
  | fences languages =>
    have hscan := Fence.scanned_scan languages (Line.ofDocument document)
    have hp := Line.placed_ofDocument document
    exact ⟨hzones, hscan.pairwise_errors hp, hscan.outside hp (Line.Run.ofDocument document)⟩
  | comments sigil => exact ⟨hzones, .nil, by simp [scan]⟩

end Delimiters

namespace Example

private theorem length_takeSome_add_length_dropSome {α β : Type} (f : α → Option β) (l : List α) :
    (takeSome f l).length + (dropSome f l).length = l.length := by
  obtain ⟨front, hfront, hvalues⟩ := forall₂_takeSome f l
  rw [hvalues.length_eq, ← List.length_append, ← hfront]

/-- The code of an example, its output and the lines after it are all the lines from its first. -/
theorem length_code_add_length_output (line : Text) (rest : List Text) (indent : Text) :
    let snippet := line.drop indent.length :: takeSome (code? indent) rest
    let afterCode := dropSome (code? indent) rest
    snippet.length + (takeSome (expectation? indent) afterCode).length +
      (dropSome (expectation? indent) afterCode).length = (line :: rest).length := by
  intro snippet afterCode
  rw [List.length_cons, Nat.add_assoc, length_takeSome_add_length_dropSome, List.length_cons,
    Nat.add_right_comm, length_takeSome_add_length_dropSome]

/-- The error of some lines points at one of them. -/
theorem line_of_error {n : Nat} {lines : List Text} {e : ExtractError}
    (h : ofLines n lines = .error e) : n ≤ e.line ∧ e.line < n + lines.length := by
  induction n, lines using ofLines.induct with
  | case1 n =>
    rw [ofLines] at h
    cases h
  | case2 n line rest hfiller ih =>
    rw [ofLines_of_isFiller hfiller] at h
    obtain ⟨hfrom, hto⟩ := ih h
    rw [List.length_cons]
    omega
  | case3 n line rest hfiller text htext =>
    rw [ofLines_of_output hfiller htext] at h
    cases h
    simp [ExtractError.line]
  | case4 n line rest hfiller hnone indent snippet afterCode expected later =>
    rename_i ih
    rw [ofLines_of_code hfiller hnone] at h
    obtain ⟨hfrom, hto⟩ := ih (map_eq_error.mp h)
    have hlength : snippet.length + expected.length + later.length = (line :: rest).length :=
      length_code_add_length_output line rest indent
    omega

/-- The error of a zone points at a line of it. -/
theorem line_of_ofZone_eq_error {z : Zone} {e : ExtractError} (h : ofZone z = .error e) :
    z.line ≤ e.line ∧ e.line < z.next :=
  line_of_error h

end Example

namespace Extraction

/-- The errors of zones are those of the zones one by one. -/
theorem mem_errors_ofZones {zones : List Zone} {e : ExtractError} :
    e ∈ (ofZones zones).errors ↔ ∃ z ∈ zones, Example.ofZone z = .error e := by
  simp only [ofZones_eq, List.mem_filterMap, error?_eq_some]

/-- The errors of a scan and of its zones point at different lines. -/
theorem pairwise_ne_errors {s : Scan} (h : s.Apart) :
    (s.errors ++ (ofZones s.zones).errors).Pairwise fun a b => a.line ≠ b.line := by
  refine List.pairwise_append.mpr ⟨h.errors.imp Nat.ne_of_lt, ?_, fun a ha b hb => ?_⟩
  · rw [ofZones_eq, List.pairwise_filterMap]
    refine h.zones.imp fun {z z'} hnext a ha b hb => ?_
    have ha := Example.line_of_ofZone_eq_error (error?_eq_some.mp ha)
    have hb := Example.line_of_ofZone_eq_error (error?_eq_some.mp hb)
    omega
  · obtain ⟨z, hz, hb⟩ := mem_errors_ofZones.mp hb
    have hb := Example.line_of_ofZone_eq_error hb
    have hout := h.outside a ha z hz
    omega

/-- The errors of a document are those of its scan and those of the zones at fault. -/
theorem perm_errors_ofDocument (kind : DocumentKind) (document : Text) :
    (ofDocument kind document).errors.Perm
      ((kind.delimiters.scan document).errors ++
        (ofZones (kind.delimiters.scan document).zones).errors) :=
  List.mergeSort_perm _ _

/-- An error of a document points at a line of it. -/
theorem line_of_mem_errors_ofDocument {kind : DocumentKind} {document : Text} {e : ExtractError}
    (h : e ∈ (ofDocument kind document).errors) :
    1 ≤ e.line ∧ e.line ≤ document.lines.length := by
  rcases List.mem_append.mp ((perm_errors_ofDocument kind document).mem_iff.mp h) with h | h
  · exact Delimiters.line_of_mem_errors h
  · obtain ⟨z, hz, herror⟩ := mem_errors_ofZones.mp h
    have hinside := Example.line_of_ofZone_eq_error herror
    have hbounds := (kind.delimiters.cover_scan document).bounds z hz
    omega

/-- The errors of a document follow one another by line. -/
theorem pairwise_errors_ofDocument (kind : DocumentKind) (document : Text) :
    (ofDocument kind document).errors.Pairwise fun a b => a.line < b.line :=
  pairwise_lt_mergeSort (pairwise_ne_errors (kind.delimiters.apart_scan document))

/-- What is wrong with one place of a document takes nothing from the others. Its examples are those
of the zones that are not at fault, in order; its errors are one for every fence that is never
closed and one for every zone at fault. No two errors share a line, and none lies among the lines of
an example. -/
theorem ofDocument_local (kind : DocumentKind) (document : Text) :
    let s := kind.delimiters.scan document
    let found := ofDocument kind document
    found.examples = (s.zones.filterMap fun z => (Example.ofZone z).toOption).flatten ∧
    found.errors.Perm (s.errors ++ s.zones.filterMap fun z => error? (Example.ofZone z)) ∧
    (∀ e, e ∈ s.errors ↔ kind.delimiters.Unclosed document e) ∧
    (found.errors.Pairwise fun a b => a.line < b.line) ∧
    (found.examples.Pairwise fun a b => a.line < b.line) ∧
    ∀ error ∈ found.errors, ∀ e ∈ found.examples, error.line < e.line ∨ e.stop ≤ error.line := by
  intro s found
  have hapart : s.Apart := kind.delimiters.apart_scan document
  have hcover : Zone.Cover 1 document.lines s.zones := kind.delimiters.cover_scan document
  have hlaid : Example.Laid (fun _ => True) 1 document.lines found.examples := hcover.laid
  have hperm : found.errors.Perm (s.errors ++ (ofZones s.zones).errors) :=
    perm_errors_ofDocument kind document
  have hexamples : found.examples = (ofZones s.zones).examples := rfl
  have herrors := hperm
  rw [ofZones_eq] at hexamples herrors
  refine ⟨hexamples, herrors, kind.delimiters.mem_errors_scan document,
    pairwise_errors_ofDocument kind document, ?_, fun error herror e he => ?_⟩
  · refine hlaid.pairwise.imp_of_mem fun {a b} ha _ hstop => ?_
    have hpos := List.length_pos_of_ne_nil (hlaid.standsIn [] rfl a ha).snippet_ne_nil
    rw [Example.stop] at hstop
    omega
  · obtain ⟨z, hz, own, hown, hmem⟩ := mem_ofZones.mp he
    have hinside := (Example.laid_ofLines hown).bounds e hmem
    have hnext : z.next = z.line + z.text.lines.length := rfl
    rcases List.mem_append.mp (hperm.mem_iff.mp herror) with hscan | hzone
    · have hout := hapart.outside error hscan z hz
      omega
    · obtain ⟨z', hz', herror⟩ := mem_errors_ofZones.mp hzone
      have hbounds := Example.line_of_ofZone_eq_error herror
      have hne : z ≠ z' := by
        rintro rfl
        rw [hown] at herror
        cases herror
      have hout := hapart.disjoint hz hz' hne
      omega

end Extraction

end Literate
