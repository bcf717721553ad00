import Literate.Proofs.Document.Fidelity
import Literate.Proofs.Document.Rendering

/-!
# Line endings do not matter

Of a document nothing is looked at but the texts of its lines. Documents whose lines read alike have
the same examples and errors, wherever their lines begin; so a document in which every line ends in
a carriage return and a line feed has those of the document without the carriage returns.
-/

namespace Literate

namespace Text

/-- A text with a carriage return before every line feed. -/
def crlf (t : Text) : Text :=
  t.flatMap fun c => if c = '\n' then ['\r', '\n'] else [c]

private theorem crlf_cons_newline (t : Text) : crlf ('\n' :: t) = '\r' :: '\n' :: crlf t := rfl

private theorem crlf_cons_of_ne {c : Char} (h : c ≠ '\n') (t : Text) :
    crlf (c :: t) = c :: crlf t := by
  rw [crlf, List.flatMap_cons, if_neg h]
  rfl

private theorem crlf_append (s t : Text) : crlf (s ++ t) = crlf s ++ crlf t :=
  List.flatMap_append

/-- A text without a line feed stays as it is. -/
theorem crlf_of_newline_notMem {t : Text} (h : '\n' ∉ t) : crlf t = t := by
  induction t with
  | nil => rfl
  | cons c t ih =>
    have hc : c ≠ '\n' := fun hc => h (hc ▸ List.mem_cons_self)
    rw [crlf_cons_of_ne hc, ih fun hmem => h (List.mem_cons_of_mem _ hmem)]

/-- The lines stay the same lines. -/
theorem rawLines_crlf (t : Text) : rawLines (crlf t) = t.rawLines.map crlf := by
  induction t with
  | nil => rfl
  | cons c t ih =>
    by_cases hc : c = '\n'
    · subst hc
      have hleft : rawLines ('\r' :: '\n' :: crlf t) = ['\r', '\n'] :: rawLines (crlf t) := by
        simp [rawLines, cutAfter]
      have hright : rawLines ('\n' :: t) = ['\n'] :: rawLines t := by simp [rawLines, cutAfter]
      rw [crlf_cons_newline, hleft, hright, ih]
      rfl
    · rw [rawLines] at ih ⊢
      rw [crlf_cons_of_ne hc, rawLines, cutAfter, cutAfter, ih, rawLines]
      cases cutAfter (· = '\n') t with
      | nil => simp [hc, crlf]
      | cons piece pieces => simp [hc, crlf_cons_of_ne]

/-- What the carriage return does to a line: it is put before the line feed that ends it, if there
is one. -/
theorem crlf_of_mem_rawLines {t raw : Text} (h : raw ∈ t.rawLines) :
    (∃ line, raw = ended line ∧ crlf raw = ended (line ++ ['\r'])) ∨ crlf raw = raw := by
  obtain ⟨front, last, rfl, hfront⟩ := exists_of_mem_cutAfter h
  have hfeed : '\n' ∉ front := fun hmem => by simpa using hfront _ hmem
  by_cases hlast : last = '\n'
  · subst hlast
    refine .inl ⟨front, rfl, ?_⟩
    rw [crlf_append, crlf_of_newline_notMem hfeed, ended, List.append_assoc]
    rfl
  · refine .inr (crlf_of_newline_notMem ?_)
    simpa [hfeed] using Ne.symm hlast

end Text

namespace Line

/-- What is read of a line: its number, and its text, where zones and where examples are looked
for. -/
def reading (l : Line) : Nat × Text × Text :=
  (l.number, l.text, l.plain)

/-- A line that is ended by a line feed is read as one that is ended by both, if it holds no
carriage return itself. -/
theorem reading_ended {line : Text} (h : '\r' ∉ line) (n start start' : Nat) :
    reading ⟨n, start, Text.ended (line ++ ['\r'])⟩ = reading ⟨n, start', line.ended⟩ := by
  have hchop : (line ++ ['\r']).chop '\r' = line.chop '\r' := by
    rw [Text.chop_of_getLast?_ne fun hlast => h (List.mem_of_getLast? hlast), Text.chop]
    simp
  have htext : Line.text ⟨n, start, Text.ended (line ++ ['\r'])⟩ =
      Line.text ⟨n, start', line.ended⟩ := by
    rw [text_of_raw_ended rfl, text_of_raw_ended rfl, hchop]
  have hplain : plain ⟨n, start, Text.ended (line ++ ['\r'])⟩ = plain ⟨n, start', line.ended⟩ := by
    rw [plain, plain, Text.unterminated_ended, Text.unterminated_ended, hchop]
  rw [reading, reading, htext, hplain]

private theorem map_reading_place {t : Text} (h : '\r' ∉ t) {raws : List Text}
    (hraws : ∀ raw ∈ raws, raw ∈ t.rawLines) (n start start' : Nat) :
    (place n start (raws.map Text.crlf)).map reading = (place n start' raws).map reading := by
  induction raws generalizing n start start' with
  | nil => rfl
  | cons raw rest ih =>
    obtain ⟨hraw, hrest⟩ := List.forall_mem_cons.mp hraws
    have hreturn : '\r' ∉ raw := by
      intro hmem
      apply h
      rw [← t.flatten_rawLines]
      exact List.mem_flatten.mpr ⟨raw, hraw, hmem⟩
    have hline : reading ⟨n, start, raw.crlf⟩ = reading ⟨n, start', raw⟩ := by
      rcases Text.crlf_of_mem_rawLines hraw with ⟨line, rfl, hcrlf⟩ | hcrlf
      · rw [hcrlf]
        exact reading_ended (fun hmem => hreturn (List.mem_append_left _ hmem)) n start start'
      · rw [hcrlf]
        rfl
    rw [List.map_cons, place, place, List.map_cons, List.map_cons, hline, ih hrest]

/-- The lines of a document read as they do without the carriage returns. -/
theorem map_reading_crlf {document : Text} (h : '\r' ∉ document) :
    (ofDocument document.crlf).map reading = (ofDocument document).map reading := by
  rw [ofDocument, Text.rawLines_crlf, ofDocument]
  exact map_reading_place h (fun _ hraw => hraw) 1 0 0

variable {ls ls' : List Line}

/-- Lines that read alike have a text of some kind among them or none. -/
theorem any_congr (h : ls.map reading = ls'.map reading) (p : Text → Bool) :
    (ls.any fun l => p l.text) = ls'.any fun l => p l.text := by
  have hread (ls : List Line) : (ls.any fun l => p l.text) =
      (ls.map reading).any fun r => p r.2.1 := by
    rw [List.any_map]
    rfl
  rw [hread, hread, h]

/-- The first lines with texts of some kind read alike in lines that do. -/
theorem map_plain_takeWhile_congr (h : ls.map reading = ls'.map reading) (p : Text → Bool) :
    (ls.takeWhile fun l => p l.text).map plain = (ls'.takeWhile fun l => p l.text).map plain := by
  have hread (ls : List Line) : (ls.takeWhile fun l => p l.text).map plain =
      ((ls.map reading).takeWhile fun r => p r.2.1).map (·.2.2) := by
    rw [List.takeWhile_map, List.map_map]
    rfl
  rw [hread, hread, h]

end Line

namespace Zone

/-- What is read of a zone: the number of its first line, and its lines. -/
def reading (z : Zone) : Nat × List Text :=
  (z.line, z.text.lines)

/-- The zone of the lines that satisfy `p` is read off these lines. -/
theorem reading_after {n : Nat} {l : Line} {rest : List Line} (h : Line.Run n (l :: rest))
    (marker : Text) (p : Line → Bool) :
    (after l marker (rest.takeWhile p)).reading =
      (l.number + 1, (rest.takeWhile p).map Line.plain) := by
  have hrest := h.cons.2
  rw [← List.takeWhile_append_dropWhile (p := p) (l := rest)] at hrest
  rw [reading, after, hrest.append.1.lines]

end Zone

namespace Scan

/-- Two scans find zones that read alike and the same errors. -/
def Alike (s s' : Scan) : Prop :=
  s.zones.map Zone.reading = s'.zones.map Zone.reading ∧ s.errors = s'.errors

end Scan

/-- Lines that read alike are scanned alike. -/
theorem Fence.scan_alike (languages : List Text) (inside : Option Fence) {n : Nat}
    {ls ls' : List Line} (h : ls.map Line.reading = ls'.map Line.reading) (hr : Line.Run n ls)
    (hr' : Line.Run n ls') : (scan languages inside ls).Alike (scan languages inside ls') := by
  induction ls generalizing inside n ls' with
  | nil =>
    obtain rfl := List.map_eq_nil_iff.mp h.symm
    exact ⟨rfl, rfl⟩
  | cons l rest ih =>
    cases ls' with
    | nil => cases h
    | cons l' rest' =>
      obtain ⟨hl, hrest⟩ := List.cons.inj h
      have hnumber : l.number = l'.number := congrArg Prod.fst hl
      have htext : l.text = l'.text := congrArg (·.2.1) hl
      have ih (inside) := ih inside hrest hr.cons.2 hr'.cons.2
      cases inside with
      | some f =>
        rw [scan, scan, htext]
        split
        · exact ih none
        · exact ih (some f)
      | none =>
        rw [scan, scan, htext]
        cases opener? languages l'.text with
        | none => exact ih none
        | some f =>
          dsimp only
          rw [Line.any_congr hrest f.closedBy]
          split
          · obtain ⟨hzones, herrors⟩ := ih (some f)
            refine ⟨?_, herrors⟩
            rw [List.map_cons, List.map_cons, hzones, Zone.reading_after hr, Zone.reading_after hr',
              hnumber, Line.map_plain_takeWhile_congr hrest fun t => !f.closedBy t]
          · obtain ⟨hzones, herrors⟩ := ih none
            refine ⟨hzones, ?_⟩
            rw [herrors, hnumber]

/-- Lines that read alike are scanned alike. -/
theorem Comment.scan_alike (sigil : Text) (inside : Option Text) {n : Nat} {ls ls' : List Line}
    (h : ls.map Line.reading = ls'.map Line.reading) (hr : Line.Run n ls)
    (hr' : Line.Run n ls') :
    (scan sigil inside ls).map Zone.reading = (scan sigil inside ls').map Zone.reading := by
  induction ls generalizing inside n ls' with
  | nil =>
    obtain rfl := List.map_eq_nil_iff.mp h.symm
    rfl
  | cons l rest ih =>
    cases ls' with
    | nil => cases h
    | cons l' rest' =>
      obtain ⟨hl, hrest⟩ := List.cons.inj h
      have hnumber : l.number = l'.number := congrArg Prod.fst hl
      have htext : l.text = l'.text := congrArg (·.2.1) hl
      have ih (inside) := ih inside hrest hr.cons.2 hr'.cons.2
      rw [scan, scan, htext]
      split
      · exact ih inside
      · cases opener? sigil l'.text with
        | none => exact ih none
        | some indent =>
          dsimp only
          have hplain := Line.map_plain_takeWhile_congr hrest (continues sigil indent)
          have hzone := Zone.reading_after hr sigil fun k => continues sigil indent k.text
          have hzone' := Zone.reading_after hr' sigil fun k => continues sigil indent k.text
          cases hcontent : rest.takeWhile fun k => continues sigil indent k.text with
          | nil =>
            rw [hcontent] at hplain
            rw [List.map_eq_nil_iff.mp hplain.symm]
            exact ih none
          | cons first others =>
            cases hcontent' : rest'.takeWhile fun k => continues sigil indent k.text with
            | nil =>
              rw [hcontent, hcontent'] at hplain
              cases hplain
            | cons first' others' =>
              rw [hcontent] at hzone hplain
              rw [hcontent'] at hzone' hplain
              dsimp only
              rw [List.map_cons, List.map_cons, hzone, hzone', hnumber, hplain, ih (some indent)]

namespace Extraction

/-- Zones that read alike have the same examples and errors. -/
theorem ofZones_congr {zones zones' : List Zone}
    (h : zones.map Zone.reading = zones'.map Zone.reading) : ofZones zones = ofZones zones' := by
  have hread {α : Type} (f : Except ExtractError (List Example) → Option α) (zones : List Zone) :
      (zones.filterMap fun z => f (Example.ofZone z)) =
        (zones.map Zone.reading).filterMap fun r => f (Example.ofLines r.1 r.2) := by
    rw [List.filterMap_map]
    rfl
  rw [ofZones_eq, ofZones_eq, hread Except.toOption zones, hread Except.toOption zones',
    hread error? zones, hread error? zones', h]

/-- Documents whose lines read alike have the same examples and errors. -/
theorem ofDocument_congr (kind : DocumentKind) {document document' : Text}
    (h : (Line.ofDocument document).map Line.reading =
      (Line.ofDocument document').map Line.reading) :
    ofDocument kind document = ofDocument kind document' := by
  have hr := Line.Run.ofDocument document
  have hr' := Line.Run.ofDocument document'
  have halike : (kind.delimiters.scan document).Alike (kind.delimiters.scan document') := by
    cases kind with
    | markdown => exact Fence.scan_alike _ none h hr hr'
    | header => exact ⟨Comment.scan_alike _ none h hr hr', rfl⟩
  obtain ⟨hzones, herrors⟩ := halike
  simp only [ofDocument]
  rw [ofZones_congr hzones, herrors]

/-- A carriage return before every line feed changes nothing of what is found in a document that
holds none. -/
theorem ofDocument_crlf {document : Text} (h : '\r' ∉ document) (kind : DocumentKind) :
    ofDocument kind document.crlf = ofDocument kind document :=
  ofDocument_congr kind (Line.map_reading_crlf h)

/-- A fence that is never closed, a block with a marker alone on its line, and a last line without
an end. -/
theorem ofDocument_crlf_unclosed :
    '\r' ∉ "~~~~c\n```cpp\nf(1)\n// ->\n\ng\n``` ".toList ∧
      ofDocument .markdown "~~~~c\r\n```cpp\r\nf(1)\r\n// ->\r\n\r\ng\r\n``` ".toList =
        { examples := [⟨[], ["f(1)".toList], [[]], 3⟩, ⟨[], ["g".toList], [], 6⟩],
          errors := [.unterminatedFence 1 "~~~~".toList] } := by
  have h : '\r' ∉ "~~~~c\n```cpp\nf(1)\n// ->\n\ng\n``` ".toList := by decide
  exact ⟨h, (ofDocument_crlf h .markdown).trans (by decide +kernel)⟩

end Extraction

end Literate
