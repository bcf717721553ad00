import Literate.Proofs.Document.Detection

/-!
# Comment blocks are found exactly

A line that holds a sign and nothing else opens a block, if the line after it goes on the block; and
the block takes every line up to the first that does not go on it. A line of a block is longer than
one that opens a block, so none of them opens another. The scan therefore meets every line that
opens a block outside the ones before, and finds each block once.
-/

namespace Literate.Comment

/-- A line opens a block: it is the spaces that it begins with, all of them, the sign, and nothing
or one space more. -/
def Opens (sigil indent line : Text) : Prop :=
  ∃ rest, line = indent ++ rest ∧ (∀ c ∈ indent, c = ' ') ∧ rest.head? ≠ some ' ' ∧
    (rest = sigil ∨ rest = sigil ++ [' '])

/-- A line goes on a block: it begins with the spaces of the line that opened it, the sign and five
spaces. -/
def GoesOn (sigil indent line : Text) : Prop :=
  ∃ code, line = indent ++ (sigil ++ (List.replicate 5 ' ' ++ code))

/-- A block: a line that opens it, the lines that go on it, at least one, and no further line that
does. -/
structure Block (sigil indent : Text) (opener : Line) (content after : List Line) : Prop where
  opens : Opens sigil indent opener.text
  ne_nil : content ≠ []
  goesOn : ∀ l ∈ content, GoesOn sigil indent l.text
  ends : ∀ l ∈ after.head?, ¬GoesOn sigil indent l.text

/-- A zone that holds exactly some lines, from where the first begins to where the last ends. -/
structure Holds (content : List Line) (z : Zone) : Prop where
  line : ∀ l ∈ content.head?, z.line = l.number
  start : ∀ l ∈ content.head?, z.start = l.start
  stop : ∀ l ∈ content.getLast?, z.stop = l.stop
  text : z.text = content.flatMap Line.raw

variable {sigil indent line : Text} {l opener : Line} {ls content after : List Line}
  {zones : List Zone} {z : Zone} {n start : Nat}

/-- A line is found to open a block exactly if it does. -/
theorem opener?_eq_some : opener? sigil line = some indent ↔ Opens sigil indent line := by
  constructor
  · intro h
    have hsplit : line = line.takeWhile (· = ' ') ++ line.dropWhile (· = ' ') :=
      List.takeWhile_append_dropWhile.symm
    have hspaces : ∀ c ∈ line.takeWhile (· = ' '), c = ' ' := fun c hc => by
      simpa using List.mem_takeWhile_imp hc
    have hhead : (line.dropWhile (· = ' ')).head? ≠ some ' ' := fun hc => by
      simpa [hc] using List.head?_dropWhile_not (· = ' ') line
    unfold opener? at h
    split at h
    · next hafter =>
      obtain rfl := Option.some.inj h
      exact ⟨_, hsplit, hspaces, hhead, .inl (by simpa using Text.after?_eq_some.mp hafter)⟩
    · next hafter =>
      obtain rfl := Option.some.inj h
      exact ⟨_, hsplit, hspaces, hhead, .inr (Text.after?_eq_some.mp hafter)⟩
    · cases h
  · rintro ⟨rest, rfl, hspaces, hhead, hrest⟩
    have hstop : ∀ c ∈ rest.head?, decide (c = ' ') = false := by
      rintro c hc
      exact decide_eq_false fun h => hhead (h ▸ hc)
    obtain ⟨htake, hdrop⟩ := Text.takeWhile_dropWhile_append (by simpa using hspaces) hstop
    rw [opener?, htake, hdrop]
    rcases hrest with rfl | rfl
    · rw [Text.after?_eq_some.mpr (List.append_nil rest).symm]
    · rw [Text.after?_append]
      rfl

/-- A line is no opener exactly if it opens no block behind any indentation. -/
theorem opener?_eq_none : opener? sigil line = none ↔ ∀ indent, ¬Opens sigil indent line := by
  rw [Option.eq_none_iff_forall_ne_some]
  exact forall_congr' fun indent => not_congr opener?_eq_some

/-- A line is found to go on a block exactly if it does. -/
theorem continues_iff : continues sigil indent line = true ↔ GoesOn sigil indent line := by
  rw [continues, List.isPrefixOf_iff_prefix, margin]
  simp only [GoesOn, List.IsPrefix, List.append_assoc, eq_comm]

/-- A line opens blocks behind no more than one indentation. -/
theorem Opens.unique {indent' : Text} (h : Opens sigil indent line)
    (h' : Opens sigil indent' line) : indent = indent' := by
  have h := opener?_eq_some.mpr h
  have h' := opener?_eq_some.mpr h'
  exact Option.some.inj (h.symm.trans h')

/-- The sign of a line that opens a block does not begin with a space. -/
theorem Opens.head?_sigil (h : Opens sigil indent line) : sigil.head? ≠ some ' ' := by
  obtain ⟨rest, -, -, hhead, rfl | rfl⟩ := h
  · exact hhead
  · intro hspace
    exact hhead (by rw [List.head?_append, hspace]; rfl)

/-- No line of a block opens another one. -/
theorem GoesOn.not_opens {indent' : Text} (hsigil : sigil ≠ []) (hindent : ∀ c ∈ indent, c = ' ')
    (h : GoesOn sigil indent line) : ¬Opens sigil indent' line := by
  rintro hopens
  obtain ⟨code, rfl⟩ := h
  -- The spaces before the sign are all those that the line begins with, so they are the same.
  have hsame : Opens sigil indent' (indent ++ (sigil ++ (List.replicate 5 ' ' ++ code))) := hopens
  obtain ⟨rest, hline, hspaces, hhead, hrest⟩ := hopens
  have hsign : (sigil ++ (List.replicate 5 ' ' ++ code)).head? ≠ some ' ' := by
    obtain ⟨c, more, rfl⟩ := List.exists_cons_of_ne_nil hsigil
    exact hsame.head?_sigil
  have hdrop {w t : Text} (hw : ∀ c ∈ w, c = ' ') (ht : t.head? ≠ some ' ') :
      (w ++ t).dropWhile (· = ' ') = t :=
    (Text.takeWhile_dropWhile_append (p := (· = ' ')) (by simpa using hw) fun c hc =>
      decide_eq_false fun h => ht (h ▸ hc)).2
  have hrests := (hdrop hindent hsign).symm.trans ((congrArg _ hline).trans (hdrop hspaces hhead))
  have hlength := congrArg List.length hrests
  rcases hrest with rfl | rfl <;>
    simp only [List.length_append, List.length_replicate, List.length_cons, List.length_nil]
      at hlength <;> omega

/-- What scanning some lines comes to: lines that open nothing are passed over, and so are those
that no line goes on; a line that opens a block takes the lines that go on it. -/
inductive Scanned (sigil : Text) : List Line → List Zone → Prop
  | nil : Scanned sigil [] []
  | plain {l : Line} {rest : List Line} {zones : List Zone}
    (hplain : ∀ indent, Opens sigil indent l.text → ∀ k ∈ rest.head?, ¬GoesOn sigil indent k.text)
    (hrest : Scanned sigil rest zones) : Scanned sigil (l :: rest) zones
  | block {indent : Text} {l : Line} {content rest : List Line} {zones : List Zone}
    (hblock : Block sigil indent l content rest) (hrest : Scanned sigil rest zones) :
    Scanned sigil (l :: (content ++ rest)) (Zone.after l sigil content :: zones)

/-- Lines that go on a block are passed over. -/
theorem scan_some (sigil indent : Text) (ls : List Line) :
    scan sigil (some indent) ls =
      scan sigil none (ls.dropWhile fun l => continues sigil indent l.text) := by
  induction ls with
  | nil => rfl
  | cons l rest ih =>
    rw [scan, List.dropWhile_cons]
    split
    · next h =>
      rw [if_pos (by simpa using h)]
      exact ih
    · next h =>
      rw [if_neg (by simpa using h), scan, Option.any_none, if_neg Bool.false_ne_true]

/-- The scan finds the blocks as they are described. -/
theorem scanned_scan (sigil : Text) (ls : List Line) : Scanned sigil ls (scan sigil none ls) := by
  induction hn : ls.length using Nat.strong_induction_on generalizing ls with
  | _ n ih =>
    subst hn
    cases ls with
    | nil => exact .nil
    | cons l rest =>
      have hrest := ih rest.length (by simp) rest rfl
      cases hopener : opener? sigil l.text with
      | none =>
        rw [scan, Option.any_none, if_neg Bool.false_ne_true, hopener]
        exact .plain (fun indent hopens => absurd hopens (opener?_eq_none.mp hopener indent)) hrest
      | some indent =>
        have hopens := opener?_eq_some.mp hopener
        let p (k : Line) : Bool := continues sigil indent k.text
        have hsplit : rest.takeWhile p ++ rest.dropWhile p = rest :=
          List.takeWhile_append_dropWhile
        have hend : ∀ k ∈ (rest.dropWhile p).head?, ¬GoesOn sigil indent k.text := by
          intro k hk hgoes
          have hnot := List.head?_dropWhile_not p rest
          rw [Option.mem_def.mp hk] at hnot
          exact absurd (continues_iff.mpr hgoes) (Bool.eq_false_iff.mp hnot)
        rw [scan, Option.any_none, if_neg Bool.false_ne_true, hopener]
        dsimp only
        split
        · next hnone =>
          refine .plain (fun indent' hopens' k hk => ?_) hrest
          rw [← hopens.unique hopens']
          have hdrop : rest.dropWhile p = rest := by
            conv_rhs => rw [← hsplit, show rest.takeWhile p = [] from hnone, List.nil_append]
          rw [← hdrop] at hk
          exact hend k hk
        · next hne =>
          have hblock : Block sigil indent l (rest.takeWhile p) (rest.dropWhile p) :=
            ⟨hopens, hne, fun k hk => continues_iff.mp (List.mem_takeWhile_imp (p := p) hk), hend⟩
          have hlater := ih (rest.dropWhile p).length
            (Nat.lt_succ_of_le (List.dropWhile_sublist p).length_le) _ rfl
          have hscanned := Scanned.block hblock hlater
          rw [hsplit] at hscanned
          rw [scan_some]
          exact hscanned

/-- The lines of a block are those after its first line that go on it. -/
theorem Block.content_eq (h : Block sigil indent opener content after) :
    content = (content ++ after).takeWhile fun l => continues sigil indent l.text := by
  rw [List.takeWhile_append_of_pos fun l hl => continues_iff.mpr (h.goesOn l hl)]
  cases after with
  | nil => simp
  | cons l after =>
    have hl : ¬continues sigil indent l.text = true := mt continues_iff.mp (h.ends l rfl)
    simp [hl]

/-- The zones that a scan finds are those of the blocks. -/
theorem Scanned.mem_iff (hsigil : sigil ≠ []) (h : Scanned sigil ls zones) :
    z ∈ zones ↔ ∃ before opener content after indent,
      ls = before ++ opener :: (content ++ after) ∧ Block sigil indent opener content after ∧
        z = Zone.after opener sigil content := by
  induction h with
  | nil => simp
  | @plain l rest zones hplain hrest ih =>
    rw [ih]
    constructor
    · rintro ⟨before, opener, content, after, indent, rfl, hblock, rfl⟩
      exact ⟨l :: before, opener, content, after, indent, rfl, hblock, rfl⟩
    · rintro ⟨before, opener, content, after, indent, hls, hblock, rfl⟩
      cases before with
      | nil =>
        obtain ⟨rfl, rfl⟩ := List.cons.inj hls
        obtain ⟨k, content, rfl⟩ := List.exists_cons_of_ne_nil hblock.ne_nil
        exact absurd (hblock.goesOn k List.mem_cons_self) (hplain indent hblock.opens k rfl)
      | cons x before =>
        obtain ⟨rfl, rfl⟩ := List.cons.inj hls
        exact ⟨before, opener, content, after, indent, rfl, hblock, rfl⟩
  | @block indent l content rest zones hblock hrest ih =>
    rw [List.mem_cons, ih]
    constructor
    · rintro (rfl | ⟨before, opener, content', after, indent', rfl, hblock', rfl⟩)
      · exact ⟨[], l, content, rest, indent, rfl, hblock, rfl⟩
      · exact ⟨l :: content ++ before, opener, content', after, indent', by simp, hblock', rfl⟩
    · rintro ⟨before, opener, content', after, indent', hls, hblock', rfl⟩
      cases before with
      | nil =>
        obtain ⟨rfl, hsame⟩ := List.cons.inj hls
        obtain rfl := hblock.opens.unique hblock'.opens
        have hcontent : content' = content := by
          rw [hblock'.content_eq, ← hsame, ← hblock.content_eq]
        exact .inl (hcontent ▸ rfl)
      | cons x before =>
        obtain ⟨rfl, hsame⟩ := List.cons.inj hls
        rcases List.append_eq_append_iff.mp hsame with ⟨later, rfl, hlater⟩ | ⟨inner, hinner, hafter⟩
        · exact .inr ⟨later, opener, content', after, indent', hlater, hblock', rfl⟩
        · cases inner with
          | nil => exact .inr ⟨[], opener, content', after, indent', hafter.symm, hblock', rfl⟩
          | cons k inner =>
            obtain ⟨rfl, -⟩ := List.cons.inj hafter
            have hk : opener ∈ content := by simp [hinner]
            obtain ⟨_, -, hspaces, -⟩ := hblock.opens
            exact absurd hblock'.opens ((hblock.goesOn opener hk).not_opens hsigil hspaces)

/-- The zone of a block holds the lines that go on it. -/
theorem holds_after (sigil : Text) (hp : Line.Placed n start (opener :: (content ++ after)))
    (hne : content ≠ []) : Holds content (Zone.after opener sigil content) := by
  obtain ⟨hnumber, -, hplaced⟩ := hp.cons
  refine ⟨fun l hl => ?_, fun l hl => ?_, fun l hl => ?_, rfl⟩
  · obtain ⟨more, rfl⟩ := List.head?_eq_some_iff.mp hl
    obtain ⟨hline, -, -⟩ := hplaced.cons
    simp only [Zone.after]
    omega
  · obtain ⟨more, rfl⟩ := List.head?_eq_some_iff.mp hl
    obtain ⟨-, hbegin, -⟩ := hplaced.cons
    exact hbegin.symm
  · obtain ⟨init, rfl⟩ := List.getLast?_eq_some_iff.mp hl
    obtain ⟨-, hbegin, -⟩ := hplaced.append.1.append.2.cons
    simp only [Zone.after, Line.stop, List.flatMap_append, List.flatMap_singleton,
      Text.byteCount_append] at hbegin ⊢
    omega

/-- No two zones of one marker hold the same lines. -/
theorem Holds.unique {z' : Zone} (h : Holds content z) (h' : Holds content z')
    (hne : content ≠ []) (hmarker : z.marker = z'.marker) : z = z' := by
  have hfirst := List.head?_eq_some_head hne
  have hlast := List.getLast?_eq_some_getLast hne
  have hline := (h.line _ hfirst).trans (h'.line _ hfirst).symm
  have hstart := (h.start _ hfirst).trans (h'.start _ hfirst).symm
  have hstop := (h.stop _ hlast).trans (h'.stop _ hlast).symm
  have htext := h.text.trans h'.text.symm
  cases z
  simp_all

namespace Scanned

/-- Zones begin after the first of the lines. -/
theorem lt_of_mem (hsigil : sigil ≠ []) (h : Scanned sigil ls zones)
    (hp : Line.Placed n start ls) (hz : z ∈ zones) : n < z.line ∧ start ≤ z.start := by
  obtain ⟨before, opener, content, after, indent, rfl, -, rfl⟩ := (h.mem_iff hsigil).mp hz
  obtain ⟨hnumber, hstart⟩ := hp.le_of_mem (l := opener) (by simp)
  exact ⟨Nat.lt_succ_of_le hnumber, Nat.le_trans hstart opener.start_le_stop⟩

/-- Zones follow one another. -/
theorem pairwise (hsigil : sigil ≠ []) (h : Scanned sigil ls zones)
    (hp : Line.Placed n start ls) :
    zones.Pairwise fun a b => a.line < b.line ∧ a.stop ≤ b.start := by
  induction h generalizing n start with
  | nil => exact .nil
  | plain hplain hrest ih => exact ih hp.cons.2.2
  | @block indent l content rest zones hblock hrest ih =>
    obtain ⟨hnumber, -, hinner⟩ := hp.cons
    have hplaced := hinner.append.2
    refine .cons (fun z hz => ?_) (ih hplaced)
    obtain ⟨hline, hstart⟩ := hrest.lt_of_mem hsigil hplaced hz
    refine ⟨?_, hstart⟩
    simp only [Zone.after]
    omega

end Scanned

/-- The text of a zone is what stands between its places. -/
theorem excerpt_after (sigil : Text) {before : List Line}
    (hp : Line.Placed 1 0 (before ++ opener :: (content ++ after))) :
    (Zone.after opener sigil content).Excerpt 0
      ((before ++ opener :: (content ++ after)).flatMap Line.raw) := by
  obtain ⟨-, hstart, -⟩ := hp.append.2.cons
  refine ⟨before.flatMap Line.raw ++ opener.raw, after.flatMap Line.raw, by simp [Zone.after],
    ?_, rfl⟩
  rw [Text.byteCount_append, ← Nat.add_assoc, ← hstart]
  rfl

/-- The scan of a document finds its comment blocks exactly. Its zones are those that hold the lines
of a block, all that go on it after the line that opens it; they follow one another, so that each is
reported once; and the text of each is what stands in the document between its places. There are no
errors. -/
theorem zones_exact (hsigil : sigil ≠ []) (document : Text) :
    let s := (Delimiters.comments sigil).scan document
    (∀ z, z ∈ s.zones ↔ ∃ before opener content after indent,
      Line.ofDocument document = before ++ opener :: (content ++ after) ∧
        Block sigil indent opener content after ∧ z.marker = sigil ∧ Holds content z) ∧
    (s.zones.Pairwise fun a b => a.line < b.line ∧ a.stop ≤ b.start) ∧
    (∀ z ∈ s.zones, z.Excerpt 0 document) ∧ s.errors = [] := by
  intro s
  have hscan : Scanned sigil (Line.ofDocument document) s.zones := scanned_scan sigil _
  have hp : Line.Placed 1 0 (Line.ofDocument document) := Line.placed_ofDocument document
  refine ⟨fun z => ?_, hscan.pairwise hsigil hp, fun z hz => ?_, rfl⟩
  · rw [hscan.mem_iff hsigil]
    constructor
    · rintro ⟨before, opener, content, after, indent, hlines, hblock, rfl⟩
      have hholds := holds_after sigil (hlines ▸ hp).append.2 hblock.ne_nil
      exact ⟨before, opener, content, after, indent, hlines, hblock, rfl, hholds⟩
    · rintro ⟨before, opener, content, after, indent, hlines, hblock, hmarker, hz⟩
      have hholds := holds_after sigil (hlines ▸ hp).append.2 hblock.ne_nil
      exact ⟨before, opener, content, after, indent, hlines, hblock,
        hz.unique hholds hblock.ne_nil hmarker⟩
  · obtain ⟨before, opener, content, after, indent, hlines, -, rfl⟩ := (hscan.mem_iff hsigil).mp hz
    have htext := excerpt_after sigil (hlines ▸ hp)
    rwa [← hlines, Line.flatMap_raw_ofDocument] at htext

/-- Two blocks, of which the line that ends the first opens the second. -/
theorem zones_exact_consecutive :
    let s := (Delimiters.comments Example.sigil).scan
      "  ///\r\n  ///     f(1)\r\n  /// \n  ///     f(2)\n".toList
    Example.sigil ≠ [] ∧
      s.zones = [⟨Example.sigil, "  ///     f(1)\r\n".toList, 7, 23, 2⟩,
        ⟨Example.sigil, "  ///     f(2)\n".toList, 30, 45, 4⟩] ∧
      (s.zones.Pairwise fun a b => a.line < b.line ∧ a.stop ≤ b.start) := by
  intro s
  have hsigil : Example.sigil ≠ [] := by decide
  exact ⟨hsigil, by decide +kernel, (zones_exact hsigil _).2.1⟩

end Literate.Comment
