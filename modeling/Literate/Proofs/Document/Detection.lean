import Mathlib.Data.List.TakeWhile
import Literate.Proofs.Document.Rendering

/-!
# Fenced blocks are found exactly

A line that opens a fence of a known language either stands inside a zone, or the first later line
that closes its fence ends a zone of its own, or no later line closes it and it is reported. The
scan reports nothing else: its zones follow one another in the document, and each is the text
between its two places.
-/

namespace Literate

namespace Line

/-- No line ends before it begins. -/
theorem start_le_stop (l : Line) : l.start ≤ l.stop :=
  Nat.le_add_right _ _

/-- Lines that stand one after another from a number and a place on. -/
def Placed (n start : Nat) (ls : List Line) : Prop :=
  place n start (ls.map raw) = ls

/-- The lines of a document stand from the first number and the first byte on. -/
theorem placed_ofDocument (document : Text) : Placed 1 0 (ofDocument document) := by
  rw [Placed, ofDocument, map_raw_place]

namespace Placed

variable {n start : Nat} {a b ls : List Line} {l : Line}

/-- After the first of some lines the others stand where it ends. -/
theorem cons (h : Placed n start (l :: ls)) :
    l.number = n ∧ l.start = start ∧ Placed (n + 1) l.stop ls := by
  rw [Placed, List.map_cons, place] at h
  obtain ⟨hl, hls⟩ := List.cons.inj h
  have hnumber : n = l.number := congrArg number hl
  have hstart : start = l.start := congrArg Line.start hl
  refine ⟨hnumber.symm, hstart.symm, ?_⟩
  rw [hstart] at hls
  exact hls

/-- Lines that stand one after another can be parted anywhere. -/
theorem append (h : Placed n start (a ++ b)) :
    Placed n start a ∧ Placed (n + a.length) (start + Text.byteCount (a.flatMap raw)) b := by
  rw [Placed, List.map_append, place_append] at h
  have hlength : (place n start (a.map raw)).length = a.length := by
    have hraw := congrArg List.length (map_raw_place n start (a.map raw))
    rwa [List.length_map, List.length_map] at hraw
  obtain ⟨ha, hb⟩ := List.append_inj h hlength
  rw [List.length_map, ← List.flatMap_def] at hb
  exact ⟨ha, hb⟩

/-- The lines lie at and after the first number and the first place. -/
theorem le_of_mem (h : Placed n start ls) (hl : l ∈ ls) : n ≤ l.number ∧ start ≤ l.start := by
  induction ls generalizing n start with
  | nil => simp at hl
  | cons k ls ih =>
    obtain ⟨hnumber, hstart, hls⟩ := h.cons
    rcases List.mem_cons.mp hl with rfl | hl
    · exact ⟨hnumber.ge, hstart.ge⟩
    · obtain ⟨hn, hs⟩ := ih hls hl
      have hstop := k.start_le_stop
      omega

/-- Of two lines, one stands wholly before the other, if they are not the same. -/
theorem trichotomy {k : Line} (h : Placed n start ls) (hk : k ∈ ls) (hl : l ∈ ls) :
    k.number < l.number ∧ k.stop ≤ l.start ∨ k = l ∨
      l.number < k.number ∧ l.stop ≤ k.start := by
  induction ls generalizing n start with
  | nil => simp at hk
  | cons x ls ih =>
    obtain ⟨hnumber, -, hls⟩ := h.cons
    have hafter : ∀ y ∈ ls, x.number < y.number ∧ x.stop ≤ y.start := by
      intro y hy
      obtain ⟨hn, hs⟩ := hls.le_of_mem hy
      exact ⟨by omega, hs⟩
    rcases List.mem_cons.mp hk with hkx | hk
    · rcases List.mem_cons.mp hl with hlx | hl
      · exact .inr (.inl (hkx.trans hlx.symm))
      · exact .inl (hkx ▸ hafter l hl)
    · rcases List.mem_cons.mp hl with hlx | hl
      · exact .inr (.inr (hlx ▸ hafter k hk))
      · exact ih hls hk hl

/-- Lines that come first have lower numbers than those after them. -/
theorem number_lt_of_append {k : Line} (h : Placed n start (a ++ b)) (hk : k ∈ a) (hl : l ∈ b) :
    k.number < l.number := by
  have hle := (h.append.2.le_of_mem hl).1
  induction a generalizing n start with
  | nil => simp at hk
  | cons x a ih =>
    obtain ⟨hnumber, -, hrest⟩ := h.cons
    rcases List.mem_cons.mp hk with rfl | hk
    · rw [hnumber]
      rw [List.length_cons] at hle
      omega
    · refine ih hrest hk ?_
      rw [List.length_cons] at hle
      omega

/-- Of lines that stand one after another, none comes after the last. -/
theorem le_last {k : Line} (h : Placed n start (a ++ [k])) (hl : l ∈ a ++ [k]) :
    l.number ≤ k.number ∧ l.start ≤ k.start := by
  rcases List.mem_append.mp hl with hl | hl
  · have hk : k ∈ a ++ [k] := by simp
    have hlt := h.number_lt_of_append hl List.mem_cons_self
    have hstop := l.start_le_stop
    rcases h.trichotomy (List.mem_append_left _ hl) hk with ⟨-, hle⟩ | rfl | ⟨hgt, -⟩ <;> omega
  · rw [List.mem_singleton.mp hl]
    exact ⟨Nat.le_refl _, Nat.le_refl _⟩

/-- The places of an opening line, of a closing line and of the lines after it. -/
theorem block {closer : Line} {content rest : List Line}
    (h : Placed n start (l :: (content ++ closer :: rest))) :
    l.number = n ∧ l.start = start ∧ closer.number = n + 1 + content.length ∧
      closer.start = l.stop + Text.byteCount (content.flatMap raw) ∧
      Placed (closer.number + 1) closer.stop rest := by
  obtain ⟨hnumber, hstart, hinner⟩ := h.cons
  obtain ⟨hcloser, hplace, hrest⟩ := hinner.append.2.cons
  rw [← hcloser] at hrest
  exact ⟨hnumber, hstart, hcloser, hplace, hrest⟩

end Placed

end Line

namespace Fence

/-- A line opens a fence of a known language: after spaces comes the run, which no further
character of its kind follows, and then a text that is accepted. -/
def Opens (languages : List Text) (f : Fence) (line : Text) : Prop :=
  ∃ indent info, line = indent ++ (f.text ++ info) ∧ (∀ c ∈ indent, c = ' ') ∧
    isMark f.mark = true ∧ 3 ≤ f.length ∧ (∀ c ∈ info.head?, c ≠ f.mark) ∧
    accepts languages info = true

/-- A line closes a fence: after spaces comes exactly its run, and then nothing but blanks. -/
def Closes (f : Fence) (line : Text) : Prop :=
  ∃ indent tail, line = indent ++ (f.text ++ tail) ∧ (∀ c ∈ indent, c = ' ') ∧
    ∀ c ∈ tail, Text.isBlank c = true

variable {languages : List Text} {f g : Fence} {line : Text}

/-- The mark of a fence that a line opens is one of the two. -/
theorem Opens.isMark (h : Opens languages f line) : Fence.isMark f.mark = true := by
  obtain ⟨indent, info, -, -, hmark, -⟩ := h
  exact hmark

/-- A fence that a line opens is at least three marks long. -/
theorem Opens.three_le_length (h : Opens languages f line) : 3 ≤ f.length := by
  obtain ⟨indent, info, -, -, -, hlength, -⟩ := h
  exact hlength

private theorem unindented_append {indent rest : Text} (hindent : ∀ c ∈ indent, c = ' ')
    (hrest : ∀ c ∈ rest.head?, c ≠ ' ') : unindented (indent ++ rest) = rest :=
  (Text.takeWhile_dropWhile_append (by simpa using hindent) (by simpa using hrest)).2

private theorem exists_indent (line : Text) :
    ∃ indent, line = indent ++ unindented line ∧ ∀ c ∈ indent, c = ' ' := by
  refine ⟨line.takeWhile (· = ' '), List.takeWhile_append_dropWhile.symm, fun c hc => ?_⟩
  simpa using List.mem_takeWhile_imp hc

private theorem unindented_indent_text (hmark : isMark f.mark = true) (hlength : 3 ≤ f.length)
    {indent : Text} (hindent : ∀ c ∈ indent, c = ' ') (rest : Text) :
    unindented (indent ++ (f.text ++ rest)) = f.text ++ rest := by
  refine unindented_append hindent fun c hc => ?_
  obtain ⟨mark, length⟩ := f
  obtain ⟨k, rfl⟩ := Nat.exists_eq_add_of_le' hlength
  rw [text, List.replicate_succ, List.cons_append, List.head?_cons, Option.mem_some_iff] at hc
  rw [← hc]
  exact ne_of_isMark hmark (by decide)

/-- The run that a line begins with, after spaces. -/
theorem ofLine?_eq_some {info : Text} (h : ofLine? line = some (f, info)) :
    unindented line = f.text ++ info ∧ isMark f.mark = true ∧ 3 ≤ f.length ∧
      ∀ c ∈ info.head?, c ≠ f.mark := by
  unfold ofLine? at h
  split at h
  · simp at h
  · next c rest hline =>
    dsimp only at h
    split at h
    · next hrun =>
      obtain ⟨rfl, rfl⟩ := Prod.mk.inj (Option.some.inj h)
      refine ⟨?_, hrun.1, hrun.2, fun d hd hmark => ?_⟩
      · have hsame : rest.takeWhile (· = c) =
            List.replicate (rest.takeWhile (· = c)).length c := by
          refine List.eq_replicate_of_mem fun d hd => ?_
          simpa using List.mem_takeWhile_imp hd
        rw [hline, text, List.replicate_succ, List.cons_append, ← hsame,
          List.takeWhile_append_dropWhile]
      · have hnot := List.head?_dropWhile_not (· = c) rest
        rw [Option.mem_def.mp hd] at hnot
        simp [hmark] at hnot
    · simp at h

/-- A line is found to open a fence exactly if it does. -/
theorem opener?_eq_some : opener? languages line = some f ↔ Opens languages f line := by
  constructor
  · intro h
    unfold opener? at h
    split at h
    · next g info hline =>
      split at h
      · next haccepts =>
        obtain rfl := Option.some.inj h
        obtain ⟨hrun, hmark, hlength, hinfo⟩ := ofLine?_eq_some hline
        obtain ⟨indent, hindent, hspaces⟩ := exists_indent line
        rw [hrun] at hindent
        exact ⟨indent, info, hindent, hspaces, hmark, hlength, hinfo, haccepts⟩
      · simp at h
    · simp at h
  · rintro ⟨indent, info, rfl, hspaces, hmark, hlength, hinfo, haccepts⟩
    have hline : ofLine? (indent ++ (f.text ++ info)) = ofLine? (f.text ++ info) := by
      rw [ofLine?, ofLine?, unindented_indent_text hmark hlength hspaces,
        unindented_text_append hmark hlength]
    rw [opener?, hline, ofLine?_text_append hmark hlength hinfo]
    exact if_pos haccepts

/-- A line is no opener exactly if it opens no fence. -/
theorem opener?_eq_none :
    opener? languages line = none ↔ ∀ f, ¬Opens languages f line := by
  rw [Option.eq_none_iff_forall_ne_some]
  exact forall_congr' fun f => not_congr opener?_eq_some

/-- A line opens no more than one fence. -/
theorem Opens.unique (hf : Opens languages f line) (hg : Opens languages g line) : f = g := by
  have hf := opener?_eq_some.mpr hf
  have hg := opener?_eq_some.mpr hg
  exact Option.some.inj (hf.symm.trans hg)

/-- A line is found to close a fence exactly if it does. -/
theorem closedBy_iff (hmark : isMark f.mark = true) (hlength : 3 ≤ f.length) :
    f.closedBy line = true ↔ Closes f line := by
  constructor
  · intro h
    rw [closedBy, Bool.and_eq_true, decide_eq_true_eq, List.all_eq_true] at h
    obtain ⟨hrun, hblank⟩ := h
    obtain ⟨indent, hindent, hspaces⟩ := exists_indent line
    have hsame : (unindented line).takeWhile (· = f.mark) = f.text := by
      rw [text, ← hrun]
      refine List.eq_replicate_of_mem fun c hc => ?_
      simpa using List.mem_takeWhile_imp hc
    refine ⟨indent, (unindented line).dropWhile (· = f.mark), ?_, hspaces, hblank⟩
    rw [← hsame, List.takeWhile_append_dropWhile]
    exact hindent
  · rintro ⟨indent, tail, rfl, hspaces, hblank⟩
    have htail : ∀ c ∈ tail.head?, c ≠ f.mark := by
      rintro c hc rfl
      have hc := hblank _ (List.mem_of_head? hc)
      rw [isBlank_of_isMark hmark] at hc
      cases hc
    obtain ⟨htake, hdrop⟩ := takeWhile_text_append f htail
    rw [closedBy, unindented_indent_text hmark hlength hspaces, htake, hdrop]
    simpa [text] using hblank

/-- The scan takes a line for one that closes a fence exactly if it does. -/
theorem Opens.closedBy_iff {opener : Text} (h : Opens languages f opener) :
    f.closedBy line = true ↔ Closes f line :=
  Fence.closedBy_iff h.isMark h.three_le_length

/-- What scanning some lines comes to: lines that open nothing are passed over, a fence that is
opened takes the lines up to the first that closes it, and one that no line closes is reported. -/
inductive Scanned (languages : List Text) : List Line → Scan → Prop
  | nil : Scanned languages [] {}
  | plain {l : Line} {rest : List Line} {s : Scan} (hplain : ∀ f, ¬Opens languages f l.text)
    (hrest : Scanned languages rest s) : Scanned languages (l :: rest) s
  | unclosed {l : Line} {rest : List Line} {s : Scan} {f : Fence}
    (hopens : Opens languages f l.text) (hopen : ∀ k ∈ rest, ¬Closes f k.text)
    (hrest : Scanned languages rest s) :
    Scanned languages (l :: rest)
      { s with errors := .unterminatedFence l.number f.text :: s.errors }
  | block {l closer : Line} {content rest : List Line} {s : Scan} {f : Fence}
    (hopens : Opens languages f l.text) (hopen : ∀ k ∈ content, ¬Closes f k.text)
    (hcloses : Closes f closer.text) (hrest : Scanned languages rest s) :
    Scanned languages (l :: (content ++ closer :: rest))
      { s with zones := Zone.after l f.text content :: s.zones }

/-- Lines with one that satisfies a predicate are those before the first such line, it, and those
after it. -/
theorem exists_first {p : Line → Bool} {ls : List Line} (h : ls.any p = true) :
    ∃ closer rest, ls = (ls.takeWhile fun l => !p l) ++ closer :: rest ∧
      p closer = true ∧ ∀ k ∈ ls.takeWhile fun l => !p l, p k = false := by
  induction ls with
  | nil => simp at h
  | cons l ls ih =>
    cases hl : p l with
    | true => exact ⟨l, ls, by simp [hl], hl, by simp [hl]⟩
    | false =>
      obtain ⟨closer, rest, hls, hcloser, hbefore⟩ := ih (by simpa [hl] using h)
      refine ⟨closer, rest, ?_, hcloser, ?_⟩
      · rw [List.takeWhile_cons_of_pos (by simp [hl]), List.cons_append, ← hls]
      · simpa [hl] using hbefore

/-- The scan finds the blocks as they are described. -/
theorem scanned_scan (languages : List Text) (ls : List Line) :
    Scanned languages ls (scan languages none ls) := by
  induction hn : ls.length using Nat.strong_induction_on generalizing ls with
  | _ n ih =>
    subst hn
    cases ls with
    | nil => exact .nil
    | cons l rest =>
      have hrest := ih rest.length (by simp) rest rfl
      cases hline : opener? languages l.text with
      | none =>
        rw [scan, hline]
        exact .plain (opener?_eq_none.mp hline) hrest
      | some f =>
        have hopens := opener?_eq_some.mp hline
        rw [scan, hline]
        dsimp only
        split
        · next hany =>
          obtain ⟨closer, after, hsplit, hcloser, hbefore⟩ := exists_first hany
          have hafter := ih after.length (by
            have hlength := congrArg List.length hsplit
            simp only [List.length_append, List.length_cons] at hlength ⊢
            omega) after rfl
          have hlater : scan languages (some f) rest = scan languages none after := by
            rw [hsplit, scan_some_closed languages hbefore hcloser]
          have hopen : ∀ k ∈ rest.takeWhile fun l => !f.closedBy l.text, ¬Closes f k.text := by
            intro k hk hcloses
            have hyes := hopens.closedBy_iff.mpr hcloses
            rw [hbefore k hk] at hyes
            cases hyes
          have hcloses := hopens.closedBy_iff.mp hcloser
          have hblock := Scanned.block hopens hopen hcloses hafter
          rw [← hsplit] at hblock
          rw [hlater]
          exact hblock
        · next hany =>
          refine .unclosed hopens (fun k hk hcloses => hany ?_) hrest
          exact List.any_eq_true.mpr ⟨k, hk, hopens.closedBy_iff.mpr hcloses⟩

namespace Scanned

variable {ls more : List Line} {s t : Scan}

/-- Scanning some lines comes to nothing else. -/
theorem scan_eq (h : Scanned languages ls s) : scan languages none ls = s := by
  induction h with
  | nil => rfl
  | plain hplain hrest ih =>
    rw [scan, opener?_eq_none.mpr hplain]
    exact ih
  | @unclosed l rest s f hopens hopen hrest ih =>
    have hany : (rest.any fun k => f.closedBy k.text) = false := by
      rw [List.any_eq_false]
      intro k hk hclosed
      exact hopen k hk (hopens.closedBy_iff.mp hclosed)
    rw [scan, opener?_eq_some.mpr hopens]
    simp only [hany, ih]
    rfl
  | @block l closer content rest s f hopens hopen hcloses hrest ih =>
    have hcontent : ∀ k ∈ content, f.closedBy k.text = false := by
      intro k hk
      exact Bool.eq_false_iff.mpr fun hclosed => hopen k hk (hopens.closedBy_iff.mp hclosed)
    rw [scan_block (opener?_eq_some.mpr hopens) hcontent (hopens.closedBy_iff.mpr hcloses), ih]

/-- Lines whose fences are all closed are scanned without regard to what follows them. -/
theorem append (h : Scanned languages ls s) (hclosed : s.errors = [])
    (hmore : Scanned languages more t) :
    Scanned languages (ls ++ more) { zones := s.zones ++ t.zones, errors := t.errors } := by
  induction h with
  | nil => exact hmore
  | plain hplain hrest ih => exact .plain hplain (ih hclosed)
  | unclosed hopens hopen hrest ih => cases hclosed
  | block hopens hopen hcloses hrest ih =>
    rw [List.cons_append, List.append_assoc, List.cons_append]
    exact .block hopens hopen hcloses (ih hclosed)

end Scanned

/-- A block in some lines: a line that opens a fence, and the first later line that closes it. -/
structure Block (languages : List Text) (lines : List Line) (opener closer : Line) (f : Fence) :
    Prop where
  opener_mem : opener ∈ lines
  closer_mem : closer ∈ lines
  opens : Opens languages f opener.text
  later : opener.number < closer.number
  closes : Closes f closer.text
  first : ∀ l ∈ lines, opener.number < l.number → l.number < closer.number → ¬Closes f l.text

/-- A zone lies between the two lines of a block: from where the line after the first begins to
where the second begins. -/
structure Between (lines : List Line) (opener closer : Line) (f : Fence) (z : Zone) : Prop where
  marker : z.marker = f.text
  line : z.line = opener.number + 1
  start : ∃ l ∈ lines, l.number = opener.number + 1 ∧ z.start = l.start
  stop : z.stop = closer.start

/-- A line lies in a zone of some lines: after the line that opens it, and no further than the one
that closes it. -/
def Inside (languages : List Text) (lines : List Line) (z : Zone) (l : Line) : Prop :=
  ∃ opener closer f, Block languages lines opener closer f ∧ Between lines opener closer f z ∧
    opener.number < l.number ∧ l.number ≤ closer.number

end Fence

/-- What a scan reports of the line with a number: the zones that it opens, and the errors that
point at it. -/
def Scan.about (s : Scan) (n : Nat) : Scan where
  zones := s.zones.filter (·.line = n + 1)
  errors := s.errors.filter (·.line = n)

/-- The text of a zone stands between its places in a text that begins at a place. -/
def Zone.Excerpt (z : Zone) (start : Nat) (t : Text) : Prop :=
  ∃ before after, t = before ++ (z.text ++ after) ∧
    z.start = start + Text.byteCount before ∧ z.stop = z.start + Text.byteCount z.text

/-- What stands in a text stands in it after any other. -/
theorem Zone.Excerpt.append_left {z : Zone} {start : Nat} {t first : Text}
    (h : z.Excerpt (start + Text.byteCount first) t) : z.Excerpt start (first ++ t) := by
  obtain ⟨before, after, rfl, hstart, hstop⟩ := h
  refine ⟨first ++ before, after, (List.append_assoc _ _ _).symm, ?_, hstop⟩
  rw [hstart, Text.byteCount_append, Nat.add_assoc]

namespace Scan

variable {s : Scan} {n : Nat}

private theorem about_zones_cons {z : Zone} (h : z.line ≠ n + 1) :
    about { s with zones := z :: s.zones } n = s.about n := by
  simp [about, h]

private theorem about_errors_cons {e : ExtractError} (h : e.line ≠ n) :
    about { s with errors := e :: s.errors } n = s.about n := by
  simp [about, h]

private theorem about_zones_cons_self {z : Zone} (h : z.line = n + 1) (hs : s.about n = {}) :
    about { s with zones := z :: s.zones } n = { zones := [z] } := by
  obtain ⟨hz, he⟩ := Scan.mk.inj hs
  simp [about, h, hz, he]

private theorem about_errors_cons_self {e : ExtractError} (h : e.line = n) (hs : s.about n = {}) :
    about { s with errors := e :: s.errors } n = { errors := [e] } := by
  obtain ⟨hz, he⟩ := Scan.mk.inj hs
  simp [about, h, hz, he]

private theorem about_eq_empty (hzones : ∀ z ∈ s.zones, z.line ≠ n + 1)
    (herrors : ∀ e ∈ s.errors, e.line ≠ n) : s.about n = {} := by
  have hz : s.zones.filter (·.line = n + 1) = [] :=
    List.filter_eq_nil_iff.mpr fun z hz => by simpa using hzones z hz
  have he : s.errors.filter (·.line = n) = [] :=
    List.filter_eq_nil_iff.mpr fun e he => by simpa using herrors e he
  rw [about, hz, he]

end Scan

namespace Fence

variable {languages : List Text} {ls : List Line} {s : Scan} {n start : Nat}

/-- A line that closes a fence is not empty. -/
theorem Closes.start_lt_stop {f : Fence} {l : Line} (h : Closes f l.text) (hlength : 3 ≤ f.length) :
    l.start < l.stop := by
  have hne : l.raw ≠ [] := by
    intro hraw
    obtain ⟨indent, tail, hline, -, -⟩ := h
    have hempty : l.text = [] := by rw [Line.text, hraw]; rfl
    have hcount := congrArg List.length (hline.symm.trans hempty)
    simp only [text, List.length_append, List.length_replicate, List.length_nil] at hcount
    omega
  obtain ⟨c, rest, hraw⟩ := List.exists_cons_of_ne_nil hne
  have hsize := c.utf8Size_pos
  rw [Line.stop, hraw, Text.byteCount_cons]
  omega

namespace Scanned

/-- Zones begin after the first of the lines. -/
theorem lt_of_mem_zones (h : Scanned languages ls s) (hp : Line.Placed n start ls) {z : Zone}
    (hz : z ∈ s.zones) : n < z.line ∧ start ≤ z.start := by
  induction h generalizing n start with
  | nil => simp at hz
  | @plain l rest s hplain hrest ih =>
    obtain ⟨hnumber, hstart, hrest⟩ := hp.cons
    have hbounds := ih hrest hz
    have hstop := l.start_le_stop
    omega
  | @unclosed l rest s f hopens hopen hrest ih =>
    obtain ⟨hnumber, hstart, hrest⟩ := hp.cons
    have hbounds := ih hrest hz
    have hstop := l.start_le_stop
    omega
  | @block l closer content rest s f hopens hopen hcloses hrest ih =>
    obtain ⟨hnumber, hstart, hcloser, hplace, hrest⟩ := hp.block
    have hstop := l.start_le_stop
    have hstop' := closer.start_le_stop
    rcases List.mem_cons.mp hz with rfl | hz
    · simp only [Zone.after]
      omega
    · have hbounds := ih hrest hz
      omega

/-- Errors point at the lines. -/
theorem le_of_mem_errors (h : Scanned languages ls s) (hp : Line.Placed n start ls)
    {e : ExtractError} (he : e ∈ s.errors) : n ≤ e.line := by
  induction h generalizing n start with
  | nil => simp at he
  | plain hplain hrest ih =>
    obtain ⟨hnumber, -, hrest⟩ := hp.cons
    have hbound := ih hrest he
    omega
  | unclosed hopens hopen hrest ih =>
    obtain ⟨hnumber, -, hrest⟩ := hp.cons
    rcases List.mem_cons.mp he with rfl | he
    · exact hnumber.ge
    · have hbound := ih hrest he
      omega
  | block hopens hopen hcloses hrest ih =>
    obtain ⟨-, -, hcloser, -, hrest⟩ := hp.block
    have hbound := ih hrest he
    omega

/-- Zones follow one another, with a line between each two that belongs to neither. -/
theorem pairwise_zones (h : Scanned languages ls s) (hp : Line.Placed n start ls) :
    s.zones.Pairwise fun a b => a.line < b.line ∧ a.stop < b.start := by
  induction h generalizing n start with
  | nil => exact .nil
  | plain hplain hrest ih => exact ih hp.cons.2.2
  | unclosed hopens hopen hrest ih => exact ih hp.cons.2.2
  | @block l closer content rest s f hopens hopen hcloses hrest ih =>
    obtain ⟨hnumber, -, hcloser, hplace, hplaced⟩ := hp.block
    have hlt := hcloses.start_lt_stop hopens.three_le_length
    refine .cons (fun z hz => ?_) (ih hplaced)
    have hbounds := hrest.lt_of_mem_zones hplaced hz
    simp only [Zone.after]
    omega

/-- The text of a zone is what stands between its places. -/
theorem excerpt (h : Scanned languages ls s) (hp : Line.Placed n start ls) {z : Zone}
    (hz : z ∈ s.zones) : z.Excerpt start (ls.flatMap Line.raw) := by
  induction h generalizing n start with
  | nil => simp at hz
  | @plain l rest s hplain hrest ih =>
    obtain ⟨-, rfl, hrest⟩ := hp.cons
    exact (ih hrest hz).append_left
  | @unclosed l rest s f hopens hopen hrest ih =>
    obtain ⟨-, rfl, hrest⟩ := hp.cons
    exact (ih hrest hz).append_left
  | @block l closer content rest s f hopens hopen hcloses hrest ih =>
    obtain ⟨-, rfl, -, hplace, hrest⟩ := hp.block
    rw [List.flatMap_cons, List.flatMap_append, List.flatMap_cons]
    rcases List.mem_cons.mp hz with rfl | hz
    · exact ⟨l.raw, closer.raw ++ rest.flatMap Line.raw, rfl, rfl, rfl⟩
    · have hlater := ih hrest hz
      rw [Line.stop] at hlater
      have hcloser := hlater.append_left
      rw [hplace] at hcloser
      have hcontent := hcloser.append_left
      rw [Line.stop] at hcontent
      exact hcontent.append_left

end Scanned

/-- A block of the last lines is one of all the lines. -/
theorem Block.append_left {opener closer : Line} {f : Fence} (before : List Line)
    (hp : Line.Placed n start (before ++ ls)) (h : Block languages ls opener closer f) :
    Block languages (before ++ ls) opener closer f where
  opener_mem := List.mem_append_right _ h.opener_mem
  closer_mem := List.mem_append_right _ h.closer_mem
  opens := h.opens
  later := h.later
  closes := h.closes
  first := by
    intro l hl hfirst hlast
    rcases List.mem_append.mp hl with hl | hl
    · have hlt := hp.number_lt_of_append hl h.opener_mem
      omega
    · exact h.first l hl hfirst hlast

private theorem Between.append_left {opener closer : Line} {f : Fence} {z : Zone}
    (before : List Line)
    (h : Between ls opener closer f z) : Between (before ++ ls) opener closer f z where
  marker := h.marker
  line := h.line
  start := by
    obtain ⟨l, hl, hnext⟩ := h.start
    exact ⟨l, List.mem_append_right _ hl, hnext⟩
  stop := h.stop

/-- The zone of an opening line, some content and a closing line lies between the two. -/
theorem Scanned.block_between {l closer : Line} {content rest : List Line} {f : Fence}
    (hopens : Opens languages f l.text) (hopen : ∀ k ∈ content, ¬Closes f k.text)
    (hcloses : Closes f closer.text) (hp : Line.Placed n start (l :: (content ++ closer :: rest))) :
    Block languages (l :: (content ++ closer :: rest)) l closer f ∧
      Between (l :: (content ++ closer :: rest)) l closer f (Zone.after l f.text content) := by
  obtain ⟨hnumber, -, hcloser, hplace, hrest⟩ := hp.block
  have hinner := hp.cons.2.2
  refine ⟨⟨List.mem_cons_self, by simp, hopens, by omega, hcloses, ?_⟩, rfl, rfl, ?_, hplace.symm⟩
  · intro k hk hfirst hlast
    rcases List.mem_cons.mp hk with rfl | hk
    · omega
    · rcases List.mem_append.mp hk with hk | hk
      · exact hopen k hk
      · have hle := (hinner.append.2.le_of_mem hk).1
        omega
  · cases content with
    | nil =>
      obtain ⟨hnext, hbegin, -⟩ := hinner.cons
      exact ⟨closer, by simp, by omega, hbegin.symm⟩
    | cons k content =>
      obtain ⟨hnext, hbegin, -⟩ := hinner.cons
      exact ⟨k, by simp, by omega, hbegin.symm⟩

namespace Scanned

/-- Every zone lies between an opening line and the first later line that closes its fence. -/
theorem exists_block (h : Scanned languages ls s) (hp : Line.Placed n start ls) {z : Zone}
    (hz : z ∈ s.zones) :
    ∃ opener closer f, Block languages ls opener closer f ∧ Between ls opener closer f z := by
  induction h generalizing n start with
  | nil => simp at hz
  | @plain l rest s hplain hrest ih =>
    obtain ⟨opener, closer, f, hblock, hbetween⟩ := ih hp.cons.2.2 hz
    exact ⟨opener, closer, f, hblock.append_left [l] hp, hbetween.append_left [l]⟩
  | @unclosed l rest s f hopens hopen hrest ih =>
    obtain ⟨opener, closer, f, hblock, hbetween⟩ := ih hp.cons.2.2 hz
    exact ⟨opener, closer, f, hblock.append_left [l] hp, hbetween.append_left [l]⟩
  | @block l closer content rest s f hopens hopen hcloses hrest ih =>
    rcases List.mem_cons.mp hz with rfl | hz
    · exact ⟨l, closer, f, block_between hopens hopen hcloses hp⟩
    · obtain ⟨opener, closer', f', hblock, hbetween⟩ := ih hp.block.2.2.2.2 hz
      have hsplit : l :: (content ++ closer :: rest) = (l :: (content ++ [closer])) ++ rest := by
        simp
      rw [hsplit] at hp ⊢
      exact ⟨opener, closer', f', hblock.append_left _ hp, hbetween.append_left _⟩

/-- Every error points at a line whose fence no later line closes. -/
theorem exists_of_mem_errors (h : Scanned languages ls s) (hp : Line.Placed n start ls)
    {e : ExtractError} (he : e ∈ s.errors) :
    ∃ l ∈ ls, ∃ f, Opens languages f l.text ∧ e = .unterminatedFence l.number f.text := by
  induction h generalizing n start with
  | nil => simp at he
  | plain hplain hrest ih =>
    obtain ⟨l, hl, f, hopens, rfl⟩ := ih hp.cons.2.2 he
    exact ⟨l, List.mem_cons_of_mem _ hl, f, hopens, rfl⟩
  | @unclosed l rest s f hopens hopen hrest ih =>
    rcases List.mem_cons.mp he with rfl | he
    · exact ⟨l, List.mem_cons_self, f, hopens, rfl⟩
    · obtain ⟨l, hl, f, hopens, rfl⟩ := ih hp.cons.2.2 he
      exact ⟨l, List.mem_cons_of_mem _ hl, f, hopens, rfl⟩
  | block hopens hopen hcloses hrest ih =>
    obtain ⟨l, hl, f, hopens, rfl⟩ := ih hp.block.2.2.2.2 he
    refine ⟨l, ?_, f, hopens, rfl⟩
    simp [hl]

end Scanned

/-- What becomes of a line that opens a fence: it lies in an earlier zone and nothing is reported
of it; or some later line closes its fence, and the zone between the two is reported; or no later
line does, and that is reported. -/
def Fate (languages : List Text) (lines : List Line) (s : Scan) (inside : Prop) (l : Line)
    (f : Fence) : Prop :=
  inside ∧ s.about l.number = {} ∨
  ¬inside ∧ (∃ closer z, Block languages lines l closer f ∧ Between lines l closer f z ∧
    s.about l.number = { zones := [z] }) ∨
  ¬inside ∧ (∀ k ∈ lines, l.number < k.number → ¬Closes f k.text) ∧
    s.about l.number = { errors := [.unterminatedFence l.number f.text] }

private theorem Fate.append_left {s' : Scan} {inside inside' : Prop} {l : Line} {f : Fence}
    (before : List Line) (hp : Line.Placed n start (before ++ ls)) (hl : l ∈ ls)
    (habout : s'.about l.number = s.about l.number) (hinside : inside' ↔ inside)
    (h : Fate languages ls s inside l f) : Fate languages (before ++ ls) s' inside' l f := by
  rw [Fate, habout, hinside]
  rcases h with h | ⟨hout, closer, z, hblock, hbetween, hs⟩ | ⟨hout, hopen, hs⟩
  · exact .inl h
  · exact .inr (.inl ⟨hout, closer, z, hblock.append_left _ hp, hbetween.append_left _, hs⟩)
  · refine .inr (.inr ⟨hout, fun k hk hlt => ?_, hs⟩)
    rcases List.mem_append.mp hk with hk | hk
    · have hlt' := hp.number_lt_of_append hk hl
      omega
    · exact hopen k hk hlt

/-- Whether a line lies in one of the zones, going by the places of both: after the line that opens
the zone, and no further than the line that begins where the zone stops. -/
def Held (s : Scan) (l : Line) : Prop :=
  ∃ z ∈ s.zones, z.line ≤ l.number ∧ l.start ≤ z.stop

namespace Scanned

/-- Nothing is reported of lines before those that are scanned, and none of them is in a zone. -/
theorem about_eq_empty_of_lt (h : Scanned languages ls s) (hp : Line.Placed n start ls) {m : Nat}
    (hm : m < n) : s.about m = {} := by
  refine Scan.about_eq_empty (fun z hz => ?_) fun e he => ?_
  · have hlt := (h.lt_of_mem_zones hp hz).1
    omega
  · have hle := h.le_of_mem_errors hp he
    omega

/-- A line before those that are scanned is in no zone of theirs. -/
theorem not_held_of_le (h : Scanned languages ls s) (hp : Line.Placed n start ls) {l : Line}
    (hl : l.number ≤ n) : ¬Held s l := by
  rintro ⟨z, hz, hline, -⟩
  have hlt := (h.lt_of_mem_zones hp hz).1
  omega

/-- The line that opens a block is reported as the beginning of its zone. -/
theorem fate_opener {l closer : Line} {content rest : List Line} {f : Fence}
    (hopens : Opens languages f l.text) (hopen : ∀ k ∈ content, ¬Closes f k.text)
    (hcloses : Closes f closer.text) (hrest : Scanned languages rest s)
    (hp : Line.Placed n start (l :: (content ++ closer :: rest))) :
    Fate languages (l :: (content ++ closer :: rest))
      { s with zones := Zone.after l f.text content :: s.zones }
      (Held { s with zones := Zone.after l f.text content :: s.zones } l) l f := by
  obtain ⟨hnumber, -, hcloser, -, hplaced⟩ := hp.block
  obtain ⟨hblock, hbetween⟩ := block_between hopens hopen hcloses hp
  refine .inr (.inl ⟨?_, closer, _, hblock, hbetween, ?_⟩)
  · rintro ⟨z, hz, hle, -⟩
    rcases List.mem_cons.mp hz with rfl | hz
    · have hline := hbetween.line
      omega
    · have hlt := (hrest.lt_of_mem_zones hplaced hz).1
      omega
  · exact Scan.about_zones_cons_self hbetween.line (hrest.about_eq_empty_of_lt hplaced (by omega))

/-- A line of a block after its first lies in the zone, and nothing is reported of it. -/
theorem fate_inner {l x closer : Line} {content rest : List Line} {f g : Fence} {lines : List Line}
    (hrest : Scanned languages rest s) (hp : Line.Placed n start (x :: (content ++ closer :: rest)))
    (hl : l ∈ content ++ [closer]) :
    Fate languages lines { s with zones := Zone.after x g.text content :: s.zones }
      (Held { s with zones := Zone.after x g.text content :: s.zones } l) l f := by
  obtain ⟨hnumber, -, -, hplace, hplaced⟩ := hp.block
  have hinner := hp.cons.2.2
  have hsplit : content ++ closer :: rest = (content ++ [closer]) ++ rest := by simp
  rw [hsplit] at hinner
  have hfirst := (hinner.le_of_mem (List.mem_append_left _ hl)).1
  have hlast := hinner.append.1.le_last hl
  have hstop : (Zone.after x g.text content).stop = closer.start := hplace.symm
  have hline : (Zone.after x g.text content).line = x.number + 1 := rfl
  refine .inl ⟨⟨_, List.mem_cons_self, by omega, by omega⟩, ?_⟩
  rw [Scan.about_zones_cons (by omega)]
  exact hrest.about_eq_empty_of_lt hplaced (by omega)

/-- Every line that opens a fence meets its fate. -/
theorem fate (h : Scanned languages ls s) (hp : Line.Placed n start ls) {l : Line} (hl : l ∈ ls)
    {f : Fence} (hopens : Opens languages f l.text) : Fate languages ls s (Held s l) l f := by
  induction h generalizing n start with
  | nil => simp at hl
  | @plain x rest s hplain hrest ih =>
    rcases List.mem_cons.mp hl with rfl | hl
    · exact absurd hopens (hplain f)
    · exact (ih hp.cons.2.2 hl).append_left [x] hp hl rfl Iff.rfl
  | @unclosed x rest s g hopensx hopen hrest ih =>
    obtain ⟨hnumber, -, hplaced⟩ := hp.cons
    rcases List.mem_cons.mp hl with rfl | hl
    · obtain rfl := hopens.unique hopensx
      refine .inr (.inr ⟨hrest.not_held_of_le hplaced (by omega), fun k hk hlt => ?_, ?_⟩)
      · rcases List.mem_cons.mp hk with rfl | hk
        · omega
        · exact hopen k hk
      · exact Scan.about_errors_cons_self rfl (hrest.about_eq_empty_of_lt hplaced (by omega))
    · have hlt := (hplaced.le_of_mem hl).1
      refine (ih hplaced hl).append_left [x] hp hl ?_ Iff.rfl
      exact Scan.about_errors_cons (show x.number ≠ l.number by omega)
  | @block x closer content rest s g hopensx hopen hcloses hrest ih =>
    have hsplit : x :: (content ++ closer :: rest) = (x :: (content ++ [closer])) ++ rest := by simp
    rcases List.mem_append.mp (hsplit ▸ hl) with hl | hl
    · rcases List.mem_cons.mp hl with rfl | hl
      · obtain rfl := hopens.unique hopensx
        exact fate_opener hopensx hopen hcloses hrest hp
      · exact fate_inner hrest hp hl
    · obtain ⟨hnumber, -, hcloser, hplace, hplaced⟩ := hp.block
      have hlt := hcloses.start_lt_stop hopensx.three_le_length
      have hafter := hplaced.le_of_mem hl
      have hstop : (Zone.after x g.text content).stop = closer.start := hplace.symm
      have hline : (Zone.after x g.text content).line = x.number + 1 := rfl
      rw [hsplit] at hp ⊢
      refine (ih hplaced hl).append_left _ hp hl (Scan.about_zones_cons (by omega)) ⟨?_, ?_⟩
      · rintro ⟨z, hz, hheld⟩
        rcases List.mem_cons.mp hz with rfl | hz
        · omega
        · exact ⟨z, hz, hheld⟩
      · rintro ⟨z, hz, hheld⟩
        exact ⟨z, List.mem_cons_of_mem _ hz, hheld⟩

/-- A line lies in a zone by its place exactly if it lies between the lines of its block. -/
theorem held_iff (h : Scanned languages ls s) (hp : Line.Placed n start ls) {l : Line}
    (hl : l ∈ ls) : Held s l ↔ ∃ z ∈ s.zones, Inside languages ls z l := by
  constructor
  · rintro ⟨z, hz, hfirst, hlast⟩
    obtain ⟨opener, closer, f, hblock, hbetween⟩ := h.exists_block hp hz
    have hlt := hblock.closes.start_lt_stop hblock.opens.three_le_length
    have hline := hbetween.line
    have hstop := hbetween.stop
    refine ⟨z, hz, opener, closer, f, hblock, hbetween, by omega, ?_⟩
    rcases hp.trichotomy hl hblock.closer_mem with ⟨hle, -⟩ | rfl | ⟨-, hle⟩ <;> omega
  · rintro ⟨z, hz, opener, closer, f, hblock, hbetween, hfirst, hlast⟩
    have hline := hbetween.line
    have hstop := hbetween.stop
    refine ⟨z, hz, by omega, ?_⟩
    have hend := l.start_le_stop
    rcases hp.trichotomy hl hblock.closer_mem with ⟨-, hle⟩ | rfl | ⟨hlt, -⟩ <;> omega

end Scanned

/-- The scan of a document finds its fenced blocks exactly. Every line that opens a fence lies in an
earlier zone, or opens one that ends at the first later line that closes the fence, or is reported
since no later line does. Nothing else is reported, the zones follow one another, and the text of
each is what stands in the document between its places. -/
theorem scan_exact (languages : List Text) (document : Text) :
    let lines := Line.ofDocument document
    let s := (Delimiters.fences languages).scan document
    (∀ l ∈ lines, ∀ f, Opens languages f l.text →
      Fate languages lines s (∃ z ∈ s.zones, Inside languages lines z l) l f) ∧
    (∀ z ∈ s.zones, ∃ opener closer f,
      Block languages lines opener closer f ∧ Between lines opener closer f z) ∧
    (∀ e ∈ s.errors, ∃ l ∈ lines, ∃ f,
      Opens languages f l.text ∧ e = .unterminatedFence l.number f.text) ∧
    (s.zones.Pairwise fun a b => a.line < b.line ∧ a.stop < b.start) ∧
    ∀ z ∈ s.zones, z.Excerpt 0 document := by
  intro lines s
  have hscan : Scanned languages lines s := scanned_scan languages lines
  have hp : Line.Placed 1 0 lines := Line.placed_ofDocument document
  refine ⟨fun l hl f hopens => ?_, fun z hz => hscan.exists_block hp hz,
    fun e he => hscan.exists_of_mem_errors hp he, hscan.pairwise_zones hp, fun z hz => ?_⟩
  · rw [← hscan.held_iff hp hl]
    exact hscan.fate hp hl hopens
  · have htext := hscan.excerpt hp hz
    rwa [Line.flatMap_raw_ofDocument] at htext

end Fence

end Literate
