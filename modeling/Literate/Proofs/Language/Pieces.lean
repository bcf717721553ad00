import Literate.Proofs.Language.LineLocal

/-!
# The pieces of a text

Reading cuts a text into pieces: tokens, gaps and comments. Side by side they are the text. A line
feed that is put between two texts is a piece of its own, and the other pieces of the whole are
those of the two texts. So no token, no string literal with its escapes and no comment reaches into
another line, and an error is found at the same character whatever follows its line.
-/

namespace Literate.Token

/-! ## What readers leave -/

private theorem readName_append_eq (t : Text) : (readName t).1 ++ (readName t).2 = t := by
  fun_induction readName t with
  | case1 c rest hc ih => simpa using ih
  | case2 => rfl
  | case3 c rest _ hc ih => simpa using ih
  | case4 => rfl
  | case5 => rfl

private theorem dropSign_suffix (t : Text) : dropSign t <:+ t := by
  unfold dropSign
  split
  · exact List.suffix_cons _ _
  · exact List.suffix_cons _ _
  · exact List.suffix_rfl

private theorem suffix_of_readExponent? {t : Text} {r : Int × Text} (h : readExponent? t = some r) :
    r.2 <:+ t := by
  cases t with
  | nil => cases h
  | cons c rest =>
    rw [readExponent?] at h
    split at h
    · obtain rfl := Option.some.inj h
      exact ((List.dropWhile_suffix _).trans (dropSign_suffix rest)).trans (List.suffix_cons c rest)
    · cases h

private theorem suffix_of_readNumber? {t : Text} {r : Token × Text} (h : readNumber? t = some r) :
    r.2 <:+ t := by
  have hdigits : t.dropWhile Char.isDigit <:+ t := List.dropWhile_suffix _
  by_cases hpoint : (t.dropWhile Char.isDigit).head? = some '.'
  · obtain ⟨rest, hrest⟩ := List.head?_eq_some_iff.mp hpoint
    have hfraction : rest.dropWhile Char.isDigit <:+ t :=
      (List.dropWhile_suffix _).trans ((List.suffix_cons '.' rest).trans (hrest ▸ hdigits))
    rw [readNumber?_of_point hrest] at h
    obtain rfl := Option.some.inj h
    cases hexp : readExponent? (rest.dropWhile Char.isDigit) with
    | none => exact hfraction
    | some e => exact (suffix_of_readExponent? hexp).trans hfraction
  · rw [readNumber?_of_no_point hpoint] at h
    split at h
    · next e after hexp =>
      obtain rfl := Option.some.inj h
      exact (suffix_of_readExponent? hexp).trans hdigits
    · split at h
      · obtain rfl := Option.some.inj h
        exact hdigits
      · cases h

private theorem suffix_of_readString? {t : Text} {r : Text × Text} (h : readString? t = some r) :
    r.2 <:+ t := by
  fun_induction readString? t generalizing r with
  | case1 => cases h
  | case2 rest =>
    cases h
    exact List.suffix_cons _ _
  | case3 => cases h
  | case4 c rest hc ih =>
    obtain ⟨s, hs, rfl⟩ := Option.map_eq_some_iff.mp h
    exact (ih hs).trans (List.suffix_append ['\\', c] rest)
  | case5 => cases h
  | case6 c rest _ _ hc ih =>
    obtain ⟨s, hs, rfl⟩ := Option.map_eq_some_iff.mp h
    exact (ih hs).trans (List.suffix_cons c rest)

/-- Reading a token, a gap or a comment leaves the text behind it. -/
theorem suffix_of_next? {c : Char} {rest : Text} {r : Option Token × Text}
    (h : next? c rest = some r) : r.2 <:+ rest := by
  have hsuffix : r.2 <:+ c :: rest := by
    unfold next? at h
    split at h
    · cases h
      exact List.suffix_cons c rest
    split at h
    · cases h
      exact (List.dropWhile_suffix _).trans (List.suffix_cons c rest)
    split at h
    · cases h
      have hname : (readName rest).2 <:+ rest := ⟨_, readName_append_eq rest⟩
      exact hname.trans (List.suffix_cons c rest)
    split at h
    · obtain ⟨s, hs, rfl⟩ := Option.map_eq_some_iff.mp h
      exact suffix_of_readNumber? hs
    split at h
    · obtain ⟨s, hs, rfl⟩ := Option.map_eq_some_iff.mp h
      exact (suffix_of_readString? hs).trans (List.suffix_cons c rest)
    · obtain ⟨s, hs, rfl⟩ := Option.map_eq_some_iff.mp h
      obtain ⟨symbol, -, rfl⟩ := Option.map_eq_some_iff.mp hs
      exact List.drop_suffix _ _
  have hlength := length_next?_le h
  rcases List.suffix_cons_iff.mp hsuffix with hall | hrest
  · rw [hall, List.length_cons] at hlength
    omega
  · exact hrest

/-! ## Pieces -/

/-- The pieces that a text is cut into from its beginning, each with its token if it has one. Gaps
and comments have none. -/
inductive Pieces : Text → List (Text × Option Token) → Prop
  | nil : Pieces [] []
  | cons {c : Char} {rest piece after : Text} {token : Option Token}
      {pieces : List (Text × Option Token)} (h : next? c rest = some (token, after))
      (hpiece : c :: rest = piece ++ after) (hrest : Pieces after pieces) :
      Pieces (c :: rest) ((piece, token) :: pieces)

/-- Nothing is left out between pieces. -/
theorem Pieces.flatten_eq {t : Text} {pieces : List (Text × Option Token)} (h : Pieces t pieces) :
    (pieces.map Prod.fst).flatten = t := by
  induction h with
  | nil => rfl
  | cons h hpiece hrest ih => rw [List.map_cons, List.flatten_cons, ih, hpiece]

/-- The tokens of a text are those of its pieces. -/
theorem scan_eq_ok_iff {t : Text} {tokens : List Token} :
    scan t = .ok tokens ↔ ∃ pieces, Pieces t pieces ∧ pieces.filterMap Prod.snd = tokens := by
  constructor
  · intro h
    fun_induction scan t generalizing tokens with
    | case1 =>
      cases h
      exact ⟨[], .nil, rfl⟩
    | case2 => cases h
    | case3 c rest r hnext ih =>
      obtain ⟨later, hlater, rfl⟩ := map_eq_ok.mp h
      obtain ⟨pieces, hpieces, rfl⟩ := ih hlater
      obtain ⟨piece, hpiece⟩ := suffix_of_next? hnext
      refine ⟨(c :: piece, r.1) :: pieces, .cons hnext (congrArg (c :: ·) hpiece.symm) hpieces, ?_⟩
      cases r.1 <;> rfl
  · rintro ⟨pieces, hpieces, rfl⟩
    induction hpieces with
    | nil => exact scan.eq_1
    | @cons c rest piece after token pieces hnext hpiece hrest ih =>
      rw [scan_cons, hnext]
      simp only [ih]
      cases token <;> rfl

/-- A line feed between two texts is a piece of its own, and each of the other pieces is one of the
first text or one of the second. -/
theorem pieces_append_newline_iff {a b : Text} {pieces : List (Text × Option Token)} :
    Pieces (a ++ '\n' :: b) pieces ↔
      ∃ before after, Pieces a before ∧ Pieces b after ∧
        pieces = before ++ (['\n'], none) :: after := by
  have hfeed : next? '\n' b = some (none, b) := rfl
  constructor
  · intro h
    -- The induction is on the pieces of the whole. Each of them shortens the first text, until
    -- the line feed is read.
    generalize ht : a ++ '\n' :: b = t at h
    induction h generalizing a with
    | nil => simp at ht
    | @cons c rest piece left token pieces hread hpiece hrest ih =>
      cases a with
      | nil =>
        obtain ⟨rfl, rfl⟩ := List.cons.inj ht
        obtain ⟨rfl, rfl⟩ := Prod.mk.inj (Option.some.inj (hfeed.symm.trans hread))
        obtain rfl : ['\n'] = piece := List.append_cancel_right hpiece
        exact ⟨[], pieces, .nil, hrest, rfl⟩
      | cons x a =>
        rw [List.cons_append] at ht
        obtain ⟨rfl, rfl⟩ := List.cons.inj ht
        rw [next?_append_newline] at hread
        obtain ⟨s, hs, hr⟩ := Option.map_eq_some_iff.mp hread
        obtain ⟨rfl, rfl⟩ := Prod.mk.inj hr
        obtain ⟨before, after, hbefore, hafter, rfl⟩ := ih rfl
        rw [← List.append_assoc, ← List.cons_append] at hpiece
        exact ⟨(piece, s.1) :: before, after, .cons hs (List.append_cancel_right hpiece) hbefore,
          hafter, rfl⟩
  · rintro ⟨before, after, hbefore, hafter, rfl⟩
    induction hbefore with
    | nil => exact .cons hfeed rfl hafter
    | @cons c rest piece left token before hread hpiece hrest ih =>
      have hread' : next? c (rest ++ '\n' :: b) = some (token, left ++ '\n' :: b) := by
        rw [next?_append_newline, hread]
        rfl
      have hpiece' : c :: (rest ++ '\n' :: b) = piece ++ (left ++ '\n' :: b) := by
        rw [← List.append_assoc, ← hpiece]
        rfl
      exact .cons hread' hpiece' ih

/-- Reading is local to lines. Two texts with a line feed between them are read one after the other:
the first error wins, and otherwise the tokens stand side by side. The pieces of the whole, from
which the tokens come, are those of the first text, the line feed and those of the second. -/
theorem scan_line_local (a b : Text) :
    scan (a ++ '\n' :: b) =
        (match scan a, scan b with
        | .error e, _ => .error e
        | .ok _, .error e => .error e
        | .ok xs, .ok ys => .ok (xs ++ ys)) ∧
      (∀ pieces, Pieces (a ++ '\n' :: b) pieces ↔
        ∃ before after, Pieces a before ∧ Pieces b after ∧
          pieces = before ++ (['\n'], none) :: after) ∧
      ∀ t tokens, scan t = .ok tokens ↔
        ∃ pieces, Pieces t pieces ∧ (pieces.map Prod.fst).flatten = t ∧
          pieces.filterMap Prod.snd = tokens := by
  refine ⟨?_, fun pieces => pieces_append_newline_iff, fun t tokens => ?_⟩
  · rw [scan_append_newline]
    cases scan a with
    | error e => rfl
    | ok xs => cases scan b <;> rfl
  · rw [scan_eq_ok_iff]
    exact exists_congr fun pieces =>
      and_congr_right fun h => (and_iff_right h.flatten_eq).symm

end Literate.Token
