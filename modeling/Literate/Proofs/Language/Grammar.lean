import Literate.Proofs.Language.Readers

/-!
# The grammar of expressions

What the tokens of an expression are can be said without a bound on the descent: an expression of a
level is one of the next level and the chain of operators after it, and so on down to literals,
names, calls and parentheses. The parser reads exactly what the grammar allows. The bound that it
computes from the number of tokens is never reached.
-/

namespace Literate.Expr

/-- What a run of tokens is read as. -/
inductive Phrase
  /-- An expression whose binary operators outside parentheses have at least a level. -/
  | level (level : Nat)
  /-- Further operands of a level, each combined with all before it. -/
  | chain (level : Nat) (left : Expr)
  /-- An operand with the operators before it. -/
  | operand
  /-- A literal, a name, a call, or an expression in parentheses. -/
  | primary
  /-- The arguments of a call after some that are known, up to the closing parenthesis. -/
  | arguments (name : Text) (before : List Expr)

/-- The expression that tokens are read as, and the tokens that are left. -/
inductive Reads : Phrase → List Token → Expr → List Token → Prop
  | operand {level : Nat} {t rest : List Token} {e : Expr} (hlevel : 6 ≤ level)
    (h : Reads .operand t e rest) : Reads (.level level) t e rest
  | level {level : Nat} {t mid rest : List Token} {left e : Expr} (hlevel : level < 6)
    (hleft : Reads (.level (level + 1)) t left mid)
    (hchain : Reads (.chain level left) mid e rest) : Reads (.level level) t e rest
  | stop {level : Nat} {rest : List Token} {left : Expr} (h : operator? level rest = none) :
    Reads (.chain level left) rest left rest
  | link {op : BinaryOp} {t mid rest : List Token} {left right e : Expr}
    (hright : Reads (.level (op.level + 1)) t right mid)
    (hchain : Reads (.chain op.level (.binary op left right)) mid e rest) :
    Reads (.chain op.level left) (.sym op.symbol :: t) e rest
  | neg {t rest : List Token} {e : Expr} (h : Reads .operand t e rest) :
    Reads .operand (.sym .minus :: t) (.unary .neg e) rest
  | not {t rest : List Token} {e : Expr} (h : Reads .operand t e rest) :
    Reads .operand (.sym .bang :: t) (.unary .not e) rest
  | plus {t rest : List Token} {e : Expr} (h : Reads .operand t e rest) :
    Reads .operand (.sym .plus :: t) e rest
  | primary {t rest : List Token} {e : Expr} (h : Reads .primary t e rest) :
    Reads .operand t e rest
  | int (n : Int64) (rest : List Token) : Reads .primary (.int n :: rest) (.int n) rest
  | double (x : Double) (rest : List Token) : Reads .primary (.double x :: rest) (.double x) rest
  | str (s : Text) (rest : List Token) : Reads .primary (.str s :: rest) (.str s) rest
  | name {name : Text} {rest : List Token}
    (h : rest.head? = some (.sym .lparen) → isCallable name = false) :
    Reads .primary (.name name :: rest) (ofName name) rest
  | callEmpty {name : Text} (hname : isCallable name = true) (rest : List Token) :
    Reads .primary (.name name :: .sym .lparen :: .sym .rparen :: rest) (.call name []) rest
  | call {name : Text} {t rest : List Token} {e : Expr} (hname : isCallable name = true)
    (h : Reads (.arguments name []) t e rest) :
    Reads .primary (.name name :: .sym .lparen :: t) e rest
  | paren {t rest : List Token} {e : Expr} (h : Reads (.level 0) t e (.sym .rparen :: rest)) :
    Reads .primary (.sym .lparen :: t) e rest
  | last {name : Text} {before : List Expr} {t rest : List Token} {e : Expr}
    (h : Reads (.level 0) t e (.sym .rparen :: rest)) :
    Reads (.arguments name before) t (.call name (before ++ [e])) rest
  | further {name : Text} {before : List Expr} {t mid rest : List Token} {e call : Expr}
    (h : Reads (.level 0) t e (.sym .comma :: mid))
    (hothers : Reads (.arguments name (before ++ [e])) mid call rest) :
    Reads (.arguments name before) t call rest

namespace Phrase

/-- Reads a phrase, going down no further than the given depth. -/
def read (depth : Nat) (t : List Token) : Phrase → Except ParseError (Expr × List Token)
  | level n => readLevel depth n t
  | chain n left => readChain depth n left t
  | operand => readUnary depth t
  | primary => readPrimary depth t
  | arguments name before =>
    (readArguments depth t).map fun r => (.call name (before ++ r.1), r.2)

/-- A bound on how deep the reading of a phrase of so many tokens descends. -/
def depth (count : Nat) : Phrase → Nat
  | level n => 10 * count + 2 + (6 - n)
  | chain _ _ => 10 * count
  | operand => 10 * count + 1
  | primary => 10 * count
  | arguments _ _ => 10 * count + 9

/-- One for a phrase that may be empty, and none for the others. -/
def slack : Phrase → Nat
  | chain _ _ => 1
  | _ => 0

end Phrase

section Sound

variable {depth : Nat} {p : Phrase} {t rest : List Token} {e : Expr}

/-- What is read at some depth is allowed by the grammar. -/
def Sound (depth : Nat) : Prop :=
  ∀ ⦃p t e rest⦄, Phrase.read depth t p = .ok (e, rest) → Reads p t e rest

/-- Where all that is read down to a depth is allowed, so is what is read at a level from one
further up. -/
theorem Sound.level (ih : Sound depth) {level : Nat}
    (h : readLevel (depth + 1) level t = .ok (e, rest)) : Reads (.level level) t e rest := by
  rw [readLevel] at h
  split at h
  · next hlevel => exact .operand hlevel (ih (p := .operand) h)
  · next hlevel =>
    obtain ⟨⟨left, mid⟩, hleft, hchain⟩ := bind_eq_ok.mp h
    exact .level (Nat.lt_of_not_le hlevel) (ih (p := .level _) hleft) (ih (p := .chain _ _) hchain)

/-- The same for the rest of a chain of operators. -/
theorem Sound.chain (ih : Sound depth) {level : Nat} {left : Expr}
    (h : readChain (depth + 1) level left t = .ok (e, rest)) :
    Reads (.chain level left) t e rest := by
  rw [readChain] at h
  cases ho : operator? level t with
  | none =>
    rw [ho] at h
    obtain ⟨rfl, rfl⟩ := h
    exact .stop ho
  | some r =>
    obtain ⟨op, after⟩ := r
    rw [ho] at h
    obtain ⟨rfl, rfl⟩ := operator?_eq_some.mp ho
    obtain ⟨⟨right, mid⟩, hright, hchain⟩ := bind_eq_ok.mp h
    exact .link (ih (p := .level _) hright) (ih (p := .chain _ _) hchain)

/-- The same for an operand. -/
theorem Sound.operand (ih : Sound depth) (h : readUnary (depth + 1) t = .ok (e, rest)) :
    Reads .operand t e rest := by
  unfold readUnary at h
  dsimp only at h
  split at h
  · obtain ⟨⟨e, mid⟩, he, ⟨rfl, rfl⟩⟩ := bind_eq_ok.mp h
    exact .neg (ih (p := .operand) he)
  · obtain ⟨⟨e, mid⟩, he, ⟨rfl, rfl⟩⟩ := bind_eq_ok.mp h
    exact .not (ih (p := .operand) he)
  · exact .plus (ih (p := .operand) h)
  · exact .primary (ih (p := .primary) h)

/-- The same for the arguments that are left of a call. -/
theorem Sound.arguments (ih : Sound depth) {es : List Expr}
    (h : readArguments (depth + 1) t = .ok (es, rest)) (name : Text) (before : List Expr) :
    Reads (.arguments name before) t (.call name (before ++ es)) rest := by
  unfold readArguments at h
  dsimp only at h
  obtain ⟨⟨first, mid⟩, hfirst, hmore⟩ := bind_eq_ok.mp h
  dsimp only at hmore
  split at hmore
  · obtain ⟨rfl, rfl⟩ := hmore
    exact .last (ih (p := .level _) hfirst)
  · obtain ⟨after, hcomma, hafter⟩ := bind_eq_ok.mp hmore
    obtain rfl := expect_eq_ok.mp hcomma
    obtain ⟨⟨others, last⟩, hothers, ⟨rfl, rfl⟩⟩ := bind_eq_ok.mp hafter
    have hreads := ih (p := .arguments name (before ++ [first])) (map_eq_ok.mpr ⟨_, hothers, rfl⟩)
    rw [List.append_assoc, List.singleton_append] at hreads
    exact .further (ih (p := .level _) hfirst) hreads

/-- The same for a literal, a name, a call and parentheses. -/
theorem Sound.primary (ih : Sound depth) (h : readPrimary (depth + 1) t = .ok (e, rest)) :
    Reads .primary t e rest := by
  unfold readPrimary at h
  dsimp only at h
  split at h
  · obtain ⟨rfl, rfl⟩ := h
    exact .int _ _
  · obtain ⟨rfl, rfl⟩ := h
    exact .double _ _
  · obtain ⟨rfl, rfl⟩ := h
    exact .str _ _
  · next name after =>
    split at h
    · next hname =>
      split at h
      · obtain ⟨rfl, rfl⟩ := h
        exact .callEmpty hname _
      · obtain ⟨⟨es, mid⟩, hes, ⟨rfl, rfl⟩⟩ := bind_eq_ok.mp h
        exact .call hname (ih (p := .arguments name []) (map_eq_ok.mpr ⟨_, hes, rfl⟩))
    · next hname =>
      obtain ⟨rfl, rfl⟩ := h
      exact .name fun _ => by simpa using hname
  · next name _ hparen =>
    obtain ⟨rfl, rfl⟩ := h
    refine .name fun hhead => ?_
    obtain ⟨after, rfl⟩ := List.head?_eq_some_iff.mp hhead
    exact absurd rfl (hparen after)
  · obtain ⟨⟨e, mid⟩, he, h⟩ := bind_eq_ok.mp h
    obtain ⟨after, hclose, ⟨rfl, rfl⟩⟩ := bind_eq_ok.mp h
    obtain rfl := expect_eq_ok.mp hclose
    exact .paren (ih (p := .level 0) he)
  · simp at h

/-- Whatever is read is allowed, at every depth. -/
theorem sound (depth : Nat) : Sound depth := by
  induction depth with
  | zero => rintro (_ | _ | _ | _ | _) t e rest ⟨⟩
  | succ depth ih =>
    rintro (level | ⟨level, left⟩ | _ | _ | ⟨name, before⟩) t e rest h
    · exact ih.level h
    · exact ih.chain h
    · exact ih.operand h
    · exact ih.primary h
    · obtain ⟨⟨es, mid⟩, hes, ⟨rfl, rfl⟩⟩ := map_eq_ok.mp h
      exact ih.arguments hes name before

end Sound

namespace Reads

variable {p : Phrase} {t rest : List Token} {e : Expr}

/-- Reading takes at least one token where the phrase is not empty. -/
theorem length_lt (h : Reads p t e rest) : rest.length < t.length + p.slack := by
  induction h <;> simp only [Phrase.slack, List.length_cons, Nat.add_zero] at * <;> omega

/-- No expression begins with a closing parenthesis. -/
theorem head?_ne_rparen (h : Reads p t e rest) (hp : p.slack = 0) :
    t.head? ≠ some (.sym .rparen) := by
  induction h <;> simp_all [Phrase.slack]

/-- No sign stands before a primary expression. -/
theorem readUnary_eq {depth : Nat} (h : readPrimary depth t = .ok (e, rest)) :
    readUnary (depth + 1) t = .ok (e, rest) := by
  rw [readUnary]
  · exact h
  all_goals
    rintro after rfl
    cases depth <;> simp [readPrimary] at h

/-- What the grammar allows is read at every depth beyond the bound for the number of tokens. -/
theorem complete (h : Reads p t e rest) (depth : Nat) (hdepth : p.depth t.length < depth) :
    p.read depth t = .ok (e, rest) := by
  -- Every part of a phrase has a smaller bound, so one step down leaves enough for it.
  induction h generalizing depth <;> obtain ⟨k, rfl⟩ := Nat.exists_eq_add_of_lt hdepth
  case operand hlevel _ ih =>
    rw [Phrase.read, readLevel, if_pos hlevel]
    exact ih _ (by simp only [Phrase.depth]; omega)
  case level hlevel hleft _ ihleft ihchain =>
    have hlt := hleft.length_lt
    simp only [Phrase.depth, Phrase.slack] at *
    rw [Phrase.read, readLevel, if_neg (by omega)]
    exact bind_eq_ok.mpr ⟨_, ihleft _ (by omega), ihchain _ (by omega)⟩
  case stop h =>
    rw [Phrase.read, readChain, h]
  case link hright _ ihright ihchain =>
    have hlt := hright.length_lt
    simp only [Phrase.depth, Phrase.slack, List.length_cons] at *
    rw [Phrase.read, readChain, operator?_eq_some.mpr ⟨rfl, rfl⟩]
    exact bind_eq_ok.mpr ⟨_, ihright _ (by omega), ihchain _ (by omega)⟩
  case neg ih =>
    simp only [Phrase.depth, List.length_cons] at *
    exact bind_eq_ok.mpr ⟨_, ih _ (by omega), rfl⟩
  case not ih =>
    simp only [Phrase.depth, List.length_cons] at *
    exact bind_eq_ok.mpr ⟨_, ih _ (by omega), rfl⟩
  case plus ih =>
    simp only [Phrase.depth, List.length_cons] at *
    exact ih _ (by omega)
  case primary ih =>
    simp only [Phrase.depth] at *
    exact readUnary_eq (ih _ (by omega))
  case int => rfl
  case double => rfl
  case str => rfl
  case name name rest h =>
    by_cases hparen : rest.head? = some (.sym .lparen)
    · obtain ⟨after, rfl⟩ := List.head?_eq_some_iff.mp hparen
      simp [Phrase.read, readPrimary, h hparen]
    · rw [Phrase.read, readPrimary]
      rintro after rfl
      exact hparen rfl
  case callEmpty hname _ =>
    simp [Phrase.read, readPrimary, hname]
  case call name t rest e hname h ih =>
    have hhead := h.head?_ne_rparen rfl
    simp only [Phrase.depth, List.length_cons] at *
    obtain ⟨⟨es, mid⟩, hes, ⟨rfl, rfl⟩⟩ := map_eq_ok.mp
      (ih (10 * (t.length + 1 + 1) + k) (by omega))
    simp only [Phrase.read, readPrimary, if_pos hname]
    split
    · simp at hhead
    · exact bind_eq_ok.mpr ⟨_, hes, rfl⟩
  case paren ih =>
    simp only [Phrase.depth, List.length_cons] at *
    exact bind_eq_ok.mpr ⟨_, ih _ (by omega), bind_eq_ok.mpr ⟨_, expect_eq_ok.mpr rfl, rfl⟩⟩
  case last name before t rest e _ ih =>
    have he := ih (10 * t.length + 9 + k) (by simp only [Phrase.depth]; omega)
    refine map_eq_ok.mpr ⟨([e], rest), bind_eq_ok.mpr ⟨_, he, rfl⟩, rfl⟩
  case further name before t mid rest e call h _ ih ihothers =>
    have hlt := h.length_lt
    simp only [Phrase.slack, List.length_cons] at hlt
    have he := ih (10 * t.length + 9 + k) (by simp only [Phrase.depth]; omega)
    obtain ⟨⟨es, last⟩, hes, ⟨rfl, rfl⟩⟩ := map_eq_ok.mp
      (ihothers (10 * t.length + 9 + k) (by simp only [Phrase.depth]; omega))
    refine map_eq_ok.mpr ⟨(e :: es, last), ?_, by simp⟩
    exact bind_eq_ok.mpr ⟨_, he, bind_eq_ok.mpr ⟨_, expect_eq_ok.mpr rfl,
      bind_eq_ok.mpr ⟨_, hes, rfl⟩⟩⟩

/-- Tokens are read in one way only. -/
theorem unique {e' : Expr} {rest' : List Token} (h : Reads p t e rest)
    (h' : Reads p t e' rest') : e = e' ∧ rest = rest' := by
  have heq := (h.complete _ (Nat.lt_add_one _)).symm.trans (h'.complete _ (Nat.lt_add_one _))
  simpa using heq

end Reads

variable {t rest : List Token} {e : Expr}

private theorem lt_depthOf (level : Nat) (t : List Token) :
    (Phrase.level level).depth t.length < depthOf t := by
  simp only [Phrase.depth, depthOf]
  omega

/-- The parser reads an expression exactly where the grammar allows it. -/
theorem read_eq_ok : read t = .ok (e, rest) ↔ Reads (.level 0) t e rest :=
  ⟨fun h => sound _ (p := .level 0) h, fun h => h.complete _ (lt_depthOf 0 t)⟩

/-- The operand of a print statement is read exactly where the grammar allows a sum. -/
theorem readSum_eq_ok : readSum t = .ok (e, rest) ↔ Reads (.level 4) t e rest :=
  ⟨fun h => sound _ (p := .level 4) h, fun h => h.complete _ (lt_depthOf 4 t)⟩

end Literate.Expr
