import Literate.Language.Parser
import Literate.Proofs.Result

/-!
# Readers and the tokens after them

What a reader of the parser reads does not depend on the tokens that follow, as long as it stops
before the end: a further token shows it where to stop. A statement always stops before a
semicolon, so the statements of two blocks side by side are the statements of the first and then
those of the second. Neither the depth that bounds the descent nor the number of statements that
may be read ever decides.
-/

namespace Literate

/-- One symbol is taken off the front exactly where it stands there. -/
theorem expect_eq_ok {s : Symbol} {otherwise : ParseError} {t rest : List Token} :
    expect s otherwise t = .ok rest ↔ t = .sym s :: rest := by
  unfold expect
  split
  · next u after =>
    split
    · next h => subst h; simp
    · next h => simp [h]
  · next h =>
    constructor
    · intro he; simp at he
    · rintro rfl; exact absurd rfl (h _ _)

/-- A name is taken off the front exactly where one stands there. -/
theorem expectName_eq_ok {t rest : List Token} {name : Text} :
    expectName t = .ok (name, rest) ↔ t = .name name :: rest := by
  unfold expectName
  split
  · simp
  · next h =>
    constructor
    · intro he; simp at he
    · rintro rfl; exact absurd rfl (h _ _)

/-- Tokens that do not begin with a given one do not when more follow. -/
theorem append_begins {x : Token} {t more : List Token} (hm : t = [] → more = [])
    (h : ∀ rest, t = x :: rest → False) (rest : List Token) (he : t ++ more = x :: rest) :
    False := by
  cases t with
  | nil => simp [hm rfl] at he
  | cons y t =>
    cases he
    exact h t rfl

/-- A reader of tokens: what it reads, and the tokens it leaves. -/
abbrev Reader (α : Type) := List Token → Except ParseError (α × List Token)

namespace Reader

variable {α β : Type} {p q : Reader α}

/-- What the first reader reads, the second reads as well where more tokens follow, and it leaves
these as they are. Reading that stopped at the end of the tokens tells nothing of more. -/
def Extends (p q : Reader α) : Prop :=
  ∀ ⦃t a rest⦄, p t = .ok (a, rest) →
    rest.length ≤ t.length ∧
      ∀ more, (rest = [] → more = []) → q (t ++ more) = .ok (a, rest ++ more)

/-- Two readers one after the other are carried over if each of them is. -/
theorem Extends.bind {f g : α → Reader β} (hp : p.Extends q) (hf : ∀ a, (f a).Extends (g a)) :
    Extends (fun t => do let (a, rest) ← p t; f a rest)
      (fun t => do let (a, rest) ← q t; g a rest) := by
  intro t b rest h
  obtain ⟨⟨a, mid⟩, ha, hb⟩ := bind_eq_ok.mp h
  obtain ⟨hmid, hcarry⟩ := hp ha
  obtain ⟨hrest, hcarry'⟩ := hf a hb
  refine ⟨Nat.le_trans hrest hmid, fun more hm => ?_⟩
  have hne : mid = [] → more = [] := by
    rintro rfl
    exact hm (List.length_eq_zero_iff.mp (Nat.le_zero.mp hrest))
  exact bind_eq_ok.mpr ⟨_, hcarry more hne, hcarry' more hm⟩

/-- The form that a value is put into afterwards does not matter. -/
theorem Extends.map (f : α → β) (hp : p.Extends q) :
    Extends (fun t => do let (a, rest) ← p t; .ok (f a, rest))
      (fun t => do let (a, rest) ← q t; .ok (f a, rest)) := by
  refine hp.bind (f := fun a rest => .ok (f a, rest)) (g := fun a rest => .ok (f a, rest)) ?_
  rintro a t b rest ⟨rfl, rfl⟩
  exact ⟨Nat.le_refl _, fun _ _ => rfl⟩

/-- Takes one symbol and goes on with a value that is known. -/
def closing (s : Symbol) (otherwise : ParseError) (a : α) : Reader α := fun t => do
  let rest ← expect s otherwise t
  .ok (a, rest)

/-- A closing symbol is taken whatever follows it. -/
theorem extends_closing (s : Symbol) (otherwise : ParseError) (a : α) :
    Extends (closing s otherwise a) (closing s otherwise a) := by
  intro t b rest h
  obtain ⟨after, hs, ⟨rfl, rfl⟩⟩ := bind_eq_ok.mp h
  obtain rfl := expect_eq_ok.mp hs
  exact ⟨by simp, fun more _ => bind_eq_ok.mpr ⟨_, expect_eq_ok.mpr rfl, rfl⟩⟩

end Reader

namespace Expr

/-- An operator of a level is read exactly where its symbol stands. -/
theorem operator?_eq_some {level : Nat} {t rest : List Token} {op : BinaryOp} :
    operator? level t = some (op, rest) ↔ t = .sym op.symbol :: rest ∧ op.level = level := by
  unfold operator?
  split
  · next s after =>
    cases hs : BinaryOp.ofSymbol? s with
    | none =>
      simp only [reduceCtorEq, false_iff, List.cons.injEq, Token.sym.injEq]
      rintro ⟨⟨rfl, -⟩, -⟩
      have := BinaryOp.ofSymbol?_eq_some_iff.mpr (rfl : op.symbol = op.symbol)
      simp [this] at hs
    | some o =>
      obtain rfl := BinaryOp.ofSymbol?_eq_some_iff.mp hs
      have hinj : o.symbol = op.symbol ↔ o = op := ⟨BinaryOp.symbol_injective, fun h => h ▸ rfl⟩
      simp only [List.cons.injEq, Token.sym.injEq, hinj]
      constructor
      · split
        · rintro ⟨⟩; simpa
        · simp
      · rintro ⟨⟨rfl, rfl⟩, rfl⟩
        simp
  · next h =>
    simp only [reduceCtorEq, false_iff]
    rintro ⟨rfl, -⟩
    exact h _ _ rfl

/-- Whether an operator follows shows in the first token. -/
theorem operator?_append {level : Nat} {t more : List Token} (h : t = [] → more = []) :
    operator? level (t ++ more) = (operator? level t).map fun r => (r.1, r.2 ++ more) := by
  cases t with
  | nil => simp [h rfl, operator?]
  | cons x rest =>
    cases x with
    | sym s =>
      simp only [List.cons_append, operator?]
      cases BinaryOp.ofSymbol? s with
      | none => rfl
      | some op => simp only []; split <;> rfl
    | _ => rfl

/-- A deeper descent reads all that a shallower one reads. -/
structure Deepens (depth deeper : Nat) : Prop where
  level : ∀ level, Reader.Extends (readLevel depth level) (readLevel deeper level)
  chain : ∀ level left, Reader.Extends (readChain depth level left) (readChain deeper level left)
  unary : Reader.Extends (readUnary depth) (readUnary deeper)
  primary : Reader.Extends (readPrimary depth) (readPrimary deeper)
  arguments : Reader.Extends (readArguments depth) (readArguments deeper)

variable {depth deeper : Nat}

/-- A level is an operand of the next level and the chain after it. -/
theorem Deepens.readLevel_succ (ih : Deepens depth deeper) (level : Nat) :
    Reader.Extends (readLevel (depth + 1) level) (readLevel (deeper + 1) level) := by
  intro t e rest h
  rw [readLevel] at h
  simp only [readLevel]
  split at h
  · next hlevel =>
    simp only [if_pos hlevel]
    exact ih.unary h
  · next hlevel =>
    simp only [if_neg hlevel]
    exact (ih.level (level + 1)).bind (fun left => ih.chain level left) h

/-- A chain stops where no operator of its level follows. -/
theorem Deepens.readChain_succ (ih : Deepens depth deeper) (level : Nat) (left : Expr) :
    Reader.Extends (readChain (depth + 1) level left) (readChain (deeper + 1) level left) := by
  intro t e rest h
  rw [readChain] at h
  cases ho : operator? level t with
  | none =>
    rw [ho] at h
    obtain ⟨rfl, rfl⟩ := h
    refine ⟨Nat.le_refl _, fun more hm => ?_⟩
    rw [readChain, operator?_append hm, ho]
    rfl
  | some r =>
    obtain ⟨op, after⟩ := r
    rw [ho] at h
    obtain ⟨rfl, -⟩ := operator?_eq_some.mp ho
    obtain ⟨hlen, hcarry⟩ :=
      (ih.level (level + 1)).bind (fun right => ih.chain level (.binary op left right)) h
    refine ⟨Nat.le_succ_of_le hlen, fun more hm => ?_⟩
    rw [readChain, operator?_append (by simp), ho]
    exact hcarry more hm

/-- No operand begins at the end of the tokens. -/
theorem ne_nil_of_readPrimary {t : List Token} {r : Expr × List Token}
    (h : readPrimary depth t = .ok r) : t ≠ [] := by
  rintro rfl
  cases depth <;> simp [readPrimary] at h

/-- The sign before an operand shows in the first token. -/
theorem Deepens.readUnary_succ (ih : Deepens depth deeper) :
    Reader.Extends (readUnary (depth + 1)) (readUnary (deeper + 1)) := by
  intro t e rest h
  unfold readUnary at h
  dsimp only at h
  split at h
  · obtain ⟨hlen, hcarry⟩ := ih.unary.map (Expr.unary .neg) h
    exact ⟨Nat.le_succ_of_le hlen, hcarry⟩
  · obtain ⟨hlen, hcarry⟩ := ih.unary.map (Expr.unary .not) h
    exact ⟨Nat.le_succ_of_le hlen, hcarry⟩
  · obtain ⟨hlen, hcarry⟩ := ih.unary h
    exact ⟨Nat.le_succ_of_le hlen, hcarry⟩
  · next hminus hbang hplus =>
    obtain ⟨hlen, hcarry⟩ := ih.primary h
    refine ⟨hlen, fun more hm => ?_⟩
    have ht : t = [] → more = [] := fun h0 => absurd h0 (ne_nil_of_readPrimary h)
    rw [← hcarry more hm, readUnary]
    · exact append_begins ht hminus
    · exact append_begins ht hbang
    · exact append_begins ht hplus

/-- No expression begins at the end of the tokens. -/
theorem readLevel_nil (depth level : Nat) : readLevel depth level [] = .error .expression := by
  induction depth generalizing level with
  | zero => rfl
  | succ depth ih =>
    rw [readLevel]
    split
    · rcases depth with _ | _ | depth <;> rfl
    · rw [ih]
      rfl

private theorem ne_nil_of_readArguments {t : List Token} {r : List Expr × List Token}
    (h : readArguments depth t = .ok r) : t ≠ [] := by
  rintro rfl
  cases depth with
  | zero => simp [readArguments] at h
  | succ depth =>
    obtain ⟨_, h, -⟩ := bind_eq_ok.mp h
    rw [readLevel_nil] at h
    cases h

/-- Whether a name is called shows in the token after it. -/
theorem Deepens.readPrimary_succ (ih : Deepens depth deeper) :
    Reader.Extends (readPrimary (depth + 1)) (readPrimary (deeper + 1)) := by
  intro t e rest h
  unfold readPrimary at h
  dsimp only at h
  split at h
  · obtain ⟨rfl, rfl⟩ := h
    exact ⟨Nat.le_succ _, fun _ _ => rfl⟩
  · obtain ⟨rfl, rfl⟩ := h
    exact ⟨Nat.le_succ _, fun _ _ => rfl⟩
  · obtain ⟨rfl, rfl⟩ := h
    exact ⟨Nat.le_succ _, fun _ _ => rfl⟩
  · next name after =>
    split at h
    · next hname =>
      split at h
      · next after =>
        obtain ⟨rfl, rfl⟩ := h
        exact ⟨by simp only [List.length_cons]; omega, fun _ _ => by simp [readPrimary, hname]⟩
      · next hparen =>
        obtain ⟨hlen, hcarry⟩ := ih.arguments.map (Expr.call name) h
        refine ⟨by simp only [List.length_cons]; omega, fun more hm => ?_⟩
        obtain ⟨⟨es, mid⟩, hargs, -⟩ := bind_eq_ok.mp h
        obtain ⟨x, after, rfl⟩ := List.exists_cons_of_ne_nil (ne_nil_of_readArguments hargs)
        have hx : x ≠ .sym .rparen := by rintro rfl; exact hparen _ rfl
        rw [← hcarry more hm]
        simp only [List.cons_append, readPrimary, if_pos hname]
        split
        · next heq => exact absurd (List.cons.inj heq).1 hx
        · rfl
    · next hname =>
      obtain ⟨rfl, rfl⟩ := h
      exact ⟨by simp, fun _ _ => by simp [readPrimary, hname]⟩
  · next name _ hparen =>
    obtain ⟨rfl, rfl⟩ := h
    refine ⟨Nat.le_succ _, fun more hm => ?_⟩
    rw [List.cons_append, readPrimary]
    exact append_begins hm hparen
  · obtain ⟨hlen, hcarry⟩ := (ih.level 0).bind
      (fun e => Reader.extends_closing .rparen .closingParen e) h
    exact ⟨Nat.le_succ_of_le hlen, hcarry⟩
  · simp at h

/-- Arguments go on after a comma and stop at a closing parenthesis. -/
theorem Deepens.readArguments_succ (ih : Deepens depth deeper) :
    Reader.Extends (readArguments (depth + 1)) (readArguments (deeper + 1)) := by
  intro t es rest h
  unfold readArguments at h
  dsimp only at h
  obtain ⟨⟨first, mid⟩, hfirst, h⟩ := bind_eq_ok.mp h
  obtain ⟨hmid, hcarry⟩ := ih.level 0 hfirst
  dsimp only at h
  split at h
  · next after =>
    obtain ⟨rfl, rfl⟩ := h
    exact ⟨Nat.le_of_succ_le hmid, fun more _ => bind_eq_ok.mpr ⟨_, hcarry more (by simp), rfl⟩⟩
  · obtain ⟨after, hcomma, h⟩ := bind_eq_ok.mp h
    obtain rfl := expect_eq_ok.mp hcomma
    obtain ⟨hrest, hcarry'⟩ := ih.arguments.map (first :: ·) h
    refine ⟨Nat.le_trans hrest (Nat.le_of_succ_le hmid), fun more hm => ?_⟩
    exact bind_eq_ok.mpr ⟨_, hcarry more (by simp), hcarry' more hm⟩

/-- No depth that suffices for an expression changes what is read. -/
theorem deepens (h : depth ≤ deeper) : Deepens depth deeper := by
  induction depth generalizing deeper with
  | zero =>
    constructor <;> intros <;> rintro _ _ _ ⟨⟩
  | succ depth ih =>
    obtain ⟨deeper, rfl⟩ : ∃ n, deeper = n + 1 := ⟨deeper - 1, by omega⟩
    have ih := ih (Nat.le_of_succ_le_succ h)
    exact ⟨ih.readLevel_succ, ih.readChain_succ, ih.readUnary_succ, ih.readPrimary_succ,
      ih.readArguments_succ⟩

private theorem depthOf_le (t more : List Token) : depthOf t ≤ depthOf (t ++ more) := by
  simp only [depthOf, List.length_append]
  omega

/-- An expression is read alike whatever follows where it ends. -/
theorem extends_read : Reader.Extends read read := fun t _ _ h =>
  ⟨((deepens (Nat.le_refl _)).level 0 h).1,
    fun more => ((deepens (depthOf_le t more)).level 0 h).2 more⟩

/-- So is an operand of a print statement. -/
theorem extends_readSum : Reader.Extends readSum readSum := fun t _ _ h =>
  ⟨((deepens (Nat.le_refl _)).level 4 h).1,
    fun more => ((deepens (depthOf_le t more)).level 4 h).2 more⟩

end Expr

/-- The operands of a print statement stop at the first token that is no shift sign. -/
theorem Item.readAll_append {count n : Nat} {t rest : List Token} {items : List Item}
    (more : List Token) (h : readAll count t = .ok (items, rest)) (ht : t.length ≤ count)
    (hn : (t ++ more).length ≤ n) :
    rest.length ≤ t.length ∧
      ((rest = [] → more = []) → readAll n (t ++ more) = .ok (items, rest ++ more)) := by
  induction count generalizing n t items with
  | zero =>
    obtain rfl := List.length_eq_zero_iff.mp (Nat.le_zero.mp ht)
    obtain ⟨rfl, rfl⟩ := h
    refine ⟨Nat.le_refl _, fun hm => ?_⟩
    obtain rfl := hm rfl
    cases n <;> rfl
  | succ count ih =>
    rw [readAll.eq_def] at h
    split at h
    · next _ after _ hcount =>
      cases hcount
      obtain ⟨⟨e, mid⟩, hsum, hitems⟩ := bind_eq_ok.mp h
      obtain ⟨⟨others, last⟩, hall, ⟨rfl, rfl⟩⟩ := bind_eq_ok.mp hitems
      obtain ⟨hmid, hcarry⟩ := Expr.extends_readSum hsum
      rw [List.cons_append] at hn ⊢
      simp only [List.length_cons, List.length_append] at ht hn ⊢
      obtain ⟨n, rfl⟩ : ∃ k, n = k + 1 := ⟨n - 1, by omega⟩
      obtain ⟨hrest, hcarry'⟩ := ih (n := n) hall (by omega)
        (by simp only [List.length_append]; omega)
      refine ⟨by omega, fun hm => ?_⟩
      have hne : mid = [] → more = [] := by
        rintro rfl
        exact hm (List.length_eq_zero_iff.mp (Nat.le_zero.mp hrest))
      exact bind_eq_ok.mpr ⟨_, hcarry more hne, bind_eq_ok.mpr ⟨_, hcarry' hm, rfl⟩⟩
    · next hshl =>
      obtain ⟨rfl, rfl⟩ := h
      refine ⟨Nat.le_refl _, fun hm => ?_⟩
      rw [readAll.eq_2]
      rintro k after rfl hafter
      exact append_begins hm (fun after he => hshl count after rfl he) after hafter

namespace Statement

private theorem extends_readAssignment (name : Text) (op : Option BinaryOp) :
    Reader.Extends (readAssignment name op) (readAssignment name op) :=
  Expr.extends_read.map (assign name op)

private theorem extends_readExpr : Reader.Extends readExpr readExpr :=
  Expr.extends_read.map expr

private theorem extends_readExit : Reader.Extends readExit readExit :=
  Expr.extends_read.bind fun e => Reader.extends_closing .rparen .closingParen (exit e)

private theorem extends_readThrow : Reader.Extends readThrow readThrow := by
  intro t s rest h
  obtain ⟨⟨type, mid⟩, hname, hrest⟩ := bind_eq_ok.mp h
  obtain rfl := expectName_eq_ok.mp hname
  obtain ⟨after, hparen, h⟩ := bind_eq_ok.mp hrest
  obtain rfl := expect_eq_ok.mp hparen
  obtain ⟨hlen, hcarry⟩ := Expr.extends_read.bind
    (fun e => Reader.extends_closing .rparen .closingParen (throw type e)) h
  exact ⟨Nat.le_succ_of_le (Nat.le_succ_of_le hlen), hcarry⟩

/-- How a variable is declared shows in the token after its name. -/
theorem extends_readDeclaration (type : VarType) (name : Text) :
    Reader.Extends (readDeclaration type name) (readDeclaration type name) := by
  intro t s rest h
  unfold readDeclaration at h
  split at h
  · obtain ⟨hlen, hcarry⟩ := Expr.extends_read.map (fun e => declare type name (some e)) h
    exact ⟨Nat.le_succ_of_le hlen, hcarry⟩
  · obtain ⟨hlen, hcarry⟩ := Expr.extends_read.bind
      (fun e => Reader.extends_closing .rparen .closingParen (declare type name (some e))) h
    exact ⟨Nat.le_succ_of_le hlen, hcarry⟩
  · next heq hparen =>
    split at h
    · cases h
    · next htype =>
      obtain ⟨rfl, rfl⟩ := h
      refine ⟨Nat.le_refl _, fun more hm => ?_⟩
      rw [readDeclaration, if_neg htype]
      · exact append_begins hm heq
      · exact append_begins hm hparen

private theorem extends_readPrint (stream : Stream) :
    Reader.Extends (readPrint stream) (readPrint stream) := by
  intro t s rest h
  obtain ⟨⟨items, last⟩, hall, ⟨rfl, rfl⟩⟩ := bind_eq_ok.mp h
  refine ⟨(Item.readAll_append [] hall (Nat.le_refl _) (Nat.le_refl _)).1, fun more hm => ?_⟩
  have hcarry := (Item.readAll_append more hall (Nat.le_refl _) (Nat.le_refl _)).2 hm
  exact bind_eq_ok.mpr ⟨_, hcarry, rfl⟩

/-- A shift sign after a stream's name begins a print statement. -/
theorem readAfterName_stream {name : Text} {stream : Stream} (hs : stream? name = some stream)
    (t : List Token) : readAfterName name .shl t = readPrint stream (.sym .shl :: t) := by
  simp only [readAfterName, hs]

/-- Without a print statement, the name and then the symbol decide. -/
theorem readAfterName_of_no_stream {name : Text} {s : Symbol}
    (hs : s = .shl → stream? name = none) (t : List Token) :
    readAfterName name s t =
      if name = "throw".toList then readThrow (.sym s :: t)
      else if name = "std::exit".toList ∧ s = .lparen then readExit t
      else match assignment? s with
        | some op => readAssignment name op t
        | none => readExpr (.name name :: .sym s :: t) := by
  unfold readAfterName
  split
  · next stream hstream => simp [hs rfl] at hstream
  · rfl

/-- A statement that begins with a name and a symbol is carried over. -/
theorem readAfterName_append {name : Text} {s : Symbol} {t rest : List Token} {stmt : Statement}
    (h : readAfterName name s t = .ok (stmt, rest)) :
    rest.length ≤ t.length + 2 ∧ ∀ more, (rest = [] → more = []) →
      readAfterName name s (t ++ more) = .ok (stmt, rest ++ more) := by
  by_cases hs : s = .shl → stream? name = none
  · rw [readAfterName_of_no_stream hs] at h
    simp only [readAfterName_of_no_stream hs]
    split at h
    · next hthrow =>
      obtain ⟨hlen, hcarry⟩ := extends_readThrow h
      refine ⟨Nat.le_succ_of_le hlen, fun more hm => ?_⟩
      rw [if_pos hthrow]
      exact hcarry more hm
    · next hthrow =>
      split at h
      · next hexit =>
        obtain ⟨hlen, hcarry⟩ := extends_readExit h
        refine ⟨by omega, fun more hm => ?_⟩
        rw [if_neg hthrow, if_pos hexit]
        exact hcarry more hm
      · next hexit =>
        simp only [if_neg hthrow, if_neg hexit]
        cases ha : assignment? s with
        | some op =>
          rw [ha] at h
          obtain ⟨hlen, hcarry⟩ := extends_readAssignment name op h
          exact ⟨by omega, hcarry⟩
        | none =>
          rw [ha] at h
          exact extends_readExpr h
  · obtain ⟨rfl, hstream⟩ := Classical.not_imp.mp hs
    obtain ⟨stream, hstream⟩ := Option.ne_none_iff_exists'.mp hstream
    rw [readAfterName_stream hstream] at h
    simp only [readAfterName_stream hstream]
    obtain ⟨hlen, hcarry⟩ := extends_readPrint stream h
    exact ⟨Nat.le_succ_of_le hlen, hcarry⟩

/-- What a statement is shows in two tokens, and it has two or ends with all of them. -/
theorem extends_readBody : Reader.Extends readBody readBody := by
  intro t s rest h
  unfold readBody at h
  split at h
  · next word name after =>
    split at h
    · next type htype =>
      obtain ⟨hlen, hcarry⟩ := extends_readDeclaration type name h
      refine ⟨by simp only [List.length_cons]; omega, fun more hm => ?_⟩
      simp only [List.cons_append, readBody, htype]
      exact hcarry more hm
    · next htype =>
      split at h
      · next hthrow =>
        obtain ⟨hlen, hcarry⟩ := extends_readThrow h
        refine ⟨Nat.le_succ_of_le hlen, fun more hm => ?_⟩
        simp only [List.cons_append, readBody, htype, if_pos hthrow]
        exact hcarry more hm
      · next hthrow =>
        obtain ⟨hlen, hcarry⟩ := extends_readExpr h
        refine ⟨hlen, fun more hm => ?_⟩
        simp only [List.cons_append, readBody, htype, if_neg hthrow]
        exact hcarry more hm
  · next name s after =>
    exact readAfterName_append h
  · next name after hname hsym =>
    split at h
    · next hthrow =>
      obtain ⟨hlen, hcarry⟩ := extends_readThrow h
      refine ⟨Nat.le_succ_of_le hlen, fun more hm => ?_⟩
      have ha : after = [] → more = [] := by rintro rfl; cases h
      rw [List.cons_append, readBody, if_pos hthrow]
      · exact hcarry more hm
      · exact fun n => append_begins ha (hname n)
      · exact fun n => append_begins ha (hsym n)
    · next hthrow =>
      obtain ⟨hlen, hcarry⟩ := extends_readExpr h
      refine ⟨hlen, fun more hm => ?_⟩
      have ha : after = [] → more = [] := by rintro rfl; cases h; exact hm rfl
      rw [List.cons_append, readBody, if_neg hthrow]
      · exact hcarry more hm
      · exact fun n => append_begins ha (hname n)
      · exact fun n => append_begins ha (hsym n)
  · next hnn hns hn =>
    obtain ⟨hlen, hcarry⟩ := extends_readExpr h
    refine ⟨hlen, fun more hm => ?_⟩
    have ht : t = [] → more = [] := by rintro rfl; cases h
    rw [readBody]
    · exact hcarry more hm
    · exact fun word name after => append_begins ht (hn word) (.name name :: after)
    · exact fun name s after => append_begins ht (hn name) (.sym s :: after)
    · exact fun name => append_begins ht (hn name)

/-- A statement with its semicolon is read whatever follows it. -/
theorem read_append {t rest : List Token} {s : Statement} (h : read t = .ok (s, rest)) :
    rest.length < t.length ∧ ∀ more, read (t ++ more) = .ok (s, rest ++ more) := by
  obtain ⟨⟨s, mid⟩, hbody, h⟩ := bind_eq_ok.mp h
  obtain ⟨after, hsemi, ⟨rfl, rfl⟩⟩ := bind_eq_ok.mp h
  obtain rfl := expect_eq_ok.mp hsemi
  obtain ⟨hlen, hcarry⟩ := extends_readBody hbody
  refine ⟨hlen, fun more => ?_⟩
  exact bind_eq_ok.mpr ⟨_, hcarry more (by simp), bind_eq_ok.mpr ⟨_, expect_eq_ok.mpr rfl, rfl⟩⟩

/-- One semicolon or one statement is read at a time. -/
theorem readUpTo_cons (count : Nat) (x : Token) (t : List Token) :
    readUpTo (count + 1) (x :: t) =
      if x = .sym .semi then readUpTo count t
      else (do
        let (s, rest) ← read (x :: t)
        let others ← readUpTo count rest
        .ok (s :: others)) := by
  split
  · next hx => subst hx; rfl
  · next hx =>
    rw [readUpTo]
    · exact fun h => List.cons_ne_nil _ _ h
    · rintro rest ⟨⟩
      exact hx rfl

/-- How many statements may be read never decides what is read. -/
theorem readUpTo_of_length_le {m n : Nat} {t : List Token} (hm : t.length ≤ m)
    (hn : t.length ≤ n) : readUpTo m t = readUpTo n t := by
  induction m generalizing n t with
  | zero =>
    obtain rfl := List.length_eq_zero_iff.mp (Nat.le_zero.mp hm)
    cases n <;> rfl
  | succ m ih =>
    cases t with
    | nil => cases n <;> rfl
    | cons x t =>
      obtain ⟨n, rfl⟩ : ∃ k, n = k + 1 := ⟨n - 1, by simp only [List.length_cons] at hn; omega⟩
      simp only [List.length_cons, Nat.add_le_add_iff_right] at hm hn
      rw [readUpTo_cons, readUpTo_cons, ih hm hn]
      cases hr : read (x :: t) with
      | error e => rfl
      | ok r =>
        have hlt := (read_append hr).1
        simp only [List.length_cons] at hlt
        have hrest := ih (n := n) (t := r.2) (by omega) (by omega)
        simp only [bind, Except.bind, hrest]

/-- A block is empty, or begins with a semicolon or with a statement. -/
theorem readAll_cons (x : Token) (t : List Token) :
    readAll (x :: t) =
      if x = .sym .semi then readAll t
      else (do
        let (s, rest) ← read (x :: t)
        let others ← readAll rest
        .ok (s :: others)) := by
  rw [readAll, List.length_cons, readUpTo_cons]
  cases hr : read (x :: t) with
  | error e => rfl
  | ok r =>
    have hlt := (read_append hr).1
    simp only [List.length_cons] at hlt
    have hrest := readUpTo_of_length_le (t := r.2) (m := t.length) (by omega) (Nat.le_refl _)
    simp only [bind, Except.bind, readAll, hrest]

/-- Statements that are read to the end of the tokens are read before any others as well. -/
theorem readAll_append {t : List Token} {ss : List Statement} (h : readAll t = .ok ss)
    (more : List Token) : readAll (t ++ more) = (readAll more).map (ss ++ ·) := by
  match t, h with
  | [], h =>
    obtain rfl := Except.ok.inj h
    rw [List.nil_append]
    cases readAll more <;> rfl
  | x :: t, h =>
    rw [readAll_cons] at h
    rw [List.cons_append, readAll_cons]
    split at h
    · next hx => rw [if_pos hx, readAll_append h more]
    · next hx =>
      obtain ⟨⟨s, rest⟩, hread, hothers⟩ := bind_eq_ok.mp h
      obtain ⟨others, hall, ⟨⟩⟩ := bind_eq_ok.mp hothers
      obtain ⟨hlt, hcarry⟩ := read_append hread
      rw [if_neg hx, ← List.cons_append, hcarry more]
      have ih := readAll_append hall more
      simp only [bind, Except.bind, ih]
      cases readAll more <;> rfl
termination_by t.length
decreasing_by
  · exact hlt
  · exact Nat.lt_add_one _

end Statement

end Literate
