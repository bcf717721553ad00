import Mathlib.Data.Nat.Init
import Literate.Proofs.Language.Grammar

/-!
# Writing expressions

An expression can be written back as tokens. An operand stands in parentheses exactly where the
operator next to it binds more tightly, or as tightly from the left. What is written is read as the
same expression, and nothing shorter is.
-/

namespace Literate

/-- The symbol that an operator is written with. -/
def UnaryOp.symbol : UnaryOp → Symbol
  | neg => .minus
  | not => .bang

/-- The symbols between operands by how tightly they bind in C++, from the loosest. -/
def precedence : List (List Symbol) :=
  [[.pipePipe], [.ampAmp], [.eqEq, .bangEq], [.lt, .ltEq, .gt, .gtEq], [.plus, .minus],
    [.star, .slash, .percent]]

/-- How tightly an operator binds in C++, from the loosest at zero. -/
def BinaryOp.rank (op : BinaryOp) : Nat :=
  precedence.findIdx (·.contains op.symbol)

/-- The levels of the parser are the precedence of C++. -/
theorem BinaryOp.rank_eq_level (op : BinaryOp) : op.rank = op.level := by
  cases op <;> rfl

/-- Tokens, in parentheses where these are needed. -/
def enclosed (needed : Bool) (t : List Token) : List Token :=
  if needed then .sym .lparen :: t ++ [.sym .rparen] else t

namespace Expr

/-- How tightly an expression holds together: as its operator binds, or as an operand. -/
def level : Expr → Nat
  | binary op _ _ => op.rank
  | _ => 6

private theorem level_binary (op : BinaryOp) (l r : Expr) : (binary op l r).level = op.level :=
  op.rank_eq_level

mutual

/-- The tokens of an expression. Of two operators of one level the left one binds first, so the
right operand is enclosed at that level and the left one only below it. -/
def write : Expr → List Token
  | int n => [.int n]
  | double x => [.double x]
  | bool b => [.name (if b then "true".toList else "false".toList)]
  | str s => [.str s]
  | var name => [.name name]
  | unary op e => .sym op.symbol :: enclosed (e.level < 6) e.write
  | binary op l r =>
    enclosed (l.level < op.rank) l.write ++
      .sym op.symbol :: enclosed (r.level < op.rank + 1) r.write
  | call name es => .name name :: .sym .lparen :: writeArguments es ++ [.sym .rparen]

/-- The tokens of the arguments of a call, with commas between them. -/
def writeArguments : List Expr → List Token
  | [] => []
  | [e] => e.write
  | e :: e' :: es => e.write ++ .sym .comma :: writeArguments (e' :: es)

end

/-- The tokens of an expression where operators of at least a level are expected. -/
def writeAt (level : Nat) (e : Expr) : List Token :=
  enclosed (e.level < level) e.write

private theorem write_unary (op : UnaryOp) (e : Expr) :
    (unary op e).write = .sym op.symbol :: e.writeAt 6 := by
  rw [write, writeAt]

private theorem write_binary (op : BinaryOp) (l r : Expr) :
    (binary op l r).write = l.writeAt op.level ++ .sym op.symbol :: r.writeAt (op.level + 1) := by
  rw [write, writeAt, writeAt, op.rank_eq_level]

/-- An expression as the parser returns it: the truth values are no names. -/
inductive WellNamed : Expr → Prop
  | int (n : Int64) : WellNamed (.int n)
  | double (x : Double) : WellNamed (.double x)
  | bool (b : Bool) : WellNamed (.bool b)
  | str (s : Text) : WellNamed (.str s)
  | var {name : Text} (hname : isCallable name = true) : WellNamed (.var name)
  | unary (op : UnaryOp) {e : Expr} (he : WellNamed e) : WellNamed (.unary op e)
  | binary (op : BinaryOp) {l r : Expr} (hl : WellNamed l) (hr : WellNamed r) :
    WellNamed (.binary op l r)
  | call {name : Text} {es : List Expr} (hname : isCallable name = true)
    (hes : ∀ e ∈ es, WellNamed e) : WellNamed (.call name es)

private theorem isCallable_eq_true {name : Text} :
    isCallable name = true ↔ name ≠ "true".toList ∧ name ≠ "false".toList := by
  simp only [isCallable, Bool.and_eq_true, decide_eq_true_eq]

private theorem wellNamed_ofName (name : Text) : (ofName name).WellNamed := by
  unfold ofName
  split
  · exact .bool true
  · next htrue =>
    split
    · exact .bool false
    · next hfalse => exact .var (isCallable_eq_true.mpr ⟨htrue, hfalse⟩)

/-- What a phrase begins with is as the parser returns it. -/
def Phrase.WellNamed : Phrase → Prop
  | chain _ left => left.WellNamed
  | arguments name before => isCallable name = true ∧ ∀ e ∈ before, e.WellNamed
  | _ => True

/-- Whatever is read is well named. -/
theorem Reads.wellNamed {p : Phrase} {t rest : List Token} {e : Expr} (h : Reads p t e rest)
    (hp : p.WellNamed) : e.WellNamed := by
  induction h with
  | operand _ _ ih => exact ih trivial
  | level _ _ _ ihleft ihchain => exact ihchain (ihleft trivial)
  | stop => exact hp
  | link _ _ ihright ihchain => exact ihchain (.binary _ hp (ihright trivial))
  | neg _ ih => exact .unary _ (ih trivial)
  | not _ ih => exact .unary _ (ih trivial)
  | plus _ ih => exact ih trivial
  | primary _ ih => exact ih trivial
  | int n => exact .int n
  | double x => exact .double x
  | str s => exact .str s
  | name => exact wellNamed_ofName _
  | callEmpty hname => exact .call hname (by simp)
  | call hname _ ih => exact ih ⟨hname, by simp⟩
  | paren _ ih => exact ih trivial
  | last _ ih =>
    refine .call hp.1 (List.forall_mem_append.mpr ⟨hp.2, ?_⟩)
    exact List.forall_mem_singleton.mpr (ih trivial)
  | further _ _ ih ihothers =>
    refine ihothers ⟨hp.1, List.forall_mem_append.mpr ⟨hp.2, ?_⟩⟩
    exact List.forall_mem_singleton.mpr (ih trivial)

/-- An expression of a level ends before these tokens: they begin with no operator of that level or
a tighter one, and with no arguments. -/
structure Ends (level : Nat) (rest : List Token) : Prop where
  operator : ∀ l, level ≤ l → operator? l rest = none
  head : rest.head? ≠ some (.sym .lparen)

/-- An expression of a level ends wherever one of a looser level does. -/
theorem Ends.mono {n m : Nat} {rest : List Token} (h : Ends n rest) (hnm : n ≤ m) :
    Ends m rest :=
  ⟨fun l hl => h.operator l (Nat.le_trans hnm hl), h.head⟩

/-- Every expression ends before a symbol that is no operator. -/
theorem ends_sym {s : Symbol} (hs : BinaryOp.ofSymbol? s = none) (hparen : s ≠ .lparen) (n : Nat)
    (rest : List Token) : Ends n (.sym s :: rest) :=
  ⟨fun l _ => by simp [operator?, hs], by simpa using hparen⟩

/-- The right operand of the operator before ends before an operator of the same level. -/
theorem ends_operator (op : BinaryOp) (rest : List Token) :
    Ends (op.level + 1) (.sym op.symbol :: rest) := by
  refine ⟨fun l hl => ?_, by cases op <;> simp [BinaryOp.symbol]⟩
  have hop : BinaryOp.ofSymbol? op.symbol = some op := BinaryOp.ofSymbol?_eq_some_iff.mpr rfl
  simp only [operator?, hop]
  exact if_neg (by omega)

/-- No operator has a level of operands. -/
theorem operator?_of_six_le {l : Nat} (hl : 6 ≤ l) (t : List Token) : operator? l t = none := by
  refine Option.eq_none_iff_forall_ne_some.mpr fun r hr => ?_
  obtain ⟨-, hlevel⟩ := operator?_eq_some.mp hr
  exact absurd r.1.level_lt_six (by omega)

/-- An operand ends before everything but arguments. -/
theorem ends_six {rest : List Token} (h : rest.head? ≠ some (.sym .lparen)) : Ends 6 rest :=
  ⟨fun _ hl => operator?_of_six_le hl rest, h⟩

section Write

variable {n m : Nat} {t rest rest' : List Token} {e e' : Expr}

/-- Where no looser operator follows, an expression is one of every looser level as well. -/
theorem Reads.descend (hnm : n ≤ m) (hm : m ≤ 6) (h : Reads (.level m) t e rest)
    (hrest : Ends n rest) : Reads (.level n) t e rest := by
  induction hnm using Nat.decreasingInduction with
  | self => exact h
  | of_succ k hk ih =>
    have hstop : Reads (.chain k e) rest e rest := .stop (hrest.operator k (Nat.le_refl k))
    exact .level (by omega) (ih (hrest.mono (Nat.le_succ k))) hstop

/-- An operand is read with the chain of operators after it. -/
theorem Reads.of_operand (h : Reads .operand t e rest) (hn : n < 6) (hrest : Ends (n + 1) rest)
    (hchain : Reads (.chain n e) rest e' rest') : Reads (.level n) t e' rest' :=
  .level hn (.descend hn (Nat.le_refl 6) (.operand (Nat.le_refl 6) h) hrest) hchain

private theorem writeAt_of_le (h : n ≤ e.level) : e.writeAt n = e.write := by
  simp [writeAt, enclosed, Nat.not_lt.mpr h]

private theorem writeAt_of_lt (h : e.level < n) :
    e.writeAt n = .sym .lparen :: e.write ++ [.sym .rparen] := by
  simp [writeAt, enclosed, h]

private theorem level_le_six (e : Expr) : e.level ≤ 6 := by
  cases e
  case binary op l r => exact level_binary op l r ▸ Nat.le_of_lt op.level_lt_six
  all_goals exact Nat.le_refl 6

/-- What is written for an expression is read as it and the chain of operators after it. -/
def Restored (e : Expr) : Prop :=
  ∀ ⦃rest e' rest'⦄, Ends (e.level + 1) rest → Reads (.chain e.level e) rest e' rest' →
    Reads (.level e.level) (e.write ++ rest) e' rest'

private theorem restored_of_operand (hlevel : e.level = 6)
    (h : ∀ rest, Ends 6 rest → Reads .operand (e.write ++ rest) e rest) : e.Restored := by
  intro rest e' rest' hrest hchain
  rw [hlevel] at hchain ⊢
  -- There is no chain of operators at the level of operands.
  obtain ⟨rfl, rfl⟩ := hchain.unique (.stop (operator?_of_six_le (Nat.le_refl 6) rest))
  exact .operand (Nat.le_refl 6) (h _ (ends_six hrest.head))

/-- What is written for an expression is read as it at every level that it holds together at. -/
theorem Restored.reads (h : e.Restored) (hn : n ≤ e.level) (hrest : Ends n rest) :
    Reads (.level n) (e.write ++ rest) e rest :=
  have hchain : Reads (.chain e.level e) rest e rest := .stop (hrest.operator e.level hn)
  .descend hn e.level_le_six (h (hrest.mono (Nat.le_succ_of_le hn)) hchain) hrest

/-- In parentheses every expression is an operand. -/
theorem Restored.reads_paren (h : e.Restored) (rest : List Token) :
    Reads .operand (.sym .lparen :: e.write ++ [.sym .rparen] ++ rest) e rest := by
  have hread := h.reads (Nat.zero_le _) (ends_sym (s := .rparen) rfl (by decide) 0 rest)
  simpa using Reads.primary (.paren hread)

/-- With the parentheses it needs, an expression is read with the chain of operators after it. -/
theorem Restored.reads_chain (h : e.Restored) (hn : n < 6) (hrest : Ends (n + 1) rest)
    (hchain : Reads (.chain n e) rest e' rest') :
    Reads (.level n) (e.writeAt n ++ rest) e' rest' := by
  rcases Nat.lt_trichotomy n e.level with hlt | rfl | hgt
  · rw [writeAt_of_le (Nat.le_of_lt hlt)]
    exact .level hn (h.reads hlt hrest) hchain
  · rw [writeAt_of_le (Nat.le_refl _)]
    exact h hrest hchain
  · rw [writeAt_of_lt hgt]
    exact (h.reads_paren rest).of_operand hn hrest hchain

/-- With the parentheses it needs, an expression is read as it is at every level. -/
theorem Restored.reads_writeAt (h : e.Restored) (hn : n ≤ 6) (hrest : Ends n rest) :
    Reads (.level n) (e.writeAt n ++ rest) e rest := by
  by_cases hlevel : n ≤ e.level
  · rw [writeAt_of_le hlevel]
    exact h.reads hlevel hrest
  · rw [writeAt_of_lt (Nat.lt_of_not_le hlevel)]
    exact .descend hn (Nat.le_refl 6) (.operand (Nat.le_refl 6) (h.reads_paren rest)) hrest

/-- With the parentheses it needs, an expression is read as the operand of a sign. -/
theorem Restored.reads_operand (h : e.Restored) (hrest : Ends 6 rest) :
    Reads .operand (e.writeAt 6 ++ rest) e rest := by
  cases h.reads_writeAt (Nat.le_refl 6) hrest with
  | operand _ h => exact h
  | level hlt => exact absurd hlt (Nat.lt_irrefl 6)

/-- The arguments of a call are read one after the other. -/
theorem reads_writeArguments {es : List Expr} (name : Text) (before : List Expr)
    (he : e.Restored) (hes : ∀ e ∈ es, e.Restored) (rest : List Token) :
    Reads (.arguments name before) (writeArguments (e :: es) ++ .sym .rparen :: rest)
      (.call name (before ++ e :: es)) rest := by
  induction es generalizing e before with
  | nil =>
    rw [writeArguments]
    exact .last (he.reads (Nat.zero_le _) (ends_sym rfl (by decide) 0 rest))
  | cons e' es ih =>
    obtain ⟨he', hes'⟩ := List.forall_mem_cons.mp hes
    have hothers := ih (before ++ [e]) he' hes'
    rw [List.append_assoc, List.singleton_append] at hothers
    rw [writeArguments, List.append_assoc]
    exact .further (he.reads (Nat.zero_le _) (ends_sym rfl (by decide) 0 _)) hothers

/-- An expression as the parser returns it is read back from what is written for it. -/
theorem WellNamed.restored (h : e.WellNamed) : e.Restored := by
  induction h with
  | int n => exact restored_of_operand rfl fun rest _ => .primary (.int n rest)
  | double x => exact restored_of_operand rfl fun rest _ => .primary (.double x rest)
  | str s => exact restored_of_operand rfl fun rest _ => .primary (.str s rest)
  | bool b =>
    refine restored_of_operand rfl fun rest hrest => .primary ?_
    have hread (name : Text) : Reads .primary (.name name :: rest) (ofName name) rest :=
      .name fun h => absurd h hrest.head
    cases b with
    | true => exact hread "true".toList
    | false => exact hread "false".toList
  | @var name hname =>
    refine restored_of_operand rfl fun rest hrest => .primary ?_
    have hread : Reads .primary (.name name :: rest) (ofName name) rest :=
      .name fun h => absurd h hrest.head
    obtain ⟨htrue, hfalse⟩ := isCallable_eq_true.mp hname
    rwa [ofName, if_neg htrue, if_neg hfalse] at hread
  | @unary op e _ ih =>
    refine restored_of_operand rfl fun rest hrest => ?_
    have hread := ih.reads_operand hrest
    rw [write_unary]
    cases op with
    | neg => exact .neg hread
    | not => exact .not hread
  | @binary op l r _ _ ihl ihr =>
    intro rest e' rest' hrest hchain
    rw [level_binary] at hrest hchain ⊢
    have hright := ihr.reads_writeAt (Nat.succ_le_of_lt op.level_lt_six) hrest
    have hleft := ihl.reads_chain op.level_lt_six (ends_operator op _) (.link hright hchain)
    rwa [write_binary, List.append_assoc]
  | @call name es hname _ ih =>
    refine restored_of_operand rfl fun rest _ => .primary ?_
    cases es with
    | nil => exact .callEmpty hname rest
    | cons e es =>
      obtain ⟨he, hes⟩ := List.forall_mem_cons.mp ih
      have hread := reads_writeArguments name [] he hes rest
      rw [write, List.cons_append, List.cons_append, List.append_assoc]
      exact .call hname hread

end Write

section Shortest

variable {t rest : List Token} {e : Expr}

private theorem length_writeAt (n : Nat) (e : Expr) :
    (e.writeAt n).length = e.write.length + if e.level < n then 2 else 0 := by
  unfold writeAt enclosed
  split <;> simp_all

private theorem length_writeAt_mono {m n : Nat} (e : Expr) (h : m ≤ n) :
    (e.writeAt m).length ≤ (e.writeAt n).length := by
  rw [length_writeAt, length_writeAt]
  split <;> split <;> omega

private theorem length_writeAt_unary (op : UnaryOp) (e : Expr) :
    ((unary op e).writeAt 6).length = (e.writeAt 6).length + 1 := by
  rw [writeAt_of_le (Nat.le_refl 6), write_unary, List.length_cons]

/-- With one more comma, every argument has its comma after it. -/
theorem writeArguments_append_comma {es : List Expr} (h : es ≠ []) :
    writeArguments es ++ [.sym .comma] = es.flatMap fun e => e.write ++ [.sym .comma] := by
  induction es with
  | nil => exact absurd rfl h
  | cons e es ih =>
    cases es with
    | nil => simp [writeArguments]
    | cons e' es =>
      have ih := ih (List.cons_ne_nil e' es)
      rw [writeArguments, List.flatMap_cons, ← ih]
      simp

namespace Phrase

/-- How many tokens are written for an expression where a phrase is read as it. -/
def needed (e : Expr) : Phrase → Nat
  | level n => (e.writeAt (min n 6)).length
  | chain n _ => (e.writeAt n).length
  | operand | primary | arguments _ _ => (e.writeAt 6).length

/-- How many of these are written for what the phrase begins with. -/
def known : Phrase → Nat
  | chain n left => (left.writeAt n).length
  | arguments _ before => (before.flatMap fun e => e.write ++ [.sym .comma]).length + 2
  | _ => 0

end Phrase

/-- Reading takes all the tokens that are written for what is read. -/
theorem Reads.needed_le {p : Phrase} (h : Reads p t e rest) :
    p.needed e + rest.length ≤ t.length + p.known := by
  induction h with
  | @operand level t rest e hlevel _ ih =>
    rwa [Phrase.needed, Nat.min_eq_right hlevel]
  | @level level t mid rest left e hlevel _ _ ihleft ihchain =>
    -- Parentheses that the tighter level asks for may not be needed at this one.
    have hmono := length_writeAt_mono left (Nat.le_add_right level 1)
    simp only [Phrase.needed, Phrase.known, Nat.min_eq_left (show level + 1 ≤ 6 from hlevel),
      Nat.min_eq_left (Nat.le_of_lt hlevel)] at ihleft ihchain ⊢
    omega
  | stop => exact Nat.le_of_eq (Nat.add_comm _ _)
  | @link op t mid rest left right e _ _ ihright ihchain =>
    have hlevel : op.level ≤ (binary op left right).level :=
      Nat.le_of_eq (level_binary op left right).symm
    simp only [Phrase.needed, Phrase.known, writeAt_of_le hlevel, write_binary,
      Nat.min_eq_left (show op.level + 1 ≤ 6 from op.level_lt_six), List.length_append,
      List.length_cons] at ihright ihchain ⊢
    omega
  | neg _ ih =>
    simp only [Phrase.needed, Phrase.known, length_writeAt_unary, List.length_cons] at ih ⊢
    omega
  | not _ ih =>
    simp only [Phrase.needed, Phrase.known, length_writeAt_unary, List.length_cons] at ih ⊢
    omega
  | plus _ ih =>
    exact Nat.le_succ_of_le ih
  | primary _ ih => exact ih
  | int => exact Nat.le_of_eq (Nat.add_comm _ _)
  | double => exact Nat.le_of_eq (Nat.add_comm _ _)
  | str => exact Nat.le_of_eq (Nat.add_comm _ _)
  | @name name rest _ =>
    have hone : ((ofName name).writeAt 6).length = 1 := by
      unfold ofName
      split
      · rfl
      · split <;> rfl
    simp only [Phrase.needed, Phrase.known, hone, List.length_cons]
    omega
  | callEmpty hname rest => exact Nat.le_of_eq (Nat.add_comm _ _)
  | call _ _ ih =>
    simp only [Phrase.needed, Phrase.known, List.flatMap_nil, List.length_nil, List.length_cons]
      at ih ⊢
    omega
  | @paren t rest e _ ih =>
    simp only [Phrase.needed, Phrase.known, List.length_cons, length_writeAt] at ih ⊢
    split <;> omega
  | @last name before t rest e _ ih =>
    have hne : before ++ [e] ≠ [] := by simp
    have harguments := congrArg List.length (writeArguments_append_comma hne)
    rw [Phrase.needed, writeAt_of_le (Nat.le_refl 6), write]
    simp only [Phrase.needed, Phrase.known, length_writeAt, List.flatMap_append,
      List.flatMap_singleton, List.length_append, List.length_cons, List.length_nil]
      at harguments ih ⊢
    omega
  | further _ _ ih ihothers =>
    simp only [Phrase.needed, Phrase.known, length_writeAt, List.flatMap_append,
      List.flatMap_singleton, List.length_append, List.length_cons, List.length_nil]
      at ih ihothers ⊢
    omega

/-- No fewer tokens than those that are written for an expression are read as it, so none of the
parentheses that are written can be left out. -/
theorem length_write_le (h : read t = .ok (e, rest)) : e.write.length + rest.length ≤ t.length := by
  have hle := (read_eq_ok.mp h).needed_le
  simpa [Phrase.needed, Phrase.known, length_writeAt] using hle

end Shortest

end Expr

end Literate
