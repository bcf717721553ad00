import Literate.Proofs.Language.Writing

/-!
# Writing blocks

The statements of a block can be written back as tokens, each with a semicolon after it. What is
written is read as the same statements, however deep their expressions are: every statement begins
in a way that tells it from the others, and no expression goes on into what follows it.
-/

namespace Literate

namespace Item

/-- The expression that an operand of a print statement is written as. -/
def toExpr : Item → Expr
  | value e => e
  | endl => .var "std::endl".toList
  | boolalpha on => .var (if on then "std::boolalpha".toList else "std::noboolalpha".toList)
  | precision e => .call "std::setprecision".toList [e]

private theorem toExpr_ofExpr (e : Expr) : (ofExpr e).toExpr = e := by
  unfold ofExpr
  split
  · split
    · next h => rw [toExpr, h]
    · split
      · next h => rw [toExpr, h]; rfl
      · split
        · next h => rw [toExpr, h]; rfl
        · rfl
  · split
    · next h => rw [toExpr, h]
    · rfl
  · rfl

/-- The tokens of the operands of a print statement, each after a shift sign. A shift binds less
tightly than a sum and more tightly than a comparison. -/
def writeAll (items : List Item) : List Token :=
  items.flatMap fun i => .sym .shl :: i.toExpr.writeAt BinaryOp.add.rank

/-- An operand of a print statement ends before the next one and before a semicolon. -/
theorem ends_writeAll (items : List Item) (rest : List Token) :
    Expr.Ends 4 (writeAll items ++ .sym .semi :: rest) := by
  cases items with
  | nil => exact Expr.ends_sym rfl (by decide) 4 rest
  | cons i is => exact Expr.ends_sym rfl (by decide) 4 _

/-- The operands of a print statement are read back up to the semicolon. -/
theorem readAll_items {es : List Expr} (hes : ∀ e ∈ es, e.WellNamed) {count : Nat}
    {rest : List Token} (hcount : (writeAll (es.map ofExpr)).length ≤ count) :
    readAll count (writeAll (es.map ofExpr) ++ .sym .semi :: rest) =
      .ok (es.map ofExpr, .sym .semi :: rest) := by
  induction es generalizing count with
  | nil => cases count <;> rfl
  | cons e es ih =>
    obtain ⟨he, hes⟩ := List.forall_mem_cons.mp hes
    have hwrite : writeAll ((e :: es).map ofExpr) =
        .sym .shl :: e.writeAt 4 ++ writeAll (es.map ofExpr) := by
      simp only [writeAll, List.map_cons, List.flatMap_cons, toExpr_ofExpr,
        BinaryOp.rank_eq_level, BinaryOp.level]
    rw [hwrite] at hcount ⊢
    simp only [List.cons_append, List.append_assoc, List.length_cons, List.length_append]
      at hcount ⊢
    obtain ⟨count, rfl⟩ : ∃ k, count = k + 1 := ⟨count - 1, by omega⟩
    have hread := he.restored.reads_writeAt (by decide) (ends_writeAll (es.map ofExpr) rest)
    exact bind_eq_ok.mpr ⟨_, Expr.readSum_eq_ok.mpr hread,
      bind_eq_ok.mpr ⟨_, ih hes (by omega), rfl⟩⟩

/-- The operands that are read are those that expressions stand for. -/
theorem exists_of_readAll {count : Nat} {t rest : List Token} {items : List Item}
    (h : readAll count t = .ok (items, rest)) :
    ∃ es : List Expr, (∀ e ∈ es, e.WellNamed) ∧ items = es.map ofExpr := by
  induction count generalizing t items with
  | zero =>
    obtain ⟨rfl, -⟩ := h
    exact ⟨[], by simp, rfl⟩
  | succ count ih =>
    rw [readAll.eq_def] at h
    split at h
    · next hcount =>
      cases hcount
      obtain ⟨⟨e, mid⟩, he, hitems⟩ := bind_eq_ok.mp h
      obtain ⟨⟨others, last⟩, hothers, ⟨rfl, rfl⟩⟩ := bind_eq_ok.mp hitems
      obtain ⟨es, hes, rfl⟩ := ih hothers
      have hwell := (Expr.readSum_eq_ok.mp he).wellNamed trivial
      exact ⟨e :: es, List.forall_mem_cons.mpr ⟨hwell, hes⟩, rfl⟩
    · obtain ⟨rfl, -⟩ := h
      exact ⟨[], by simp, rfl⟩

/-- A shift sign is followed by an operand. -/
theorem ne_nil_of_readAll {count : Nat} {t rest : List Token} {items : List Item}
    (h : readAll (count + 1) (.sym .shl :: t) = .ok (items, rest)) : items ≠ [] := by
  obtain ⟨⟨e, mid⟩, -, hitems⟩ := bind_eq_ok.mp h
  obtain ⟨⟨others, last⟩, -, ⟨rfl, -⟩⟩ := bind_eq_ok.mp hitems
  exact List.cons_ne_nil _ _

end Item

/-- The name that a stream is written with. -/
def Stream.name : Stream → Text
  | .out => "std::cout".toList
  | .err => "std::cerr".toList

namespace Statement

/-- The sign of an assignment. Only four operators have one of their own. -/
def assignmentSign : Option BinaryOp → Symbol
  | some .add => .plusEq
  | some .sub => .minusEq
  | some .mul => .starEq
  | some .div => .slashEq
  | _ => .eq

private theorem assignmentSign_eq {s : Symbol} {op : Option BinaryOp}
    (h : assignment? s = some op) :
    assignmentSign op = s := by
  cases s <;> cases h <;> rfl

/-- The tokens of a statement without the semicolon after it. An expression is enclosed, so that
it does not begin like another statement. -/
def write : Statement → List Token
  | declare type name none => [.name type.label, .name name]
  | declare type name (some e) => .name type.label :: .name name :: .sym .eq :: e.write
  | assign name op e => .name name :: .sym (assignmentSign op) :: e.write
  | print stream items => .name stream.name :: Item.writeAll items
  | throw type e =>
    .name "throw".toList :: .name type :: .sym .lparen :: e.write ++ [.sym .rparen]
  | exit e => .name "std::exit".toList :: .sym .lparen :: e.write ++ [.sym .rparen]
  | expr e => .sym .lparen :: e.write ++ [.sym .rparen]

/-- The tokens of a block, with a semicolon after each statement. -/
def writeAll (ss : List Statement) : List Token :=
  ss.flatMap fun s => s.write ++ [.sym .semi]

/-- A statement as the parser returns it. -/
inductive Readable : Statement → Prop
  | declare {type : VarType} (name : Text) (htype : type ≠ .auto) :
    Readable (.declare type name none)
  | init (type : VarType) (name : Text) {e : Expr} (he : e.WellNamed) :
    Readable (.declare type name (some e))
  | assign {name : Text} {s : Symbol} {op : Option BinaryOp} {e : Expr}
    (hname : name ≠ "throw".toList) (hs : assignment? s = some op) (he : e.WellNamed) :
    Readable (.assign name op e)
  | print (stream : Stream) {es : List Expr} (hne : es ≠ []) (hes : ∀ e ∈ es, e.WellNamed) :
    Readable (.print stream (es.map Item.ofExpr))
  | throw (type : Text) {e : Expr} (he : e.WellNamed) : Readable (.throw type e)
  | exit {e : Expr} (he : e.WellNamed) : Readable (.exit e)
  | expr {e : Expr} (he : e.WellNamed) : Readable (.expr e)

section Image

variable {t rest : List Token} {s : Statement}

private theorem wellNamed_of_read {e : Expr} (h : Expr.read t = .ok (e, rest)) : e.WellNamed :=
  (Expr.read_eq_ok.mp h).wellNamed trivial

private theorem readable_of_readExpr (h : readExpr t = .ok (s, rest)) : s.Readable := by
  obtain ⟨⟨e, mid⟩, he, ⟨rfl, -⟩⟩ := bind_eq_ok.mp h
  exact .expr (wellNamed_of_read he)

private theorem readable_of_readDeclaration {type : VarType} {name : Text}
    (h : readDeclaration type name t = .ok (s, rest)) : s.Readable := by
  unfold readDeclaration at h
  split at h
  · obtain ⟨⟨e, mid⟩, he, ⟨rfl, -⟩⟩ := bind_eq_ok.mp h
    exact .init type name (wellNamed_of_read he)
  · obtain ⟨⟨e, mid⟩, he, hclose⟩ := bind_eq_ok.mp h
    obtain ⟨after, -, ⟨rfl, -⟩⟩ := bind_eq_ok.mp hclose
    exact .init type name (wellNamed_of_read he)
  · split at h
    · cases h
    · next htype =>
      obtain ⟨rfl, -⟩ := h
      exact .declare name htype

private theorem readable_of_readThrow (h : readThrow t = .ok (s, rest)) : s.Readable := by
  obtain ⟨⟨type, mid⟩, -, hparen⟩ := bind_eq_ok.mp h
  obtain ⟨after, -, hmessage⟩ := bind_eq_ok.mp hparen
  obtain ⟨⟨e, last⟩, he, hclose⟩ := bind_eq_ok.mp hmessage
  obtain ⟨_, -, ⟨rfl, -⟩⟩ := bind_eq_ok.mp hclose
  exact .throw type (wellNamed_of_read he)

private theorem readable_of_readAfterName {name : Text} {sign : Symbol}
    (h : readAfterName name sign t = .ok (s, rest)) : s.Readable := by
  by_cases hs : sign = .shl → stream? name = none
  · rw [readAfterName_of_no_stream hs] at h
    split at h
    · exact readable_of_readThrow h
    · next hthrow =>
      split at h
      · obtain ⟨⟨e, mid⟩, he, hclose⟩ := bind_eq_ok.mp h
        obtain ⟨after, -, ⟨rfl, -⟩⟩ := bind_eq_ok.mp hclose
        exact .exit (wellNamed_of_read he)
      · split at h
        · next op hsign =>
          obtain ⟨⟨e, mid⟩, he, ⟨rfl, -⟩⟩ := bind_eq_ok.mp h
          exact .assign hthrow hsign (wellNamed_of_read he)
        · exact readable_of_readExpr h
  · obtain ⟨rfl, hstream⟩ := Classical.not_imp.mp hs
    obtain ⟨stream, hstream⟩ := Option.ne_none_iff_exists'.mp hstream
    rw [readAfterName_stream hstream] at h
    obtain ⟨⟨items, mid⟩, hall, ⟨rfl, -⟩⟩ := bind_eq_ok.mp h
    obtain ⟨es, hes, rfl⟩ := Item.exists_of_readAll hall
    have hne := Item.ne_nil_of_readAll hall
    exact .print stream (fun h => hne (by rw [h]; rfl)) hes

/-- What is read as a statement can be written and read back. -/
theorem readable_of_readBody (h : readBody t = .ok (s, rest)) : s.Readable := by
  unfold readBody at h
  split at h
  · split at h
    · exact readable_of_readDeclaration h
    · split at h
      · exact readable_of_readThrow h
      · exact readable_of_readExpr h
  · exact readable_of_readAfterName h
  · split at h
    · exact readable_of_readThrow h
    · exact readable_of_readExpr h
  · exact readable_of_readExpr h

/-- Every statement of a block that is read is as the parser returns it. -/
theorem readable_of_readAll {t : List Token} {ss : List Statement} (h : readAll t = .ok ss) :
    ∀ s ∈ ss, s.Readable := by
  match t, h with
  | [], h =>
    obtain rfl := Except.ok.inj h
    simp
  | x :: t, h =>
    rw [readAll_cons] at h
    split at h
    · exact readable_of_readAll h
    · obtain ⟨⟨s, rest⟩, hread, hothers⟩ := bind_eq_ok.mp h
      obtain ⟨others, hall, ⟨⟩⟩ := bind_eq_ok.mp hothers
      have hlt := (read_append hread).1
      obtain ⟨⟨s, mid⟩, hbody, hsemi⟩ := bind_eq_ok.mp hread
      obtain ⟨after, -, ⟨rfl, rfl⟩⟩ := bind_eq_ok.mp hsemi
      exact List.forall_mem_cons.mpr ⟨readable_of_readBody hbody, readable_of_readAll hall⟩
termination_by t.length
decreasing_by
  · exact hlt
  · exact Nat.lt_add_one _

end Image

section Write

variable {e : Expr} {s : Statement}

/-- What is written for an expression is read back before a symbol that is no operator. -/
theorem read_write (he : e.WellNamed) {s : Symbol} (hs : BinaryOp.ofSymbol? s = none)
    (hparen : s ≠ .lparen) (rest : List Token) :
    Expr.read (e.write ++ .sym s :: rest) = .ok (e, .sym s :: rest) :=
  Expr.read_eq_ok.mpr (he.restored.reads (Nat.zero_le _) (Expr.ends_sym hs hparen 0 rest))

private theorem ofWord?_label (type : VarType) : VarType.ofWord? type.label = some type := by
  cases type <;> decide

private theorem stream?_name (stream : Stream) : stream? stream.name = some stream := by
  cases stream <;> decide

private theorem readPrint_items (stream : Stream) {es : List Expr} (hes : ∀ e ∈ es, e.WellNamed)
    (rest : List Token) :
    readPrint stream (Item.writeAll (es.map Item.ofExpr) ++ .sym .semi :: rest) =
      .ok (print stream (es.map Item.ofExpr), .sym .semi :: rest) :=
  bind_eq_ok.mpr ⟨_, Item.readAll_items hes (by simp), rfl⟩

/-- What is written for a statement is read back where a semicolon follows. -/
theorem Readable.readBody_write (h : s.Readable) (rest : List Token) :
    readBody (s.write ++ .sym .semi :: rest) = .ok (s, .sym .semi :: rest) := by
  cases h with
  | @declare type name htype =>
    simp only [write, List.cons_append, List.nil_append, readBody, ofWord?_label, readDeclaration]
    exact if_neg htype
  | init type name he =>
    simp only [write, List.cons_append, readBody, ofWord?_label, readDeclaration]
    exact bind_eq_ok.mpr ⟨_, read_write he rfl (by decide) rest, rfl⟩
  | @assign name sign op e hname hs he =>
    have hshl : sign = .shl → stream? name = none := by rintro rfl; cases hs
    have hexit : ¬(name = "std::exit".toList ∧ sign = .lparen) := by rintro ⟨-, rfl⟩; cases hs
    simp only [write, assignmentSign_eq hs, List.cons_append, readBody]
    rw [readAfterName_of_no_stream hshl, if_neg hname, if_neg hexit, hs]
    exact bind_eq_ok.mpr ⟨_, read_write he rfl (by decide) rest, rfl⟩
  | @print stream es hne hes =>
    have hread := readPrint_items stream hes rest
    obtain ⟨t, ht⟩ : ∃ t, Item.writeAll (es.map Item.ofExpr) ++ .sym .semi :: rest =
        .sym .shl :: t := by
      obtain ⟨e, es, rfl⟩ := List.exists_cons_of_ne_nil hne
      exact ⟨_, rfl⟩
    rw [ht] at hread
    simp only [write, List.cons_append, ht, readBody]
    rwa [readAfterName_stream (stream?_name stream)]
  | @throw type e he =>
    have hread := read_write he (s := .rparen) rfl (by decide) (.sym .semi :: rest)
    have hthrow : VarType.ofWord? "throw".toList = none := by decide
    simp only [write, List.cons_append, List.append_assoc, List.nil_append, readBody, hthrow]
    exact bind_eq_ok.mpr ⟨_, rfl, bind_eq_ok.mpr ⟨_, rfl, bind_eq_ok.mpr ⟨_, hread, rfl⟩⟩⟩
  | @exit e he =>
    have hread := read_write he (s := .rparen) rfl (by decide) (.sym .semi :: rest)
    simp only [write, List.cons_append, List.append_assoc, List.nil_append, readBody]
    rw [readAfterName_of_no_stream (by decide), if_neg (by decide), if_pos ⟨rfl, rfl⟩]
    exact bind_eq_ok.mpr ⟨_, hread, rfl⟩
  | @expr e he =>
    have hread := Expr.Reads.operand (Nat.le_refl 6) (he.restored.reads_paren (.sym .semi :: rest))
    have hexpr := Expr.read_eq_ok.mpr
      (hread.descend (Nat.zero_le 6) (Nat.le_refl 6) (Expr.ends_sym rfl (by decide) 0 rest))
    simp only [write, List.cons_append, readBody]
    exact bind_eq_ok.mpr ⟨_, hexpr, rfl⟩

/-- A statement does not begin with a semicolon. -/
theorem exists_write_eq_cons (s : Statement) :
    ∃ x t, s.write = x :: t ∧ x ≠ .sym .semi := by
  cases s with
  | declare type name init => cases init <;> exact ⟨_, _, rfl, by simp⟩
  | _ => exact ⟨_, _, rfl, by simp⟩

/-- Statements as the parser returns them are read back from what is written for them. -/
theorem readAll_writeAll_of_readable {ss : List Statement} (h : ∀ s ∈ ss, s.Readable) :
    readAll (writeAll ss) = .ok ss := by
  induction ss with
  | nil => rfl
  | cons s ss ih =>
    obtain ⟨hs, hss⟩ := List.forall_mem_cons.mp h
    have hread : read (s.write ++ .sym .semi :: writeAll ss) = .ok (s, writeAll ss) :=
      bind_eq_ok.mpr ⟨_, hs.readBody_write _, bind_eq_ok.mpr ⟨_, expect_eq_ok.mpr rfl, rfl⟩⟩
    obtain ⟨x, t, hwrite, hx⟩ := s.exists_write_eq_cons
    have hall : writeAll (s :: ss) = s.write ++ .sym .semi :: writeAll ss := by
      simp [writeAll]
    rw [hwrite, List.cons_append] at hread hall
    rw [hall, readAll_cons, if_neg hx, hread]
    exact bind_eq_ok.mpr ⟨_, rfl, bind_eq_ok.mpr ⟨_, ih hss, rfl⟩⟩

/-- What a block is read as is read again from all the tokens that are written for it: an operator
binds more tightly than another exactly if its level is higher, operators of one level combine from
the left, and every kind of statement is told from the others. -/
theorem readAll_writeAll_of_readAll {t : List Token} {ss : List Statement}
    (h : readAll t = .ok ss) : readAll (writeAll ss) = .ok ss :=
  readAll_writeAll_of_readable (readable_of_readAll h)

/-- Of two pairs of parentheses the one around the left operand is not needed. -/
theorem readAll_writeAll_of_readAll_difference :
    readAll [.name ['x'], .sym .plusEq, .sym .lparen, .int 1, .sym .minus, .int 2, .sym .rparen,
        .sym .minus, .sym .lparen, .int 3, .sym .minus, .int 4, .sym .rparen, .sym .semi] =
      .ok [.assign ['x'] (some .add)
        (.binary .sub (.binary .sub (.int 1) (.int 2)) (.binary .sub (.int 3) (.int 4)))] ∧
    writeAll [.assign ['x'] (some .add)
        (.binary .sub (.binary .sub (.int 1) (.int 2)) (.binary .sub (.int 3) (.int 4)))] =
      [.name ['x'], .sym .plusEq, .int 1, .sym .minus, .int 2, .sym .minus, .sym .lparen, .int 3,
        .sym .minus, .int 4, .sym .rparen, .sym .semi] ∧
    readAll (writeAll [.assign ['x'] (some .add)
        (.binary .sub (.binary .sub (.int 1) (.int 2)) (.binary .sub (.int 3) (.int 4)))]) =
      .ok [.assign ['x'] (some .add)
        (.binary .sub (.binary .sub (.int 1) (.int 2)) (.binary .sub (.int 3) (.int 4)))] :=
  have h : readAll [.name ['x'], .sym .plusEq, .sym .lparen, .int 1, .sym .minus, .int 2,
        .sym .rparen, .sym .minus, .sym .lparen, .int 3, .sym .minus, .int 4, .sym .rparen,
        .sym .semi] = .ok _ := rfl
  ⟨h, rfl, readAll_writeAll_of_readAll h⟩

end Write

end Statement

end Literate
