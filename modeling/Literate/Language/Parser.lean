import Literate.Language.Statement

/-!
# Reading statements

Statements are read from the tokens of a block by descent through the levels of the binary
operators. What a statement is shows in its first two tokens. Expressions nest no deeper than
their tokens allow, which bounds the descent.
-/

namespace Literate

/-- What was expected where reading stopped. -/
inductive ParseError
  | identifier
  | expression
  | closingParen
  | exceptionParen
  | commaOrParen
  | semicolon
  /-- A variable whose type is to be read off its first value has none. -/
  | autoWithoutValue (name : Text)
  deriving DecidableEq, Repr

def ParseError.message : ParseError → Text
  | identifier => "error: expected identifier".toList
  | expression => "error: expected expression".toList
  | closingParen => "error: expected ')'".toList
  | exceptionParen => "error: expected '(' after exception type".toList
  | commaOrParen => "error: expected ',' or ')' in argument list".toList
  | semicolon => "error: expected ';' after statement".toList
  | autoWithoutValue name =>
    "error: declaration of variable '".toList ++ name ++
      "' with deduced type 'auto' requires an initializer".toList

/-- Takes one symbol off the front. -/
def expect (s : Symbol) (otherwise : ParseError) : List Token → Except ParseError (List Token)
  | .sym t :: rest => if t = s then .ok rest else .error otherwise
  | _ => .error otherwise

/-- Takes a name off the front. -/
def expectName : List Token → Except ParseError (Text × List Token)
  | .name name :: rest => .ok (name, rest)
  | _ => .error .identifier

namespace Expr

/-- The expression that a name alone stands for. -/
def ofName (name : Text) : Expr :=
  if name = "true".toList then .bool true
  else if name = "false".toList then .bool false
  else .var name

/-- Whether a name may be called. The two truth values may not. -/
def isCallable (name : Text) : Bool :=
  name ≠ "true".toList && name ≠ "false".toList

/-- The operator of the given level that the tokens begin with, and the tokens after it. -/
def operator? (level : Nat) : List Token → Option (BinaryOp × List Token)
  | .sym s :: rest =>
    match BinaryOp.ofSymbol? s with
    | some op => if op.level = level then some (op, rest) else none
    | none => none
  | _ => none

mutual

/-- An expression whose binary operators outside parentheses have at least the given level. -/
def readLevel : Nat → Nat → List Token → Except ParseError (Expr × List Token)
  | 0, _, _ => .error .expression
  | depth + 1, level, tokens =>
    if 6 ≤ level then readUnary depth tokens
    else do
      let (left, rest) ← readLevel depth (level + 1) tokens
      readChain depth level left rest

/-- Further operands of one level, each combined with all before it. -/
def readChain : Nat → Nat → Expr → List Token → Except ParseError (Expr × List Token)
  | 0, _, _, _ => .error .expression
  | depth + 1, level, left, tokens =>
    match operator? level tokens with
    | none => .ok (left, tokens)
    | some (op, rest) => do
      let (right, rest) ← readLevel depth (level + 1) rest
      readChain depth level (.binary op left right) rest

/-- An operand with the operators before it. A plus sign has no effect. -/
def readUnary : Nat → List Token → Except ParseError (Expr × List Token)
  | 0, _ => .error .expression
  | depth + 1, tokens =>
    match tokens with
    | .sym .minus :: rest => do
      let (e, rest) ← readUnary depth rest
      .ok (.unary .neg e, rest)
    | .sym .bang :: rest => do
      let (e, rest) ← readUnary depth rest
      .ok (.unary .not e, rest)
    | .sym .plus :: rest => readUnary depth rest
    | tokens => readPrimary depth tokens

/-- A literal, a name, a call, or an expression in parentheses. -/
def readPrimary : Nat → List Token → Except ParseError (Expr × List Token)
  | 0, _ => .error .expression
  | depth + 1, tokens =>
    match tokens with
    | .int n :: rest => .ok (.int n, rest)
    | .double x :: rest => .ok (.double x, rest)
    | .str s :: rest => .ok (.str s, rest)
    | .name name :: .sym .lparen :: rest =>
      if isCallable name then
        match rest with
        | .sym .rparen :: rest => .ok (.call name [], rest)
        | rest => do
          let (arguments, rest) ← readArguments depth rest
          .ok (.call name arguments, rest)
      else .ok (ofName name, .sym .lparen :: rest)
    | .name name :: rest => .ok (ofName name, rest)
    | .sym .lparen :: rest => do
      let (e, rest) ← readLevel depth 0 rest
      let rest ← expect .rparen .closingParen rest
      .ok (e, rest)
    | _ => .error .expression

/-- One or more arguments up to the closing parenthesis. -/
def readArguments : Nat → List Token → Except ParseError (List Expr × List Token)
  | 0, _ => .error .expression
  | depth + 1, tokens => do
    let (first, rest) ← readLevel depth 0 tokens
    match rest with
    | .sym .rparen :: rest => .ok ([first], rest)
    | rest => do
      let rest ← expect .comma .commaOrParen rest
      let (others, rest) ← readArguments depth rest
      .ok (first :: others, rest)

end

/-- A bound on how deep the reading of some tokens descends. -/
def depthOf (tokens : List Token) : Nat :=
  10 * (tokens.length + 1)

/-- Reads an expression. -/
def read (tokens : List Token) : Except ParseError (Expr × List Token) :=
  readLevel (depthOf tokens) 0 tokens

/-- Reads an expression without comparisons and logical operators outside parentheses. -/
def readSum (tokens : List Token) : Except ParseError (Expr × List Token) :=
  readLevel (depthOf tokens) 4 tokens

end Expr

namespace Item

/-- The operand of a print statement that an expression stands for. -/
def ofExpr : Expr → Item
  | .var name =>
    if name = "std::endl".toList then endl
    else if name = "std::boolalpha".toList then boolalpha true
    else if name = "std::noboolalpha".toList then boolalpha false
    else value (.var name)
  | .call name [e] =>
    if name = "std::setprecision".toList then precision e else value (.call name [e])
  | e => value e

/-- The operands of a print statement, each after a shift sign. -/
def readAll : Nat → List Token → Except ParseError (List Item × List Token)
  | count + 1, .sym .shl :: rest => do
    let (e, rest) ← Expr.readSum rest
    let (items, rest) ← readAll count rest
    .ok (ofExpr e :: items, rest)
  | _, tokens => .ok ([], tokens)

end Item

namespace Statement

/-- The operator of an assignment sign. The plain sign has none. -/
def assignment? : Symbol → Option (Option BinaryOp)
  | .eq => some none
  | .plusEq => some (some .add)
  | .minusEq => some (some .sub)
  | .starEq => some (some .mul)
  | .slashEq => some (some .div)
  | _ => none

/-- The rest of a declaration after the variable's name. -/
def readDeclaration (type : VarType) (name : Text) :
    List Token → Except ParseError (Statement × List Token)
  | .sym .eq :: rest => do
    let (e, rest) ← Expr.read rest
    .ok (declare type name (some e), rest)
  | .sym .lparen :: rest => do
    let (e, rest) ← Expr.read rest
    let rest ← expect .rparen .closingParen rest
    .ok (declare type name (some e), rest)
  | rest =>
    if type = .auto then .error (.autoWithoutValue name) else .ok (declare type name none, rest)

/-- The rest of a print statement after the stream's name. -/
def readPrint (stream : Stream) (tokens : List Token) :
    Except ParseError (Statement × List Token) := do
  let (items, rest) ← Item.readAll tokens.length tokens
  .ok (print stream items, rest)

/-- The rest of a throw statement after its keyword. -/
def readThrow (tokens : List Token) : Except ParseError (Statement × List Token) := do
  let (type, rest) ← expectName tokens
  let rest ← expect .lparen .exceptionParen rest
  let (message, rest) ← Expr.read rest
  let rest ← expect .rparen .closingParen rest
  .ok (throw type message, rest)

/-- The rest of an exit statement after its opening parenthesis. -/
def readExit (tokens : List Token) : Except ParseError (Statement × List Token) := do
  let (code, rest) ← Expr.read tokens
  let rest ← expect .rparen .closingParen rest
  .ok (exit code, rest)

/-- The rest of an assignment after its sign. -/
def readAssignment (name : Text) (op : Option BinaryOp) (tokens : List Token) :
    Except ParseError (Statement × List Token) := do
  let (e, rest) ← Expr.read tokens
  .ok (assign name op e, rest)

/-- An expression as a statement. -/
def readExpr (tokens : List Token) : Except ParseError (Statement × List Token) := do
  let (e, rest) ← Expr.read tokens
  .ok (expr e, rest)

/-- The stream that a name stands for before a shift sign. -/
def stream? (name : Text) : Option Stream :=
  if name = "std::cout".toList then some .out
  else if name = "std::cerr".toList then some .err
  else none

/-- A statement that begins with a name and a symbol. -/
def readAfterName (name : Text) (s : Symbol) (rest : List Token) :
    Except ParseError (Statement × List Token) :=
  match s, stream? name, assignment? s with
  | .shl, some stream, _ => readPrint stream (.sym s :: rest)
  | _, _, assignment =>
    if name = "throw".toList then readThrow (.sym s :: rest)
    else if name = "std::exit".toList ∧ s = .lparen then readExit rest
    else match assignment with
      | some op => readAssignment name op rest
      | none => readExpr (.name name :: .sym s :: rest)

/-- A statement without the semicolon after it. -/
def readBody : List Token → Except ParseError (Statement × List Token)
  | .name word :: .name name :: rest =>
    match VarType.ofWord? word with
    | some type => readDeclaration type name rest
    | none =>
      if word = "throw".toList then readThrow (.name name :: rest)
      else readExpr (.name word :: .name name :: rest)
  | .name name :: .sym s :: rest => readAfterName name s rest
  | .name name :: rest =>
    if name = "throw".toList then readThrow rest else readExpr (.name name :: rest)
  | tokens => readExpr tokens

/-- A statement and the semicolon after it. -/
def read (tokens : List Token) : Except ParseError (Statement × List Token) := do
  let (s, rest) ← readBody tokens
  let rest ← expect .semi .semicolon rest
  .ok (s, rest)

/-- Statements up to the end, of which there are at most as many as tokens. Semicolons between
them are skipped. -/
def readUpTo : Nat → List Token → Except ParseError (List Statement)
  | _, [] => .ok []
  | 0, _ => .error .expression
  | count + 1, .sym .semi :: rest => readUpTo count rest
  | count + 1, tokens => do
    let (s, rest) ← read tokens
    let others ← readUpTo count rest
    .ok (s :: others)

/-- The statements of a block. -/
def readAll (tokens : List Token) : Except ParseError (List Statement) :=
  readUpTo tokens.length tokens

end Statement

end Literate
