import Literate.Number.Decimal

/-!
# Styles of a terminal

Text is styled by control sequences around it. Where a text ends a style of its own, the style
around it is taken up again.
-/

namespace Literate

/-- Control codes of a style, in the order they are written. None leave a text plain. -/
structure Style where
  codes : List Nat
  deriving DecidableEq, Repr

namespace Style

def plain : Style := ⟨[]⟩

def red : Style := ⟨[31]⟩

def green : Style := ⟨[32]⟩

def yellow : Style := ⟨[33]⟩

def cyan : Style := ⟨[36]⟩

def boldRed : Style := ⟨[1, 31]⟩

def boldYellow : Style := ⟨[1, 33]⟩

def dimmed : Style := ⟨[2]⟩

def underlined : Style := ⟨[4]⟩

/-- The control sequence that begins a style. -/
def opening (s : Style) : Text :=
  "\x1b[".toList ++ List.intercalate [';'] (s.codes.map Decimal.ofNat) ++ ['m']

/-- The control sequence that ends every style. -/
def reset : Text := ['\x1b', '[', '0', 'm']

/-- Takes a style up again after each end of one in a text. -/
def resume (s : Style) : Text → Text
  | '\x1b' :: '[' :: '0' :: 'm' :: rest => reset ++ s.opening ++ resume s rest
  | c :: rest => c :: resume s rest
  | [] => []

/-- A text in a style, if colours are on. -/
def paint (s : Style) (colours : Bool) (t : Text) : Text :=
  if colours ∧ s.codes ≠ [] then s.opening ++ s.resume t ++ reset else t

/-- Whether an environment asks for colours. They are off unless they are asked for, and one
variable keeps them off. -/
def wanted (env : Text → Option Text) : Bool :=
  (env "NO_COLOR".toList).isNone && (env "FORCE_COLOR".toList).isSome

end Style

end Literate
