import TestReach.Text.Pieces

/-!
# Styled text

Pieces of text, some of them in a style. What a text in a style is printed as is up to a *painter*.
One painter prints every text as it is. The other is for terminals: a style is switched on by an
escape sequence with its codes and off by another, and a text that switches styles off itself gets
its style again after each time it does.
-/

namespace TestReach

/-- What a text can look like. -/
inductive Look where
  | bold
  | dimmed
  | red
  | green
  | yellow
  | blue
  | cyan
  deriving DecidableEq, Repr

/-- What a text looks like, all together. -/
structure Style where
  looks : List Look
  deriving DecidableEq, Repr

namespace Style

def bold : Style := ⟨[.bold]⟩
def dimmed : Style := ⟨[.dimmed]⟩
def red : Style := ⟨[.red]⟩
def green : Style := ⟨[.green]⟩
def yellow : Style := ⟨[.yellow]⟩
def blue : Style := ⟨[.blue]⟩
def cyan : Style := ⟨[.cyan]⟩

/-- Both styles; the looks of the first come first. -/
def both (a b : Style) : Style := ⟨a.looks ++ b.looks⟩

end Style

/-! ## Painters -/

/-- What a text in a style is printed as. -/
abbrev Painter := Style → String → String

/-- The code of a look on terminals. -/
def Look.code : Look → Nat
  | .bold => 1
  | .dimmed => 2
  | .red => 31
  | .green => 32
  | .yellow => 33
  | .blue => 34
  | .cyan => 36

namespace Style

/-- What switches a style on. -/
def on (s : Style) : String :=
  "\x1b[" ++ Text.joinWith ";" (s.looks.map fun look => toString look.code) ++ "m"

/-- What switches styles off. -/
def off : String :=
  "\x1b[0m"

/-- A text with what switches its style on and off. -/
def apply (s : Style) (text : String) : String :=
  s.on ++ Text.replace text off (off ++ s.on) ++ off

end Style

namespace Painter

/-- Without styles. -/
def unstyled : Painter :=
  fun _ text => text

/-- For terminals. -/
def terminal : Painter :=
  Style.apply

/-- The painter for output with or without colors. -/
def ofColor (color : Bool) : Painter :=
  if color then terminal else unstyled

end Painter

/-! ## Pieces -/

/-- A piece of text, in a style or without one. -/
inductive Piece where
  | plain (text : String)
  | styled (style : Style) (text : String)
  deriving DecidableEq, Repr

/-- A piece in a style. -/
def Style.piece (style : Style) (text : String) : Piece :=
  .styled style text

namespace Piece

/-- What a piece is printed as. A text without a style does not go through the painter. -/
def printed (paint : Painter) : Piece → String
  | .plain text => text
  | .styled style text => paint style text

/-- What pieces in a row are printed as. -/
def render (paint : Painter) (pieces : List Piece) : String :=
  String.join (pieces.map (printed paint))

end Piece

end TestReach
