/-! Places in a source text. -/

namespace Stencil.Markup

/-- A place between two characters: its line, counted from 1, the characters before it on the line,
and the bytes before it in the source. A line ends with a line feed. -/
structure Position where
  line : Nat
  column : Nat
  offset : Nat
  deriving DecidableEq, Repr

namespace Position

def start : Position := ⟨1, 0, 0⟩

def next (p : Position) (c : Char) : Position :=
  if c == '\n' then ⟨p.line + 1, 0, p.offset + c.utf8Size⟩
  else ⟨p.line, p.column + 1, p.offset + c.utf8Size⟩

def after (p : Position) (cs : List Char) : Position := cs.foldl next p

theorem after_append (p : Position) (as bs : List Char) :
    p.after (as ++ bs) = (p.after as).after bs := by
  simp [after, List.foldl_append]

end Position

/-- A stretch of source. The span from nowhere to nowhere stands for none at all. -/
structure Span where
  first : Position
  last : Position
  deriving DecidableEq, Repr

namespace Span

def none : Span := ⟨⟨0, 0, 0⟩, ⟨0, 0, 0⟩⟩

instance : Inhabited Span := ⟨none⟩

def upTo (a b : Span) : Span := ⟨a.first, b.last⟩

end Span

end Stencil.Markup
