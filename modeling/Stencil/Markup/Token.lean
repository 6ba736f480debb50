import Stencil.Markup.Block
import Stencil.Markup.Position

/-! Tokens: a source is a row of texts, outputs and tags. Comments leave none, and neither do blanks
that a dash has trimmed. -/

namespace Stencil.Markup

open Text (isBlank trimStart trimEnd)

inductive Token where
  | text (s : List Char)
  | output (body : List Char)
  | tag (body raw : List Char)
  deriving DecidableEq, Repr

namespace Token

def ofBlock (b : Block) : Token :=
  match b.kind with
  | .output => output b.body
  | .tag => tag b.body b.raw

/-- The end of the comment that a block opens: the text it hides and the tag that closes it. -/
def commentEnd? (b : Block) : Option (List Char × Block) :=
  if b.isTag "comment" then Block.findTag? "endcomment" b.behind else none

/-- the token of the text before a block, unless nothing is left of it -/
def leading (p : Position) (before : List Char) (b : Block) : List (Token × Span) :=
  let s := if b.trimsBefore then trimEnd before else before
  if s.isEmpty then [] else [(text s, ⟨p, p.after before⟩)]

/-- the tokens of the rest of a source; `trims` says that a dash stood right before it -/
def scanFrom (p : Position) (trims : Bool) (source : List Char) : List (Token × Span) :=
  let cs := if trims then trimStart source else source
  let p := if trims then p.after (source.takeWhile isBlank) else p
  match _hf : Block.find? cs with
  | none => if cs.isEmpty then [] else [(text cs, ⟨p, p.after cs⟩)]
  | some (before, b) =>
    let q := p.after before
    leading p before b ++
      match _hc : commentEnd? b with
      | some (hidden, close) =>
        scanFrom (q.after (b.raw ++ hidden ++ close.raw)) close.trimsBehind close.behind
      | none =>
        (ofBlock b, ⟨q, q.after b.raw⟩) :: scanFrom (q.after b.raw) b.trimsBehind b.behind
termination_by source.length
decreasing_by
  all_goals
    have hs : cs.length ≤ source.length := by
      show (if trims then trimStart source else source).length ≤ source.length
      split
      · exact Text.length_trimStart_le source
      · exact Nat.le_refl _
    have hl := congrArg List.length (Block.append_of_find? _hf)
    have hr := b.length_raw_pos
    simp only [List.length_append] at hl
  · have he : Block.findTag? "endcomment" b.behind = some (hidden, close) := by
      rw [commentEnd?] at _hc
      split at _hc
      · exact _hc
      · simp at _hc
    have hc := congrArg List.length (Block.append_of_findTag? he)
    simp only [List.length_append] at hc
    omega
  · omega

def scan (source : List Char) : List (Token × Span) := scanFrom .start false source

end Token

end Stencil.Markup
