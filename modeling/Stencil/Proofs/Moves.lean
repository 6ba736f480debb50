import Stencil.Proofs.Leaves

/-! What a token does to a tree in the making. It adds a leaf, opens a block, moves the innermost
block on to its next part or ends it, or it changes nothing. A block ends as one statement that holds
what stood in its parts, but for a case: what stands before its first when is put ahead of it. -/

namespace Stencil

open Markup (Span Token)

namespace Stmt

/-- the statements right inside a statement, in order: those of its branches or of its body, then
those of the else -/
def inner : Stmt → List Stmt
  | choice branches otherwise _ => branches.flatMap Branch.body ++ otherwise
  | loop _ _ body otherwise _ => body ++ otherwise
  | _ => []

theorem inner_of_isLeaf {s : Stmt} (h : s.isLeaf = true) : s.inner = [] := by
  cases s <;> first | rfl | cases h

theorem partsBranches_eq (bs : List Branch) :
    partsBranches bs = partsAll (bs.flatMap Branch.body) := by
  induction bs with
  | nil => rfl
  | cons b bs ih =>
    obtain ⟨condition, negated, body⟩ := b
    rw [partsBranches, ih, List.flatMap_cons, partsAll_append]
    rfl

theorem parts_eq (s : Stmt) : s.parts = s :: partsAll s.inner := by
  cases s with
  | choice branches otherwise span => rw [parts, partsBranches_eq, inner, partsAll_append]
  | loop target items body otherwise span => rw [parts, inner, partsAll_append]
  | _ => rfl

end Stmt

namespace Part

/-- the statements that a block puts ahead of its own -/
def before : Part → List Stmt
  | arm before _ _ _ _ | caseElse before _ => before
  | _ => []

/-- where the statement of a block starts, if the block makes one -/
def start? : Part → Option Span
  | branch start _ _ _ | branchElse start _ | loop start _ _ | loopElse start _ _ _ => some start
  | arm _ _ start _ _ => some start
  | caseElse _ choice => choice.map (·.1)
  | lead _ => none

def done : Part → List Stmt
  | branch _ done _ _ | branchElse _ done | arm _ _ _ done _ | caseElse _ (some (_, done)) =>
    done.reverse.flatMap Branch.body
  | loopElse _ _ _ body => body
  | _ => []

/-- Does a tag at a span open a block with this part and body? A case begins with the assignment of
its variable. -/
structure Opens (span : Span) (part : Part) (body : List Stmt) : Prop where
  before : part.before = []
  done : part.done = []
  start : part.start? = some span ∧ body = [] ∨
    part.start? = none ∧ ∃ s, body = [s] ∧ s.isLeaf = true ∧ s.span = span

end Part

namespace Frame

variable {f : Frame} {span start : Span} {part : Part}

def statements (f : Frame) : List Stmt := f.part.before ++ f.part.done ++ f.body.reverse

theorem statements_of_none (h : f.part.start? = none) :
    f.statements = f.part.before ++ f.body.reverse := by
  obtain ⟨p, body⟩ := f
  have hd : p.done = [] := by
    cases p with
    | caseElse before choice =>
      cases choice with
      | none => rfl
      | some c => cases h
    | lead => rfl
    | _ => cases h
  rw [statements, hd, List.append_nil]

theorem statements_push (f : Frame) (ss : List Stmt) :
    { f with body := ss.reverse ++ f.body }.statements = f.statements ++ ss := by
  simp [statements]

theorem finish_of_none (h : f.part.start? = none) (last : Span) : f.finish last = f.statements := by
  rw [statements_of_none h]
  obtain ⟨p, body⟩ := f
  cases p with
  | caseElse before choice =>
    cases choice with
    | none => rfl
    | some c => cases h
  | lead => rfl
  | _ => cases h

/-- The statement of a block reaches up to the last token and holds what stood in the block. -/
theorem finish_of_some (h : f.part.start? = some start) (last : Span) :
    ∃ s, f.finish last = f.part.before ++ [s] ∧ s.isLeaf = false ∧ s.span = start.upTo last ∧
      s.inner = f.part.done ++ f.body.reverse := by
  obtain ⟨p, body⟩ := f
  cases p with
  | caseElse before choice =>
    cases choice with
    | none => cases h
    | some c =>
      cases h
      exact ⟨_, rfl, rfl, rfl, rfl⟩
  | lead => cases h
  | _ =>
    cases h
    exact ⟨_, rfl, rfl, rfl, by simp [Part.done, Stmt.inner, Branch.body]⟩

/-- What a tag at a span moves a block on to: the next part of the same statement, or, from what
stands ahead in a case, a part that may start the statement there. -/
inductive Turns (f : Frame) (span : Span) (part : Part) : Prop
  | next {start : Span} (begun : f.part.start? = some start) (same : part.start? = some start)
      (before : part.before = f.part.before) (done : part.done = f.part.done ++ f.body.reverse)
  | ahead (unbegun : f.part.start? = none) (here : ∀ start ∈ part.start?, start = span)
      (before : part.before = f.statements) (done : part.done = [])

theorem turns_of_turn? {tag : Tag} (h : f.turn? tag span = some part) : f.Turns span part := by
  obtain ⟨p, body⟩ := f
  cases p with
  | lead subject =>
    cases tag <;> cases h
    · exact .ahead rfl (by simp [Part.start?]) rfl rfl
    · exact .ahead rfl (by simp [Part.start?]) rfl rfl
  | _ =>
    cases tag <;> cases h <;>
    exact .next rfl rfl rfl (by simp [Part.done, Branch.body])

theorem statements_turn (h : f.Turns span part) :
    (Frame.mk part []).statements = f.statements := by
  cases h with
  | next hs _ hb hd => simp [statements, hb, hd]
  | ahead hn _ hb hd => simp [statements, hb, hd]

end Frame

namespace Builder

/-- the tree in the making: the statements outside all blocks, and the blocks that are open -/
def made (b : Builder) : List Stmt × List Frame := (b.root, b.frames)

/-- What a step at a span may make. -/
inductive Moves (b : Builder) (span : Span) : List Stmt × List Frame → Prop
  | stay : Moves b span b.made
  | leaf {s : Stmt} (leaf : s.isLeaf = true) (at_ : s.span = span) : Moves b span (b.push [s]).made
  | enter {part : Part} {body : List Stmt} (room : b.frames.length < maxNesting)
      (opens : part.Opens span body) : Moves b span (b.root, ⟨part, body⟩ :: b.frames)
  | turn {f : Frame} {fs : List Frame} {part : Part} (frames : b.frames = f :: fs)
      (turns : f.Turns span part) : Moves b span (b.root, ⟨part, []⟩ :: fs)
  | leave {f : Frame} {fs : List Frame} (frames : b.frames = f :: fs) :
      Moves b span ({ b with frames := fs }.push (f.finish span)).made

variable {b : Builder} {span : Span}

theorem moves_openTag (tag : Tag) : b.Moves span (b.openTag tag span).made := by
  unfold openTag
  split
  · exact .stay
  · rename_i hr
    have hr : b.frames.length < maxNesting := Nat.lt_of_not_le hr
    cases tag with
    | ifOpen | unlessOpen | loopOpen => exact .enter hr ⟨rfl, rfl, .inl ⟨rfl, rfl⟩⟩
    | caseOpen subject => exact .enter hr ⟨rfl, rfl, .inr ⟨rfl, _, rfl, rfl, rfl⟩⟩
    | _ => exact .stay

theorem moves_plainTag (tag : Tag) (raw : List Char) :
    b.Moves span (b.plainTag tag raw span).made := by
  cases tag with
  | raw | when | endCase | inclusion | assign => exact .leaf rfl rfl
  | elsif | otherwise | close | malformed => exact .stay
  | ifOpen | unlessOpen | loopOpen | caseOpen => exact moves_openTag _

theorem moves_leave (hl : b.last = span) : b.Moves span b.leave.made := by
  unfold leave
  cases hf : b.frames with
  | nil => exact .stay
  | cons f fs =>
    subst hl
    exact .leave hf

theorem moves_tag (hl : b.last = span) (tag : Tag) (raw : List Char) :
    b.Moves span (b.tag tag raw span).made := by
  have hp : b.Moves span (b.plainTag tag raw span).made := moves_plainTag tag raw
  unfold Builder.tag
  cases hf : b.frames with
  | nil => exact hp
  | cons f fs =>
    -- the innermost block may take the tag as its own; if not, it is as outside of blocks
    simp only
    cases ht : f.turn? tag span with
    | some part => exact .turn hf (f.turns_of_turn? ht)
    | none =>
      simp only
      split
      · exact moves_leave hl
      · exact hp

theorem made_skip (b : Builder) (t : Token) : (b.skip t).made = b.made := by
  cases t with
  | tag body raw =>
    unfold skip
    repeat' split
    all_goals rfl
  | _ => rfl

/-- Whatever the token, its step is one of these. -/
theorem moves_step (b : Builder) (t : Token × Span) :
    Moves { b with last := t.2 } t.2 (b.step t).made := by
  obtain ⟨token, span⟩ := t
  simp only [step]
  by_cases hs : (b.skipping != 0) = true
  · rw [if_pos hs, made_skip]
    exact .stay
  · rw [if_neg hs]
    cases token with
    | text s => exact .leaf rfl rfl
    | output body => exact .leaf rfl rfl
    | tag body raw => exact moves_tag rfl _ _

end Builder

end Stencil
