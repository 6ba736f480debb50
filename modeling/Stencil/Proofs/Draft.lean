import Stencil.Proofs.Tree

/-! Every source has a tree. A draft is to trees what a builder is to statements, and lowering takes
each step of the one to the same step of the other: so the statements of a template are its tree
lowered, for sources of any shape. -/

namespace Stencil

open Markup (Span Token)

/-- What an open block is in the middle of, with the arms that are complete, latest first. -/
inductive Draft.Part where
  | branch (start : Span) (negated : Bool) (done : List Arm) (condition : List Char)
  | branchElse (start : Span) (negated : Bool) (done : List Arm)
  | loop (start : Span) (target items : List Char)
  | loopElse (start : Span) (target items : List Char) (body : List Node)
  | lead (opening : Span) (subject : List Char)
  | arm (opening : Span) (subject : List Char) (lead : List Node) (start : Span)
    (done : List Arm) (values : List Char)
  | caseElse (opening : Span) (subject : List Char) (lead : List Node) (start : Span)
    (done : List Arm)

/-- An open block: its part and the nodes of the part, latest first. -/
structure Draft.Frame where
  part : Draft.Part
  body : List Node

/-- A tree in the making, like the state of building statements. -/
structure Draft where
  root : List Node
  frames : List Draft.Frame
  skipping : Nat
  last : Span

namespace Draft

namespace Frame

def finish (f : Frame) (last : Span) : Node :=
  match f.part with
  | .branch start negated done condition =>
    .choice negated (.mk condition f.body.reverse :: done).reverse none (start.upTo last)
  | .branchElse start negated done =>
    .choice negated done.reverse (some f.body.reverse) (start.upTo last)
  | .loop start target items => .loop target items f.body.reverse none (start.upTo last)
  | .loopElse start target items body =>
    .loop target items body (some f.body.reverse) (start.upTo last)
  | .lead opening subject => .select subject opening f.body.reverse [] none .none
  | .arm opening subject lead start done values =>
    .select subject opening lead (.mk values f.body.reverse :: done).reverse none
      (start.upTo last)
  | .caseElse opening subject lead start done =>
    .select subject opening lead done.reverse (some f.body.reverse) (start.upTo last)

def turn? (f : Frame) (tag : Tag) (span : Span) : Option Part :=
  match f.part, tag with
  | .branch start negated done condition, .elsif next =>
    some (.branch start negated (.mk condition f.body.reverse :: done) next)
  | .branch start negated done condition, .otherwise =>
    some (.branchElse start negated (.mk condition f.body.reverse :: done))
  | .loop start target items, .otherwise => some (.loopElse start target items f.body.reverse)
  | .lead opening subject, .when values =>
    some (.arm opening subject f.body.reverse span [] values)
  | .lead opening subject, .otherwise =>
    some (.caseElse opening subject f.body.reverse .none [])
  | .arm opening subject lead start done values, .when next =>
    some (.arm opening subject lead start (.mk values f.body.reverse :: done) next)
  | .arm opening subject lead start done values, .otherwise =>
    some (.caseElse opening subject lead start (.mk values f.body.reverse :: done))
  | _, _ => none

def endsAt (f : Frame) (tag : Tag) : Bool :=
  match f.part, tag with
  | .lead .., .endCase | .arm .., .endCase | .caseElse .., .endCase => true
  | .branch .., .close | .branchElse .., .close | .loop .., .close | .loopElse .., .close => true
  | _, _ => false

end Frame

def empty : Draft := ⟨[], [], 0, .none⟩

def push (d : Draft) (n : Node) : Draft :=
  match d.frames with
  | [] => { d with root := n :: d.root }
  | f :: fs => { d with frames := { f with body := n :: f.body } :: fs }

def enter (d : Draft) (part : Part) : Draft := { d with frames := ⟨part, []⟩ :: d.frames }

def leave (d : Draft) : Draft :=
  match d.frames with
  | [] => d
  | f :: fs => { d with frames := fs }.push (f.finish d.last)

def openTag (d : Draft) (tag : Tag) (span : Span) : Draft :=
  if maxNesting ≤ d.frames.length then { d with skipping := 1 }
  else match tag with
  | .ifOpen c => d.enter (.branch span false [] c)
  | .unlessOpen c => d.enter (.branch span true [] c)
  | .loopOpen target items => d.enter (.loop span target items)
  | .caseOpen subject => d.enter (.lead span subject)
  | _ => d

def plainTag (d : Draft) (tag : Tag) (body raw : List Char) (span : Span) : Draft :=
  match tag with
  | .raw | .when _ | .endCase => d.push (.rawTag body raw span)
  | .inclusion args => d.push (.inclusion args span)
  | .assign target value => d.push (.assign target value span)
  | .elsif _ | .otherwise | .close | .malformed => d
  | _ => d.openTag tag span

def tag (d : Draft) (tag : Tag) (body raw : List Char) (span : Span) : Draft :=
  match d.frames with
  | [] => d.plainTag tag body raw span
  | f :: fs =>
    match f.turn? tag span with
    | some part => { d with frames := ⟨part, []⟩ :: fs }
    | none => if f.endsAt tag then d.leave else d.plainTag tag body raw span

def skip (d : Draft) : Token → Draft
  | .tag body _ =>
    if (Tag.read body).opens then { d with skipping := d.skipping + 1 }
    else if (Tag.read body).closes then { d with skipping := d.skipping - 1 }
    else d
  | _ => d

def step (d : Draft) (t : Token × Span) : Draft :=
  let d := { d with last := t.2 }
  if d.skipping != 0 then d.skip t.1
  else match t.1 with
  | .text s => d.push (.text s t.2)
  | .output body => d.push (.output body t.2)
  | .tag body raw => d.tag (.read body) body raw t.2

def leaveAll (d : Draft) : Draft := d.frames.foldl (fun d _ => d.leave) d

end Draft

def Template.tree (source : List Char) : List Node :=
  ((Token.scan source).foldl Draft.step .empty).leaveAll.root.reverse

namespace Draft

open Node (countAll countArms countElse lowerAll lowerArms lowerElse lowerAll_append lowerArms_append)
open Builder (caseVariable)

namespace Part

/-- the cases of a block up to its current part, itself included -/
def count : Part → Nat
  | branch _ _ done _ | branchElse _ _ done => countArms done.reverse
  | loop .. => 0
  | loopElse _ _ _ body => countAll body
  | lead .. => 1
  | arm _ _ before _ done _ | caseElse _ _ before _ done =>
    1 + countAll before + countArms done.reverse

def assignment (c : Nat) (subject : List Char) (opening : Span) : Stmt :=
  .assign (caseVariable (c + 1)) (.read subject) opening

def whens (c : Nat) (before : List Node) (done : List Arm) : List Branch :=
  (lowerArms (whenCondition (caseVariable (c + 1))) false (c + 1 + countAll before)
    done.reverse).reverse

def lower (c : Nat) : Part → Stencil.Part
  | branch start negated done condition =>
    .branch start (lowerArms .read negated c done.reverse).reverse (.read condition)
      (negated && done.isEmpty)
  | branchElse start negated done =>
    .branchElse start (lowerArms .read negated c done.reverse).reverse
  | loop start target items => .loop start (.ofList target) (.read items)
  | loopElse start target items body =>
    .loopElse start (.ofList target) (.read items) (lowerAll c body)
  | lead _ _ => .lead (caseVariable (c + 1))
  | arm opening subject before start done values =>
    .arm (assignment c subject opening :: lowerAll (c + 1) before) (caseVariable (c + 1)) start
      (whens c before done) (whenCondition (caseVariable (c + 1)) values)
  | caseElse opening subject before start done =>
    .caseElse (assignment c subject opening :: lowerAll (c + 1) before)
      (if done.isEmpty then none else some (start, whens c before done))

/-- the statements at the start of a part that its nodes do not make -/
def front (c : Nat) : Part → List Stmt
  | lead opening subject => [assignment c subject opening]
  | _ => []

end Part

namespace Frame

def count (f : Frame) : Nat := f.part.count + countAll f.body.reverse

def lower (c : Nat) (f : Frame) : Stencil.Frame :=
  ⟨f.part.lower c, (f.part.front c ++ lowerAll (c + f.part.count) f.body.reverse).reverse⟩

theorem lower_finish (c : Nat) (f : Frame) (last : Span) :
    (f.lower c).finish last = (f.finish last).lower c := by
  obtain ⟨part, body⟩ := f
  cases part with
  | caseElse opening subject before start done =>
    cases done <;>
      simp [lower, finish, Stencil.Frame.finish, Part.lower, Part.front, Part.count, Node.lower,
        lowerElse, Part.whens, Part.assignment, Nat.add_assoc]
  | _ =>
    simp [lower, finish, Stencil.Frame.finish, Part.lower, Part.front, Part.count, Node.lower,
      lowerArms_append, lowerArms, lowerElse, Part.whens, Part.assignment, Nat.add_assoc]

theorem count_finish (f : Frame) (last : Span) : (f.finish last).count = f.count := by
  obtain ⟨part, body⟩ := f
  cases part <;>
    simp [finish, count, Part.count, Node.count, countArms, countElse, Nat.add_assoc]

theorem lower_turn? (c : Nat) (f : Frame) (tag : Tag) (span : Span) :
    (f.lower c).turn? tag span = (f.turn? tag span).map (·.lower c) := by
  obtain ⟨part, body⟩ := f
  cases part <;> cases tag <;>
    simp [lower, turn?, Stencil.Frame.turn?, Part.lower, Part.front, Part.count, Part.whens,
      lowerArms_append, lowerArms, Nat.add_assoc]

theorem of_turn? {f : Frame} {tag : Tag} {span : Span} {part : Part}
    (h : f.turn? tag span = some part) : part.count = f.count ∧ ∀ c, part.front c = [] := by
  obtain ⟨p, body⟩ := f
  cases p <;> cases tag <;> simp only [turn?, reduceCtorEq, Option.some.injEq] at h <;> subst h <;>
    simp [count, Part.count, Part.front, countArms, Nat.add_assoc]

theorem endsAt_lower (c : Nat) (f : Frame) (tag : Tag) :
    (f.lower c).endsAt tag = f.endsAt tag := by
  obtain ⟨part, body⟩ := f
  cases part <;> cases tag <;> rfl

end Frame

def countOpen (root : List Node) : List Frame → Nat
  | [] => countAll root.reverse
  | f :: fs => countOpen root fs + f.count

def lowerFrames (root : List Node) : List Frame → List Stencil.Frame
  | [] => []
  | f :: fs => f.lower (countOpen root fs) :: lowerFrames root fs

/-- the state of building statements that a draft stands for -/
def lower (d : Draft) : Builder :=
  ⟨(lowerAll 0 d.root.reverse).reverse, lowerFrames d.root d.frames, d.skipping,
    countOpen d.root d.frames, d.last⟩

theorem length_lowerFrames (root : List Node) (fs : List Frame) :
    (lowerFrames root fs).length = fs.length := by
  induction fs with
  | nil => rfl
  | cons f fs ih => simp [lowerFrames, ih]

theorem lower_push (d : Draft) (n : Node) :
    (d.push n).lower =
      { d.lower.push (n.lower d.lower.cases) with cases := d.lower.cases + n.count } := by
  obtain ⟨root, frames, skipping, last⟩ := d
  cases frames with
  | nil =>
    simp [push, lower, Builder.push, lowerFrames, countOpen, lowerAll_append, lowerAll, countAll]
  | cons f fs =>
    simp [push, lower, Builder.push, lowerFrames, countOpen, Frame.count, Frame.lower,
      lowerAll_append, lowerAll, countAll, Nat.add_assoc]

theorem lower_push_of_count {d : Draft} {n : Node} (h : n.count = 0) :
    (d.push n).lower = d.lower.push (n.lower d.lower.cases) := by
  rw [lower_push, h]
  simp only [Builder.push]
  split <;> rfl

theorem lower_leave (d : Draft) : d.leave.lower = d.lower.leave := by
  obtain ⟨root, frames, skipping, last⟩ := d
  cases frames with
  | nil => rfl
  | cons f fs =>
    -- the counter does not move: it stands behind the cases of the block already
    rw [leave, lower_push, Frame.count_finish]
    simp only [lower, lowerFrames, Builder.leave, Frame.lower_finish, countOpen]
    cases lowerFrames root fs <;> rfl

theorem lower_openTag (d : Draft) (tag : Tag) (span : Span) :
    (d.openTag tag span).lower = d.lower.openTag tag span := by
  have hl : d.lower.frames.length = d.frames.length := length_lowerFrames _ _
  unfold openTag Builder.openTag
  rw [hl]
  split
  · rfl
  · cases tag <;> rfl

theorem lower_plainTag (d : Draft) (tag : Tag) (body raw : List Char) (span : Span) :
    (d.plainTag tag body raw span).lower = d.lower.plainTag tag raw span := by
  cases tag <;> first | rfl | exact lower_openTag _ _ _ | exact lower_push_of_count rfl

theorem lower_tag (d : Draft) (tag : Tag) (body raw : List Char) (span : Span) :
    (d.tag tag body raw span).lower = d.lower.tag tag raw span := by
  have hp := lower_plainTag d tag body raw span
  have hv := lower_leave d
  obtain ⟨root, frames, skipping, last⟩ := d
  cases frames with
  | nil => exact hp
  | cons f fs =>
    simp only [Draft.tag, Builder.tag, lower, lowerFrames, Frame.lower_turn?, Frame.endsAt_lower]
    cases ht : f.turn? tag span with
    | some part =>
      obtain ⟨hc, hf⟩ := Frame.of_turn? ht
      simp [lowerFrames, countOpen, Frame.lower, Frame.count, hc, hf, lowerAll, countAll]
    | none =>
      simp only [Option.map_none]
      split
      · exact hv
      · exact hp

theorem lower_skip (d : Draft) (t : Token) : (d.skip t).lower = d.lower.skip t := by
  cases t with
  | tag body raw =>
    simp only [skip, Builder.skip]
    split
    · rfl
    · split <;> rfl
  | _ => rfl

theorem lower_step (d : Draft) (t : Token × Span) : (d.step t).lower = d.lower.step t := by
  obtain ⟨token, span⟩ := t
  have hs (e : Draft) : e.lower.skipping = e.skipping := rfl
  simp only [step, Builder.step, hs]
  split
  · exact lower_skip _ _
  · cases token with
    | text s => exact lower_push_of_count (by simp [Node.count])
    | output body => exact lower_push_of_count (by simp [Node.count])
    | tag body raw => exact lower_tag _ _ _ _ _

theorem lower_foldl_step (ts : List (Token × Span)) (d : Draft) :
    (ts.foldl step d).lower = ts.foldl Builder.step d.lower := by
  induction ts generalizing d with
  | nil => rfl
  | cons t ts ih => rw [List.foldl_cons, List.foldl_cons, ih, lower_step]

theorem lower_leaveAll (d : Draft) : d.leaveAll.lower = d.lower.leaveAll := by
  have h (fs : List Frame) (gs : List Stencil.Frame) (hl : fs.length = gs.length) (e : Draft) :
      (fs.foldl (fun e _ => e.leave) e).lower = gs.foldl (fun b _ => b.leave) e.lower := by
    induction fs generalizing gs e with
    | nil => cases gs with
      | nil => rfl
      | cons g gs => simp at hl
    | cons f fs ih => cases gs with
      | nil => simp at hl
      | cons g gs =>
        rw [List.foldl_cons, List.foldl_cons, ih gs (by simpa using hl), lower_leave]
  exact h _ _ (length_lowerFrames _ _).symm d

end Draft

theorem Template.children_ofTokens (tokens : List (Token × Span)) :
    (ofTokens tokens).children =
      Node.lowerAll 0 (tokens.foldl Draft.step .empty).leaveAll.root.reverse := by
  have h := congrArg Builder.root (Draft.lower_leaveAll (tokens.foldl Draft.step .empty))
  rw [Draft.lower_foldl_step] at h
  rw [ofTokens, ← List.reverse_reverse (Node.lowerAll _ _)]
  exact congrArg List.reverse h.symm

/-- The statements of a template are its tree lowered. -/
theorem Template.children_read (source : List Char) :
    (Template.read source).children = Node.lowerAll 0 (Template.tree source) :=
  children_ofTokens (Token.scan source)

end Stencil
