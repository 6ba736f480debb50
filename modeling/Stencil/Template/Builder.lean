import Stencil.Condition.Parser
import Stencil.Markup.Token
import Stencil.Template.Parameter
import Stencil.Template.Stmt
import Stencil.Template.Tag

/-! Building the tree of a template from its tokens. The builder keeps a stack of the blocks that are
open. Every row of tokens makes a tree: a tag that ends no open block is dropped, blocks that stay
open end with the source, and blocks nested too deep are passed over. -/

namespace Stencil

open Markup (Span Token)

def maxNesting : Nat := 150

/-- What an open block is in the middle of. The statements of the part itself are kept beside it. -/
inductive Part where
  /-- a branch of an if, after those that are complete, latest first -/
  | branch (start : Span) (done : List Branch) (condition : Condition) (negated : Bool)
  | branchElse (start : Span) (done : List Branch)
  | loop (start : Span) (target : String) (items : Expr)
  | loopElse (start : Span) (target : String) (items : Expr) (body : List Stmt)
  /-- a case before its first when; `subject` is the variable that holds what is compared -/
  | lead (subject : String)
  /-- a when, after the statements that go before the choice -/
  | arm (before : List Stmt) (subject : String) (start : Span) (done : List Branch)
    (condition : Condition)
  /-- the else of a case, with the choice it belongs to if there was a when -/
  | caseElse (before : List Stmt) (choice : Option (Span × List Branch))

/-- An open block: its part and the statements of the part, latest first. -/
structure Frame where
  part : Part
  body : List Stmt

/-- the condition that a variable equals one of the values of a when -/
def whenCondition (subject : String) (values : List Char) : Condition :=
  .oneOf (.var subject)
    (((Text.splitArguments values).flatMap (Text.splitKeyword "or".toList)).map Expr.read)

namespace Frame

/-- The statements that a block makes when it ends there, in order. Those of a case stand in the
place of the case. -/
def finish (f : Frame) (last : Span) : List Stmt :=
  match f.part with
  | .branch start done condition negated =>
    [.choice (.mk condition negated f.body.reverse :: done).reverse [] (start.upTo last)]
  | .branchElse start done => [.choice done.reverse f.body.reverse (start.upTo last)]
  | .loop start target items => [.loop target items f.body.reverse [] (start.upTo last)]
  | .loopElse start target items body =>
    [.loop target items body f.body.reverse (start.upTo last)]
  | .lead _ => f.body.reverse
  | .arm before _ start done condition =>
    before ++ [.choice (.mk condition false f.body.reverse :: done).reverse [] (start.upTo last)]
  | .caseElse before (some (start, done)) =>
    before ++ [.choice done.reverse f.body.reverse (start.upTo last)]
  | .caseElse before none => before ++ f.body.reverse

/-- the part that a tag moves a block on to, if it does -/
def turn? (f : Frame) (tag : Tag) (span : Span) : Option Part :=
  match f.part, tag with
  | .branch start done condition negated, .elsif next =>
    some (.branch start (.mk condition negated f.body.reverse :: done) (.read next) false)
  | .branch start done condition negated, .otherwise =>
    some (.branchElse start (.mk condition negated f.body.reverse :: done))
  | .loop start target items, .otherwise => some (.loopElse start target items f.body.reverse)
  | .lead subject, .when values =>
    some (.arm f.body.reverse subject span [] (whenCondition subject values))
  | .lead _, .otherwise => some (.caseElse f.body.reverse none)
  | .arm before subject start done condition, .when values =>
    some (.arm before subject start (.mk condition false f.body.reverse :: done)
      (whenCondition subject values))
  | .arm before _ start done condition, .otherwise =>
    some (.caseElse before (some (start, .mk condition false f.body.reverse :: done)))
  | _, _ => none

/-- A case ends at its own closing tag, the other blocks at any of theirs. -/
def endsAt (f : Frame) (tag : Tag) : Bool :=
  match f.part, tag with
  | .lead _, .endCase | .arm .., .endCase | .caseElse .., .endCase => true
  | .branch .., .close | .branchElse .., .close | .loop .., .close | .loopElse .., .close => true
  | _, _ => false

end Frame

/-- The state of building: the statements outside all blocks, latest first, the open blocks,
innermost first, how deep the builder is in a block that it passes over, how many cases there were,
and the span of the last token. -/
structure Builder where
  root : List Stmt
  frames : List Frame
  skipping : Nat
  cases : Nat
  last : Span

namespace Builder

def empty : Builder := ⟨[], [], 0, 0, .none⟩

def push (b : Builder) (stmts : List Stmt) : Builder :=
  match b.frames with
  | [] => { b with root := stmts.reverse ++ b.root }
  | f :: fs => { b with frames := { f with body := stmts.reverse ++ f.body } :: fs }

def enter (b : Builder) (part : Part) (body : List Stmt) : Builder :=
  { b with frames := ⟨part, body⟩ :: b.frames }

def leave (b : Builder) : Builder :=
  match b.frames with
  | [] => b
  | f :: fs => { b with frames := fs }.push (f.finish b.last)

/-- the variable that holds what the `n`th case of a template compares -/
def caseVariable (n : Nat) : String := "__case_" ++ .ofList (Nat.toDigits 10 n)

/-- A tag that opens a block. Beyond the nesting limit the block is passed over. -/
def openTag (b : Builder) (tag : Tag) (span : Span) : Builder :=
  if maxNesting ≤ b.frames.length then { b with skipping := 1 }
  else match tag with
  | .ifOpen c => b.enter (.branch span [] (.read c) false) []
  | .unlessOpen c => b.enter (.branch span [] (.read c) true) []
  | .loopOpen target items => b.enter (.loop span (.ofList target) (.read items)) []
  | .caseOpen subject =>
    let name := caseVariable (b.cases + 1)
    { b with cases := b.cases + 1 }.enter (.lead name) [.assign name (.read subject) span]
  | _ => b

/-- A tag that no open block has a use for as one of its own. -/
def plainTag (b : Builder) (tag : Tag) (raw : List Char) (span : Span) : Builder :=
  match tag with
  | .raw | .when _ | .endCase => b.push [.rawTag (.ofList raw) span]
  | .inclusion args =>
    let (name, params) := Parameter.readInclude args
    b.push [.inclusion name params span]
  | .assign target value => b.push [.assign (.ofList target) (.read value) span]
  | .elsif _ | .otherwise | .close | .malformed => b
  | _ => b.openTag tag span

def tag (b : Builder) (tag : Tag) (raw : List Char) (span : Span) : Builder :=
  match b.frames with
  | [] => b.plainTag tag raw span
  | f :: fs =>
    match f.turn? tag span with
    | some part => { b with frames := ⟨part, []⟩ :: fs }
    | none => if f.endsAt tag then b.leave else b.plainTag tag raw span

/-- a token inside a block that is passed over: only openers and closers count -/
def skip (b : Builder) : Token → Builder
  | .tag body _ =>
    if (Tag.read body).opens then { b with skipping := b.skipping + 1 }
    else if (Tag.read body).closes then { b with skipping := b.skipping - 1 }
    else b
  | _ => b

def step (b : Builder) (t : Token × Span) : Builder :=
  let b := { b with last := t.2 }
  if b.skipping != 0 then b.skip t.1
  else match t.1 with
  | .text s => b.push [.text (.ofList s) t.2]
  | .output body => b.push [.output (.read body) t.2]
  | .tag body raw => b.tag (.read body) raw t.2

/-- ends all blocks that are open, from the inside out -/
def leaveAll (b : Builder) : Builder := b.frames.foldl (fun b _ => b.leave) b

end Builder

namespace Template

/-- The template of a row of tokens. Its span goes from the first token to the last. -/
def ofTokens (tokens : List (Token × Span)) : Template :=
  let b := (tokens.foldl Builder.step .empty).leaveAll
  let start := (tokens.head?.map (·.2)).getD .none
  ⟨b.root.reverse, start.upTo b.last⟩

def read (source : List Char) : Template := .ofTokens (Token.scan source)

/-- Parsing never fails. -/
def parse (source : String) : Template := read source.toList

end Template

end Stencil
