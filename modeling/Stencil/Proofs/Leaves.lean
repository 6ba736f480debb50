import Mathlib.Data.List.Forall2
import Stencil.Proofs.Parts

/-! What parsing keeps. Every token with content makes one leaf of the tree, in the order of the
source, however blocks are opened, closed or left open around it; tags that only control are all
that is dropped. -/

namespace Stencil

open Markup (Span Token)
open Builder (caseVariable)

namespace Stmt

def isLeaf : Stmt → Bool
  | choice .. | loop .. => false
  | _ => true

/-- the leaves of statements in order: those of each branch or body, then those of the else -/
def leaves (ss : List Stmt) : List Stmt := (partsAll ss).filter isLeaf

def leavesBranches (bs : List Branch) : List Stmt := (partsBranches bs).filter isLeaf

@[simp] theorem leaves_nil : leaves [] = [] := rfl

@[simp] theorem leaves_append (as bs : List Stmt) : leaves (as ++ bs) = leaves as ++ leaves bs := by
  rw [leaves, partsAll_append, List.filter_append]
  rfl

@[simp] theorem leavesBranches_nil : leavesBranches [] = [] := rfl

@[simp] theorem leavesBranches_append (as bs : List Branch) :
    leavesBranches (as ++ bs) = leavesBranches as ++ leavesBranches bs := by
  have h : partsBranches (as ++ bs) = partsBranches as ++ partsBranches bs := by
    induction as with
    | nil => rfl
    | cons a as ih => cases a; simp [partsBranches, ih]
  rw [leavesBranches, h, List.filter_append]
  rfl

@[simp] theorem leavesBranches_mk (condition : Condition) (negated : Bool) (body : List Stmt) :
    leavesBranches [.mk condition negated body] = leaves body := by
  simp [leavesBranches, partsBranches, leaves]

@[simp] theorem leaves_choice (branches : List Branch) (otherwise : List Stmt) (span : Span) :
    leaves [.choice branches otherwise span] = leavesBranches branches ++ leaves otherwise := by
  simp [leaves, partsAll, parts, isLeaf, leavesBranches]

@[simp] theorem leaves_loop (target : String) (items : Expr) (body otherwise : List Stmt)
    (span : Span) :
    leaves [.loop target items body otherwise span] = leaves body ++ leaves otherwise := by
  simp [leaves, partsAll, parts, isLeaf]

end Stmt

open Stmt (leaves leavesBranches)

def Part.leaves : Part → List Stmt
  | branch _ done _ _ | branchElse _ done => leavesBranches done.reverse
  | loop .. | lead _ => []
  | loopElse _ _ _ body => Stmt.leaves body
  | arm before _ _ done _ | caseElse before (some (_, done)) =>
    Stmt.leaves before ++ leavesBranches done.reverse
  | caseElse before none => Stmt.leaves before

namespace Frame

def leaves (f : Frame) : List Stmt := f.part.leaves ++ Stmt.leaves f.body.reverse

theorem leaves_finish (f : Frame) (last : Span) : Stmt.leaves (f.finish last) = f.leaves := by
  obtain ⟨part, body⟩ := f
  cases part with
  | caseElse before choice =>
    rcases choice with _ | ⟨start, done⟩ <;> simp [finish, leaves, Part.leaves]
  | _ => simp [finish, leaves, Part.leaves]

theorem leaves_turn? {f : Frame} {tag : Tag} {span : Span} {part : Part}
    (h : f.turn? tag span = some part) : (Frame.mk part []).leaves = f.leaves := by
  obtain ⟨p, body⟩ := f
  cases p <;> cases tag <;> simp only [turn?, reduceCtorEq, Option.some.injEq] at h <;> subst h <;>
    simp [leaves, Part.leaves]

end Frame

namespace Builder

/-- the leaves of a tree in the making, in order: its blocks are open at the end of it -/
def leaves (b : Builder) : List Stmt :=
  Stmt.leaves b.root.reverse ++ b.frames.reverse.flatMap Frame.leaves

theorem leaves_push (b : Builder) (ss : List Stmt) : (b.push ss).leaves = b.leaves ++ Stmt.leaves ss := by
  obtain ⟨root, frames, skipping, cases, last⟩ := b
  cases frames <;> simp [push, leaves, Frame.leaves]

theorem leaves_enter (b : Builder) (part : Part) (body : List Stmt) :
    (b.enter part body).leaves = b.leaves ++ (Frame.mk part body).leaves := by
  simp [enter, leaves]

theorem leaves_leave (b : Builder) : b.leave.leaves = b.leaves := by
  obtain ⟨root, frames, skipping, cases, last⟩ := b
  cases frames with
  | nil => rfl
  | cons f fs =>
    rw [leave, leaves_push, Frame.leaves_finish]
    simp [leaves]

theorem leaveAll_induction {P : Builder → Prop} (h : ∀ c : Builder, P c → P c.leave) {b : Builder}
    (hb : P b) : P b.leaveAll := by
  have hf (fs : List Frame) (c : Builder) (hc : P c) : P (fs.foldl (fun c _ => c.leave) c) := by
    induction fs generalizing c with
    | nil => exact hc
    | cons f fs ih => exact ih c.leave (h c hc)
  exact hf b.frames b hb

theorem leaves_leaveAll (b : Builder) : b.leaveAll.leaves = b.leaves :=
  leaveAll_induction (P := fun c => c.leaves = b.leaves) (fun c hc => (leaves_leave c).trans hc) rfl

theorem frames_leaveAll (b : Builder) : b.leaveAll.frames = [] := by
  have hl (c : Builder) : c.leave.frames.length = c.frames.length - 1 := by
    obtain ⟨root, frames, skipping, cases, last⟩ := c
    cases frames with
    | nil => rfl
    | cons f fs => cases fs <;> rfl
  have h (fs : List Frame) (c : Builder) :
      (fs.foldl (fun c _ => c.leave) c).frames.length = c.frames.length - fs.length := by
    induction fs generalizing c with
    | nil => rfl
    | cons f fs ih => rw [List.foldl_cons, ih, hl, List.length_cons]; omega
  have := h b.frames b
  rw [Nat.sub_self] at this
  exact List.length_eq_zero_iff.1 this

end Builder

namespace Tag

/-- Does the tag make a leaf wherever it stands? -/
def lasts : Tag → Bool
  | raw | inclusion _ | assign .. | caseOpen _ => true
  | _ => false

/-- Is the tag one that belongs to a case, and makes a leaf where it stands in none? -/
def strays : Tag → Bool
  | when _ | endCase => true
  | _ => false

/-- The leaf of a tag that stands at a span. A case leaves the assignment of its variable. -/
inductive Leaf (text : List Char) (span : Span) : Tag → Stmt → Prop
  | raw : Leaf text span raw (.rawTag (.ofList text) span)
  | when (values : List Char) : Leaf text span (when values) (.rawTag (.ofList text) span)
  | endCase : Leaf text span endCase (.rawTag (.ofList text) span)
  | inclusion (args : List Char) : Leaf text span (inclusion args)
      (.inclusion (Parameter.readInclude args).1 (Parameter.readInclude args).2 span)
  | assign (target value : List Char) :
      Leaf text span (assign target value) (.assign (.ofList target) (.read value) span)
  | caseOpen (subject : List Char) (n : Nat) :
      Leaf text span (caseOpen subject) (.assign (caseVariable n) (.read subject) span)

theorem Leaf.lasts_or_strays {text : List Char} {span : Span} {tag : Tag} {s : Stmt}
    (h : Leaf text span tag s) : tag.lasts = true ∨ tag.strays = true := by
  cases h with
  | when | endCase => exact .inr rfl
  | _ => exact .inl rfl

/-- What a tag adds to the leaves: its own, or nothing if it is not one that lasts. -/
inductive Adds (text : List Char) (span : Span) (tag : Tag) : List Stmt → Prop
  | leaf {s : Stmt} : Leaf text span tag s → Adds text span tag [s]
  | nothing : tag.lasts = false → Adds text span tag []

end Tag

namespace Builder

open Tag (Adds)

/-- a step that adds to the leaves what a tag adds, and does not begin to pass over a block -/
structure Gains (b : Builder) (tag : Tag) (raw : List Char) (span : Span) (b' : Builder) : Prop where
  added : ∃ ss, Adds raw span tag ss ∧ b'.leaves = b.leaves ++ ss
  skipping : b'.skipping = b.skipping

variable {b b' : Builder} {tag : Tag} {raw : List Char} {span : Span}

theorem skipping_push (b : Builder) (ss : List Stmt) : (b.push ss).skipping = b.skipping := by
  obtain ⟨root, frames, skipping, cases, last⟩ := b
  cases frames <;> rfl

theorem Gains.push {s : Stmt} (h : Tag.Leaf raw span tag s) (hs : Stmt.leaves [s] = [s]) :
    b.Gains tag raw span (b.push [s]) :=
  ⟨⟨[s], .leaf h, by rw [leaves_push, hs]⟩, skipping_push b [s]⟩

theorem Gains.drop (h : tag.lasts = false) (hl : b'.leaves = b.leaves)
    (hs : b'.skipping = b.skipping) : b.Gains tag raw span b' :=
  ⟨⟨[], .nothing h, by rw [hl, List.append_nil]⟩, hs⟩

theorem gains_openTag (ho : tag.opens = true) (hd : b.frames.length < maxNesting) :
    b.Gains tag raw span (b.openTag tag span) := by
  have hn : ¬ maxNesting ≤ b.frames.length := Nat.not_le.2 hd
  cases tag with
  | ifOpen | unlessOpen | loopOpen =>
    simp only [openTag, hn, if_false]
    exact .drop rfl (by simp [leaves_enter, Frame.leaves, Part.leaves]) rfl
  | caseOpen subject =>
    simp only [openTag, hn, if_false]
    exact ⟨⟨_, .leaf (.caseOpen subject (b.cases + 1)), leaves_enter _ _ _⟩, rfl⟩
  | _ => simp [Tag.opens] at ho

theorem gains_plainTag (hd : tag.opens = true → b.frames.length < maxNesting) :
    b.Gains tag raw span (b.plainTag tag raw span) := by
  cases tag with
  | raw => exact .push .raw rfl
  | when values => exact .push (.when values) rfl
  | endCase => exact .push .endCase rfl
  | inclusion args => exact .push (.inclusion args) rfl
  | assign target value => exact .push (.assign target value) rfl
  | elsif | otherwise | close | malformed => exact .drop rfl rfl rfl
  | ifOpen | unlessOpen | loopOpen | caseOpen => exact gains_openTag rfl (hd rfl)

theorem lasts_of_controls {f : Frame} (span : Span)
    (h : (f.turn? tag span).isSome = true ∨ f.endsAt tag = true) : tag.lasts = false := by
  obtain ⟨part, body⟩ := f
  cases part <;> cases tag <;> first | rfl | simp [Frame.turn?, Frame.endsAt] at h

/-- Whatever block is open, a tag adds its leaf, unless it controls that block. -/
theorem gains_tag (hd : tag.opens = true → b.frames.length < maxNesting) :
    b.Gains tag raw span (b.tag tag raw span) := by
  have hp : b.Gains tag raw span (b.plainTag tag raw span) := gains_plainTag hd
  obtain ⟨root, frames, skipping, cases, last⟩ := b
  cases frames with
  | nil => exact hp
  | cons f fs =>
    -- the innermost block may take the tag as its own; if not, it is as outside of blocks
    simp only [Builder.tag]
    cases ht : f.turn? tag span with
    | some part =>
      have hl : tag.lasts = false := lasts_of_controls span (.inl (by rw [ht]; rfl))
      exact .drop hl (by simp [leaves, Frame.leaves_turn? ht]) rfl
    | none =>
      simp only
      split
      · rename_i he
        have hl : tag.lasts = false := lasts_of_controls span (.inr he)
        exact .drop hl (leaves_leave _) (skipping_push _ _)
      · exact hp

end Builder

namespace Markup.Token

def lasts : Token → Bool
  | text _ | output _ => true
  | tag body _ => (Tag.read body).lasts

def strays : Token → Bool
  | tag body _ => (Tag.read body).strays
  | _ => false

def opens : Token → Bool
  | tag body _ => (Tag.read body).opens
  | _ => false

inductive Leaf : Token × Span → Stmt → Prop
  | text (s : List Char) (span : Span) : Leaf (text s, span) (.text (.ofList s) span)
  | output (body : List Char) (span : Span) : Leaf (output body, span) (.output (.read body) span)
  | tag {body raw : List Char} {span : Span} {s : Stmt} :
      Tag.Leaf raw span (.read body) s → Leaf (tag body raw, span) s

/-- Leaves that are kept of a row of tokens: a token that lasts is not dropped. -/
inductive Keeps : List (Token × Span) → List Stmt → Prop
  | nil : Keeps [] []
  | keep {t : Token × Span} {s : Stmt} {ts : List (Token × Span)} {ss : List Stmt} :
      Leaf t s → Keeps ts ss → Keeps (t :: ts) (s :: ss)
  | drop {t : Token × Span} {ts : List (Token × Span)} {ss : List Stmt} :
      t.1.lasts = false → Keeps ts ss → Keeps (t :: ts) ss

theorem Leaf.lasts_or_strays {t : Token × Span} {s : Stmt} (h : Leaf t s) :
    t.1.lasts = true ∨ t.1.strays = true := by
  cases h with
  | text | output => exact .inl rfl
  | tag h => exact h.lasts_or_strays

theorem Keeps.append {as bs : List (Token × Span)} {xs ys : List Stmt} (h : Keeps as xs)
    (h' : Keeps bs ys) : Keeps (as ++ bs) (xs ++ ys) := by
  induction h with
  | nil => exact h'
  | keep hl _ ih => exact .keep hl ih
  | drop hd _ ih => exact .drop hd ih

/-- The tokens whose leaves are kept: all that last, and of the others some that belong to a case. -/
theorem Keeps.exists_sublist {ts : List (Token × Span)} {ss : List Stmt} (h : Keeps ts ss) :
    ∃ kept, kept.Sublist ts ∧ kept.filter (·.1.lasts) = ts.filter (·.1.lasts) ∧
      (∀ t ∈ kept, t.1.lasts = true ∨ t.1.strays = true) ∧ List.Forall₂ Leaf kept ss := by
  induction h with
  | nil => exact ⟨[], .slnil, rfl, by simp, .nil⟩
  | @keep t s ts ss hl _ ih =>
    obtain ⟨kept, hs, hf, hk, ha⟩ := ih
    refine ⟨t :: kept, hs.cons_cons t, ?_, ?_, .cons hl ha⟩
    · rw [List.filter_cons, List.filter_cons, hf]
    · intro u hu
      rcases List.mem_cons.1 hu with rfl | hu
      · exact hl.lasts_or_strays
      · exact hk u hu
  | @drop t ts ss hd _ ih =>
    obtain ⟨kept, hs, hf, hk, ha⟩ := ih
    refine ⟨kept, hs.cons t, ?_, hk, ha⟩
    rw [List.filter_cons, hd, hf]
    rfl

end Markup.Token

open Markup.Token (Leaf Keeps)

namespace Builder

/-- No token opens a block while as many are open as may be. -/
def Fits (b : Builder) : List (Token × Span) → Prop
  | [] => True
  | t :: ts => (t.1.opens = true → b.frames.length < maxNesting) ∧ (b.step t).Fits ts

instance decidableFits (b : Builder) : (ts : List (Token × Span)) → Decidable (b.Fits ts)
  | [] => isTrue trivial
  | t :: ts =>
    have := (b.step t).decidableFits ts
    inferInstanceAs (Decidable (_ ∧ _))

theorem leaves_step {b : Builder} (hs : b.skipping = 0) {t : Token × Span}
    (hd : t.1.opens = true → b.frames.length < maxNesting) :
    (b.step t).skipping = 0 ∧ ∃ ss, Keeps [t] ss ∧ (b.step t).leaves = b.leaves ++ ss := by
  obtain ⟨token, span⟩ := t
  have hn : (b.skipping != 0) = false := by simp [hs]
  cases token with
  | text s =>
    simp only [step, hn, Bool.false_eq_true, if_false]
    exact ⟨(skipping_push _ _).trans hs, _, .keep (.text s span) .nil, leaves_push _ _⟩
  | output body =>
    simp only [step, hn, Bool.false_eq_true, if_false]
    exact ⟨(skipping_push _ _).trans hs, _, .keep (.output body span) .nil, leaves_push _ _⟩
  | tag body raw =>
    simp only [step, hn, Bool.false_eq_true, if_false]
    have hg : Gains { b with last := span } (Tag.read body) raw span _ := gains_tag hd
    obtain ⟨ss, ha, hl⟩ := hg.added
    refine ⟨hg.skipping.trans hs, ss, ?_, hl⟩
    cases ha with
    | leaf h => exact .keep (.tag h) .nil
    | nothing h => exact .drop h .nil

theorem leaves_foldl_step (ts : List (Token × Span)) :
    ∀ b : Builder, b.skipping = 0 → b.Fits ts →
      ∃ ss, Keeps ts ss ∧ (ts.foldl step b).leaves = b.leaves ++ ss := by
  induction ts with
  | nil => exact fun b _ _ => ⟨[], .nil, by simp⟩
  | cons t ts ih =>
    intro b hs hf
    obtain ⟨hs', ss, hk, hl⟩ := leaves_step hs hf.1
    obtain ⟨ss', hk', hl'⟩ := ih (b.step t) hs' hf.2
    exact ⟨ss ++ ss', hk.append hk', by rw [List.foldl_cons, hl', hl, List.append_assoc]⟩

end Builder

namespace Template

theorem keeps_ofTokens {ts : List (Token × Span)} (h : Builder.empty.Fits ts) :
    Keeps ts (Stmt.leaves (ofTokens ts).children) := by
  obtain ⟨ss, hk, hl⟩ := Builder.leaves_foldl_step ts .empty rfl h
  have he : Stmt.leaves (ofTokens ts).children = ss := by
    have hf := Builder.frames_leaveAll (ts.foldl Builder.step .empty)
    have ha := Builder.leaves_leaveAll (ts.foldl Builder.step .empty)
    rw [Builder.leaves, hf, hl] at ha
    simpa [ofTokens, Builder.leaves, Builder.empty] using ha
  rw [he]
  exact hk

/-- Of a source that nests no block too deep the tree keeps each text, output, raw tag, include and
assignment once and in order, each as a leaf with the span of its token. The other leaves are the
assignments of cases, of which all are kept, and tags of cases that stand in none. -/
theorem leaves_parse {source : String} (h : Builder.empty.Fits (Token.scan source.toList)) :
    ∃ kept : List (Token × Span), kept.Sublist (Token.scan source.toList) ∧
      kept.filter (·.1.lasts) = (Token.scan source.toList).filter (·.1.lasts) ∧
      (∀ t ∈ kept, t.1.lasts = true ∨ t.1.strays = true) ∧
      List.Forall₂ Leaf kept (Stmt.leaves (parse source).children) :=
  (keeps_ofTokens h).exists_sublist

/-- blocks that are closed by tags of others, turned twice or left open -/
theorem leaves_parse_malformed :
    let source :=
      "a{% if x %}{% when 1 %}{% else %}{{ c }}{% else %}{% for i in x %}{% endcase %}b{% endif %}"
    Builder.empty.Fits (Token.scan source.toList) ∧
      ∃ kept : List (Token × Span), kept.Sublist (Token.scan source.toList) ∧
        kept.filter (·.1.lasts) = (Token.scan source.toList).filter (·.1.lasts) ∧
        (∀ t ∈ kept, t.1.lasts = true ∨ t.1.strays = true) ∧
        List.Forall₂ Leaf kept (Stmt.leaves (parse source).children) := by
  intro source
  have h : Builder.empty.Fits (Token.scan source.toList) := by decide +kernel
  exact ⟨h, leaves_parse h⟩

end Template

end Stencil
