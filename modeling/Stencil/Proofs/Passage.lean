import Stencil.Proofs.Steps
import Stencil.Proofs.Written

/-! Sources that pass through. If all blocks of a source are tags that mean nothing here, and none
trims the text next to it, the source renders to itself. -/

namespace Stencil

open Calendar (Instant)
open Markup (Block Span Token)

/-- Does the tag mean nothing outside of blocks? The tags of a case are among these. -/
def Tag.isForeign : Tag → Bool
  | raw | when _ | endCase => true
  | _ => false

namespace Markup

namespace Block

/-- The blocks of a source from the left, each behind the one before it. Inside a block, or where
nothing closes it, an opening mark opens none. -/
def row (cs : List Char) : List Block :=
  match _h : find? cs with
  | none => []
  | some (_, b) => b :: row b.behind
termination_by cs.length
decreasing_by exact length_behind_of_find? _h

theorem row_of_find? {cs before : List Char} {b : Block} (h : find? cs = some (before, b)) :
    row cs = b :: row b.behind := by
  rw [row]
  split
  · rename_i hn
    rw [h] at hn
    cases hn
  · rename_i hs
    rw [h] at hs
    cases hs
    rfl

/-- A tag that means nothing: it has no dash inside its marks and hides no text as a comment. A tag
that opens a comment which nothing closes is one of these. -/
structure Foreign (b : Block) : Prop where
  tag : b.kind = .tag
  before : b.trimsBefore = false
  behind : b.trimsBehind = false
  uncommented : Token.commentEnd? b = none
  foreign : (Tag.read b.body).isForeign = true

instance (b : Block) : Decidable b.Foreign :=
  decidable_of_iff (b.kind = .tag ∧ b.trimsBefore = false ∧ b.trimsBehind = false ∧
      (Token.commentEnd? b).isNone = true ∧ (Tag.read b.body).isForeign = true)
    ⟨fun h => ⟨h.1, h.2.1, h.2.2.1, Option.isNone_iff_eq_none.1 h.2.2.2.1, h.2.2.2.2⟩,
      fun h => ⟨h.tag, h.before, h.behind, Option.isNone_iff_eq_none.2 h.uncommented, h.foreign⟩⟩

end Block

namespace Token

def Foreign : Token → Prop
  | text _ => True
  | output _ => False
  | tag body _ => (Tag.read body).isForeign = true

def verbatim : Token × Span → Stmt
  | (text s, span) => .text (.ofList s) span
  | (t, span) => .rawTag (.ofList t.source) span

theorem source_ofBlock {b : Block} (h : b.Foreign) : (ofBlock b).source = b.raw := by
  rw [ofBlock, h.tag]
  rfl

theorem foreign_ofBlock {b : Block} (h : b.Foreign) : (ofBlock b).Foreign := by
  rw [ofBlock, h.tag]
  exact h.foreign

theorem flatMap_leading {b : Block} (h : b.trimsBefore = false) (p : Position)
    (before : List Char) :
    (leading p before b).flatMap (·.1.source) = before ∧ ∀ t ∈ leading p before b, t.1.Foreign := by
  rw [leading, h]
  simp only [Bool.false_eq_true, if_false]
  split
  · rename_i he
    simp [List.isEmpty_iff.1 he]
  · simp [source, Foreign]

/-- The tokens of a source of foreign blocks hold all of it. -/
theorem flatMap_scanFrom {cs : List Char} (h : ∀ b ∈ Block.row cs, b.Foreign) (p : Position) :
    (scanFrom p false cs).flatMap (·.1.source) = cs ∧ ∀ t ∈ scanFrom p false cs, t.1.Foreign := by
  induction hn : cs.length using Nat.strongRecOn generalizing cs p with
  | ind n ih =>
    subst hn
    rcases hf : Block.find? cs with _ | ⟨before, b⟩
    · by_cases he : cs = []
      · subst he
        rw [scanFrom]
        simp [Block.find?]
      · rw [scanFrom_of_none hf he]
        simp [source, Foreign]
    · rw [Block.row_of_find? hf, List.forall_mem_cons] at h
      obtain ⟨hb, hr⟩ := h
      obtain ⟨hl, hlf⟩ := flatMap_leading hb.before p before
      obtain ⟨hs, hsf⟩ :=
        ih b.behind.length (Block.length_behind_of_find? hf) hr ((p.after before).after b.raw) rfl
      rw [scanFrom_of_some hf, hb.uncommented, hb.behind]
      dsimp only
      constructor
      · rw [List.flatMap_append, List.flatMap_cons, hl, hs, source_ofBlock hb,
          ← List.append_assoc, ← Block.append_of_find? hf]
      · intro t ht
        rcases List.mem_append.1 ht with ht | ht
        · exact hlf t ht
        rcases List.mem_cons.1 ht with rfl | ht
        · exact foreign_ofBlock hb
        · exact hsf t ht

end Token

end Markup

open Markup.Token (verbatim)

namespace Builder

variable {b : Builder}

theorem step_foreign (hf : b.frames = []) (hs : b.skipping = 0) {t : Token × Span}
    (ht : t.1.Foreign) : b.step t = { b with root := verbatim t :: b.root, last := t.2 } := by
  obtain ⟨root, frames, skipping, cases, last⟩ := b
  obtain ⟨token, span⟩ := t
  cases hf
  cases hs
  cases token with
  | text s => rfl
  | output body => cases ht
  | tag body raw =>
    rw [Markup.Token.Foreign] at ht
    simp only [step, bne_self_eq_false, Bool.false_eq_true, if_false, Builder.tag]
    cases hr : Tag.read body with
    | raw | when | endCase => rfl
    | _ => rw [hr] at ht; cases ht

theorem foldl_step_foreign (ts : List (Token × Span)) (h : ∀ t ∈ ts, t.1.Foreign) :
    ∀ b : Builder, b.frames = [] → b.skipping = 0 →
      (ts.foldl step b).root = (ts.map verbatim).reverse ++ b.root ∧
        (ts.foldl step b).frames = [] := by
  induction ts with
  | nil => exact fun b hf _ => ⟨rfl, hf⟩
  | cons t ts ih =>
    rw [List.forall_mem_cons] at h
    intro b hf hs
    rw [List.foldl_cons, step_foreign hf hs h.1]
    obtain ⟨hr, hf'⟩ := ih h.2 { b with root := verbatim t :: b.root, last := t.2 } hf hs
    exact ⟨by rw [hr]; simp, hf'⟩

end Builder

theorem Template.children_of_foreign {ts : List (Token × Span)} (h : ∀ t ∈ ts, t.1.Foreign) :
    (ofTokens ts).children = ts.map verbatim := by
  obtain ⟨hr, hf⟩ := Builder.foldl_step_foreign ts h .empty rfl rfl
  have hl : (ts.foldl Builder.step .empty).leaveAll = ts.foldl Builder.step .empty := by
    rw [Builder.leaveAll, hf]
    rfl
  rw [ofTokens]
  dsimp only
  rw [hl, hr]
  simp [Builder.empty]

theorem Stmt.runAll_verbatim {now : Instant} {template : String} {load : String → Render String}
    (ts : List (Token × Span)) (ctx : Context) :
    runAll now template load (ts.map verbatim) ctx =
      (.ok (.ofList (ts.flatMap (·.1.source))), ctx) := by
  induction ts with
  | nil => rfl
  | cons t ts ih =>
    have ht : run now template load (verbatim t) ctx = (.ok (.ofList t.1.source), ctx) := by
      obtain ⟨token, span⟩ := t
      cases token <;> rfl
    rw [List.map_cons, runAll, Render.andThen_ok ht, ih, List.flatMap_cons, String.ofList_append]
    rfl

namespace Environment

/-- A source renders to itself, and changes nothing, if all its blocks are tags that mean nothing. -/
theorem render_of_foreign {source : String} (h : ∀ b ∈ Block.row source.toList, b.Foreign)
    (env : Environment) (now : Instant) (name : String) (ctx : Context) :
    env.render now name source ctx = (.ok source, ctx) := by
  obtain ⟨hs, hf⟩ := Token.flatMap_scanFrom h .start
  have hc : (Template.parse source).children =
      (Token.scanFrom .start false source.toList).map verbatim := Template.children_of_foreign hf
  rw [render, hc, Stmt.runAll_verbatim, hs, String.ofList_toList]

/-- marks that nothing closes, marks inside a tag, tags of a case and of a comment left open -/
theorem render_of_foreign_open :
    let source := "\x7d\x7d {% b {{ c }} %}{%%}{% when 1 %} {% endcase %}{% comment %}\x7b\x7b -x \x7b% y"
    (∀ b ∈ Block.row source.toList, b.Foreign) ∧
      ∀ (env : Environment) (now : Instant) (name : String) (ctx : Context),
        env.render now name source ctx = (.ok source, ctx) := by
  intro source
  have h : ∀ b ∈ Block.row source.toList, b.Foreign := by decide +kernel
  exact ⟨h, render_of_foreign h⟩

end Environment

end Stencil
