import Stencil.Proofs.RoundTrip

/-! Blocks beyond the nesting limit. They are passed over by counting, from the tag that opens a
block to the one that closes it: a template is as if they had never been there. -/

namespace Stencil

open Markup (Span Token)

/-- Is a block that the first tag opens closed by the second? A case has a closing tag of its own,
the other blocks share theirs. -/
def Tag.ClosedBy : Tag → Tag → Prop
  | ifOpen _, close | unlessOpen _, close | loopOpen _ _, close => True
  | caseOpen _, endCase => True
  | _, _ => False

theorem Tag.ClosedBy.opens {opener closer : Tag} (h : opener.ClosedBy closer) :
    opener.opens = true ∧ closer.opens = false ∧ closer.closes = true := by
  cases opener <;> cases closer <;> first | exact h.elim | exact ⟨rfl, rfl, rfl⟩

namespace Markup.Token

def tag? : Token → Option Tag
  | tag body _ => some (.read body)
  | _ => none

/-- tokens in which every block that is opened is closed by a tag of its own -/
inductive Nested : List Token → Prop
  | nil : Nested []
  | cons {t : Token} {ts : List Token}
      (other : ∀ tag ∈ t.tag?, tag.opens = false ∧ tag.closes = false) :
      Nested ts → Nested (t :: ts)
  | block {a ra b rb : List Char} {body ts : List Token}
      (closed : (Tag.read a).ClosedBy (Tag.read b)) :
      Nested body → Nested ts → Nested (.tag a ra :: body ++ .tag b rb :: ts)

/-- a block from its opening tag to the one that closes it -/
inductive IsBlock : List Token → Prop
  | mk {a ra b rb : List Char} {body : List Token} (closed : (Tag.read a).ClosedBy (Tag.read b)) :
      Nested body → IsBlock (.tag a ra :: body ++ [.tag b rb])

theorem IsBlock.nested {ts : List Token} (h : IsBlock ts) : Nested ts := by
  obtain ⟨closed, hb⟩ := h
  exact .block closed hb .nil

end Markup.Token

open Markup.Token (Nested IsBlock)

namespace Draft

variable {d : Draft}

theorem step_skipping (hs : d.skipping ≠ 0) (hl : d.last = .none) (t : Token) :
    d.step (t, .none) = d.skip t := by
  obtain ⟨root, frames, skipping, last⟩ := d
  subst hl
  simp only [step, bne_iff_ne, ne_eq, hs, not_false_eq_true, if_true]

theorem feed_nested {ts : List Token} (h : Nested ts) :
    ∀ d : Draft, d.skipping ≠ 0 → d.last = .none → d.feed ts = d := by
  induction h with
  | nil => intro d _ _; rfl
  | @cons t ts other _ ih =>
    intro d hs hl
    have ht : d.skip t = d := by
      cases t with
      | tag body raw =>
        obtain ⟨ho, hc⟩ := other _ rfl
        simp [skip, ho, hc]
      | _ => rfl
    rw [feed_cons, step_skipping hs hl, ht, ih d hs hl]
  | @block a ra b rb body ts closed _ _ ihb ihts =>
    intro d hs hl
    obtain ⟨ha, hb, hc⟩ := closed.opens
    let inner : Draft := { d with skipping := d.skipping + 1 }
    have hi : inner.skipping ≠ 0 := Nat.succ_ne_zero _
    have hopen : d.skip (.tag a ra) = inner := by simp [skip, ha, inner]
    have hclose : inner.skip (.tag b rb) = d := by simp [skip, hb, hc, inner]
    rw [List.cons_append, feed_cons, step_skipping hs hl, hopen, feed_append, ihb inner hi hl,
      feed_cons, step_skipping hi hl, hclose, ihts d hs hl]

theorem Frame.of_opens (f : Frame) {tag : Tag} (h : tag.opens = true) (span : Span) :
    f.turn? tag span = none ∧ f.endsAt tag = false := by
  obtain ⟨part, body⟩ := f
  cases part <;> cases tag <;> first | exact ⟨rfl, rfl⟩ | simp [Tag.opens] at h

theorem step_opener (h : d.Ready) (hd : d.frames.length = maxNesting) {a : List Char}
    (ha : (Tag.read a).opens = true) (ra : List Char) :
    d.step (.tag a ra, .none) = { d with skipping := 1 } := by
  rw [step_tag h rfl]
  generalize Tag.read a = tag at ha
  have ho : d.openTag tag .none = { d with skipping := 1 } := by simp [openTag, hd]
  have hp : d.plainTag tag a ra .none = { d with skipping := 1 } := by
    rw [← ho]
    cases tag <;> first | rfl | simp [Tag.opens] at ha
  rw [Draft.tag]
  split
  · exact hp
  · rename_i f fs _
    obtain ⟨ht, he⟩ := f.of_opens ha .none
    simp only [ht, he, Bool.false_eq_true, if_false, hp]

theorem feed_block {ts : List Token} (h : IsBlock ts) (hl : d.last = .none)
    (hd : d.frames.length = maxNesting) : d.feed ts = d := by
  by_cases hs : d.skipping = 0
  · obtain @⟨a, ra, b, rb, body, closed, hbody⟩ := h
    obtain ⟨ha, hb, hc⟩ := closed.opens
    let inner : Draft := { d with skipping := 1 }
    have hi : inner.skipping ≠ 0 := Nat.one_ne_zero
    have hclose : inner.skip (.tag b rb) = d := by
      have hd' : { d with skipping := 0 } = d := by rw [← hs]
      simpa [skip, hb, hc, inner] using hd'
    rw [List.cons_append, feed_cons, step_opener ⟨hs, hl⟩ hd ha, feed_append,
      feed_nested hbody inner hi hl, feed_cons, step_skipping hi hl, hclose]
    rfl
  · -- the block is nested in one that is passed over already
    exact feed_nested h.nested d hs hl

theorem bare_foldl_step_empty (ts : List (Token × Span)) :
    (ts.foldl step empty).bare = empty.feed (ts.map (·.1)) := by
  rw [bare_foldl_step, feed, List.foldl_map, List.foldl_map]
  rfl

end Draft

namespace Template

theorem bareAll_children_ofTokens (ts : List (Token × Span)) :
    Stmt.bareAll (ofTokens ts).children =
      Node.lowerAll 0 ((Draft.empty.feed (ts.map (·.1))).leaveAll.root.reverse) := by
  rw [bareAll_ofTokens, Draft.feed, List.foldl_map, List.foldl_map]

/-- A block that is opened at the nesting limit may as well not be there. -/
theorem bareAll_children_cut {front block back : List (Token × Span)}
    (hb : IsBlock (block.map (·.1)))
    (hd : (front.foldl Builder.step .empty).frames.length = maxNesting) :
    Stmt.bareAll (ofTokens (front ++ block ++ back)).children =
      Stmt.bareAll (ofTokens (front ++ back)).children := by
  have hl : (Draft.empty.feed (front.map (·.1))).frames.length = maxNesting := by
    have hb : ∀ d : Draft, d.bare.frames.length = d.lower.frames.length := by
      intro d
      exact (List.length_map _).trans (Draft.length_lowerFrames _ _).symm
    rw [← Draft.bare_foldl_step_empty, hb, Draft.lower_foldl_step]
    exact hd
  have hf : (Draft.empty.feed (front.map (·.1))).last = .none := by
    rw [← Draft.bare_foldl_step_empty]
    rfl
  rw [bareAll_children_ofTokens, bareAll_children_ofTokens, List.map_append, List.map_append,
    List.map_append, Draft.feed_append, Draft.feed_append, Draft.feed_append,
    Draft.feed_block hb hf hl]

/-- a case with an if in it, behind 150 tags that open a block each -/
theorem bareAll_children_cut_case :
    let tag (body : String) : Token × Span :=
      (.tag body.toList (Markup.Block.enclose .tag body.toList), .none)
    let front := List.replicate maxNesting (tag "for i in x")
    let block := [tag "case y", tag "if z", tag "else", tag "endfor", tag "elsif", tag "endcase"]
    let back := [tag "else", tag "endcase", tag "endif", tag "case z"]
    IsBlock (block.map (·.1)) ∧
      (front.foldl Builder.step .empty).frames.length = maxNesting ∧
      Stmt.bareAll (ofTokens (front ++ block ++ back)).children =
        Stmt.bareAll (ofTokens (front ++ back)).children := by
  intro tag front block back
  have hc : (Tag.read "case y".toList).ClosedBy (Tag.read "endcase".toList) := trivial
  have hi : (Tag.read "if z".toList).ClosedBy (Tag.read "endfor".toList) := trivial
  have hb : IsBlock (block.map (·.1)) :=
    .mk hc (.block hi (.cons (by decide) .nil) (.cons (by decide) .nil))
  have hd : (front.foldl Builder.step .empty).frames.length = maxNesting := by decide +kernel
  exact ⟨hb, hd, bareAll_children_cut hb hd⟩

end Template

end Stencil
