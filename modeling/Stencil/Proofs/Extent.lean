import Stencil.Proofs.Exact
import Stencil.Proofs.Moves

/-! Where statements reach. The span of a block goes from its first tag to the last token that was
read when it ended, however it ended; so what is read later lies behind it, and what was read since
it began lies inside it. -/

namespace Stencil

open Markup (Span Token)

/-- Statements stand one behind the other inside a span. -/
structure Holds (span : Span) (ss : List Stmt) : Prop where
  forward : span.first.offset ≤ span.last.offset
  within : ∀ s ∈ ss, span.first.offset ≤ s.span.first.offset ∧ s.span.last.offset ≤ span.last.offset
  ordered : ss.Pairwise fun s t => s.span.last.offset ≤ t.span.first.offset

namespace Stmt

/-- Statements lie in a row between two offsets, and so do those inside each of them between its
ends. -/
inductive Row : Nat → List Stmt → Nat → Prop
  | nil {lo hi : Nat} : lo ≤ hi → Row lo [] hi
  | cons {lo hi : Nat} {s : Stmt} {ss : List Stmt} (behind : lo ≤ s.span.first.offset)
      (inside : Row s.span.first.offset s.inner s.span.last.offset) :
      Row s.span.last.offset ss hi → Row lo (s :: ss) hi

namespace Row

variable {lo lo' mid hi hi' : Nat} {as bs ss : List Stmt} {s : Stmt} {span : Span}

theorem le (h : Row lo ss hi) : lo ≤ hi := by
  induction h with
  | nil hl => exact hl
  | cons hb _ _ ih1 ih2 => omega

theorem mono_left (h : Row lo ss hi) (hl : lo' ≤ lo) : Row lo' ss hi := by
  cases h with
  | nil h => exact .nil (Nat.le_trans hl h)
  | cons hb hi hs => exact .cons (Nat.le_trans hl hb) hi hs

theorem append (h : Row lo as mid) (h' : Row mid bs hi) : Row lo (as ++ bs) hi := by
  induction h with
  | nil hl => exact h'.mono_left hl
  | cons hb hi _ _ ih => exact .cons hb hi (ih h')

theorem mono_right (h : Row lo ss hi) (hh : hi ≤ hi') : Row lo ss hi' := by
  have := h.append (.nil hh)
  rwa [List.append_nil] at this

theorem one (h : Row s.span.first.offset s.inner s.span.last.offset) :
    Row s.span.first.offset [s] s.span.last.offset :=
  .cons (Nat.le_refl _) h (.nil (Nat.le_refl _))

theorem leaf (hs : s.isLeaf = true) (he : s.span = span)
    (h : span.first.offset ≤ span.last.offset) : Row span.first.offset [s] span.last.offset := by
  subst he
  refine one ?_
  rw [inner_of_isLeaf hs]
  exact .nil h

theorem within (h : Row lo ss hi) :
    ∀ s ∈ ss, lo ≤ s.span.first.offset ∧ s.span.last.offset ≤ hi := by
  induction h with
  | nil => simp
  | @cons lo hi s ss hb hi hs _ ih =>
    refine List.forall_mem_cons.2 ⟨⟨hb, hs.le⟩, fun t ht => ?_⟩
    have := hi.le
    have := ih t ht
    omega

theorem ordered (h : Row lo ss hi) :
    ss.Pairwise fun s t => s.span.last.offset ≤ t.span.first.offset := by
  induction h with
  | nil => exact .nil
  | cons _ _ hs _ ih => exact .cons (fun t ht => (hs.within t ht).1) ih

theorem holds (h : Row span.first.offset ss span.last.offset) : Holds span ss :=
  ⟨h.le, h.within, h.ordered⟩

theorem holds_parts (h : Row lo ss hi) : ∀ s ∈ partsAll ss, Holds s.span s.inner := by
  induction h with
  | nil => simp [partsAll]
  | @cons lo hi s ss _ hi _ ih1 ih2 =>
    rw [partsAll, parts_eq]
    intro t ht
    rcases List.mem_append.1 ht with ht | ht
    · rcases List.mem_cons.1 ht with rfl | ht
      · exact hi.holds
      · exact ih1 t ht
    · exact ih2 t ht

end Row

end Stmt

open Stmt (Row)

namespace Frame

variable {f : Frame} {lo hi hi' : Nat} {span : Span} {part : Part}

/-- What stands in an open block lies in a row between two offsets. If the block makes a statement of
its own, what goes ahead lies before the start of it, and what goes inside lies behind the start. -/
inductive Lies (lo : Nat) (f : Frame) (hi : Nat) : Prop
  | ahead (unbegun : f.part.start? = none) (row : Row lo f.statements hi)
  | begun {start : Span} (begun : f.part.start? = some start)
      (before : Row lo f.part.before start.first.offset)
      (inside : Row start.first.offset (f.part.done ++ f.body.reverse) hi)

theorem Lies.push {ss : List Stmt} (h : f.Lies lo hi) (hs : Row hi ss hi') :
    Lies lo { f with body := ss.reverse ++ f.body } hi' := by
  cases h with
  | ahead hn hr =>
    refine .ahead hn ?_
    rw [statements_push]
    exact hr.append hs
  | begun hb h1 h2 =>
    refine .begun hb h1 ?_
    have := h2.append hs
    simpa using this

theorem Lies.row_finish (h : f.Lies lo hi) (hl : hi ≤ span.last.offset) :
    Row lo (f.finish span) span.last.offset := by
  cases h with
  | ahead hn hr =>
    rw [f.finish_of_none hn]
    exact hr.mono_right hl
  | begun hb h1 h2 =>
    obtain ⟨s, he, -, hs, hi⟩ := f.finish_of_some hb span
    have hr : Row s.span.first.offset s.inner s.span.last.offset := by
      rw [hs, hi]
      exact h2.mono_right hl
    have ho := hr.one
    rw [hs] at ho
    rw [he]
    exact h1.append ho

theorem lies_of_opens {body : List Stmt} (h : part.Opens span body)
    (hs : span.first.offset ≤ span.last.offset) :
    Lies span.first.offset ⟨part, body⟩ span.last.offset := by
  rcases h.start with ⟨hb, rfl⟩ | ⟨hn, s, rfl, hl, he⟩
  · refine .begun hb ?_ ?_
    · rw [h.before]
      exact .nil (Nat.le_refl _)
    · rw [h.done]
      exact .nil hs
  · refine .ahead hn ?_
    rw [statements, h.before, h.done]
    exact .leaf hl he hs

theorem Lies.turn (h : f.Lies lo hi) (ht : f.Turns span part) (hf : hi ≤ span.first.offset)
    (hs : span.first.offset ≤ span.last.offset) : Lies lo ⟨part, []⟩ span.last.offset := by
  have hl := Nat.le_trans hf hs
  cases ht with
  | next hb hb' hp hd =>
    cases h with
    | ahead hn _ => cases hn.symm.trans hb
    | begun hb'' h1 h2 =>
      cases hb.symm.trans hb''
      refine .begun hb' (by rwa [hp]) ?_
      have := h2.mono_right hl
      simpa [hd] using this
  | ahead hn hh hp hd =>
    cases h with
    | begun hb _ _ => cases hn.symm.trans hb
    | ahead _ hr =>
      cases hst : part.start? with
      | none =>
        refine .ahead hst ?_
        have := hr.mono_right hl
        simpa [statements, hp, hd] using this
      | some start =>
        -- the statement starts with the tag, behind all that stands ahead
        cases hh start hst
        refine .begun hst ?_ ?_
        · rw [hp]
          exact hr.mono_right hf
        · rw [hd]
          exact .nil hs

end Frame

namespace Builder

/-- The statements of a tree in the making lie in a row between two offsets, and so do those of each
open block behind what stands around it. -/
def Laid (lo : Nat) (root : List Stmt) : List Frame → Nat → Prop
  | [], hi => Row lo root.reverse hi
  | f :: fs, hi => ∃ mid, Laid lo root fs mid ∧ f.Lies mid hi

variable {b : Builder} {lo hi hi' : Nat} {span : Span} {m : List Stmt × List Frame}

theorem Laid.mono {root : List Stmt} {frames : List Frame} (h : Laid lo root frames hi)
    (hh : hi ≤ hi') : Laid lo root frames hi' := by
  cases frames with
  | nil => exact Row.mono_right h hh
  | cons f fs =>
    obtain ⟨mid, hm, hf⟩ := h
    exact ⟨mid, hm, by simpa using hf.push (.nil hh)⟩

theorem laid_push {ss : List Stmt} (h : Laid lo b.root b.frames hi) (hs : Row hi ss hi') :
    Laid lo (b.push ss).root (b.push ss).frames hi' := by
  obtain ⟨root, frames, skipping, cases, last⟩ := b
  cases frames with
  | nil =>
    have h : Row lo root.reverse hi := h
    have := h.append hs
    simpa [push, Laid] using this
  | cons f fs =>
    obtain ⟨mid, hm, hf⟩ := h
    exact ⟨mid, hm, hf.push hs⟩

theorem laid_leave {f : Frame} {fs : List Frame} (h : Laid lo b.root (f :: fs) hi)
    (hl : hi ≤ span.last.offset) :
    Laid lo ({ b with frames := fs }.push (f.finish span)).root
      ({ b with frames := fs }.push (f.finish span)).frames span.last.offset := by
  obtain ⟨mid, hm, hf⟩ := h
  exact laid_push (b := { b with frames := fs }) hm (hf.row_finish hl)

/-- A step at a token that lies behind the tree so far keeps it in a row, which now reaches up to the
end of the token. -/
theorem laid_moves (h : b.Moves span m) (hb : Laid lo b.root b.frames hi)
    (hf : hi ≤ span.first.offset) (hs : span.first.offset ≤ span.last.offset) :
    Laid lo m.1 m.2 span.last.offset := by
  have hl := Nat.le_trans hf hs
  cases h with
  | stay => exact hb.mono hl
  | leaf h he => exact laid_push (hb.mono hf) (.leaf h he hs)
  | enter _ ho => exact ⟨_, hb.mono hf, Frame.lies_of_opens ho hs⟩
  | turn hfs ht =>
    rw [hfs] at hb
    obtain ⟨mid, hm, h⟩ := hb
    exact ⟨mid, hm, h.turn ht hf hs⟩
  | leave hfs =>
    rw [hfs] at hb
    exact laid_leave hb hl

theorem laid_foldl_step {ts : List (Token × Span)} (h : Laid lo b.root b.frames hi)
    (hn : ∀ t ∈ ts, t.2.first.offset < t.2.last.offset)
    (ho : ts.Pairwise fun t u => t.2.last.offset ≤ u.2.first.offset)
    (hf : ∀ t ∈ ts, hi ≤ t.2.first.offset) :
    Laid lo (ts.foldl step b).root (ts.foldl step b).frames (Token.endOffset hi ts) := by
  induction ts generalizing b hi with
  | nil => exact h
  | cons t ts ih =>
    rw [List.forall_mem_cons] at hn hf
    rw [List.pairwise_cons] at ho
    have ht := laid_moves (moves_step b t) h hf.1 (Nat.le_of_lt hn.1)
    rw [Token.endOffset_cons]
    exact ih ht hn.2 ho.2 ho.1

/-! The span that is remembered is that of the last token. -/

@[simp] theorem last_push (b : Builder) (ss : List Stmt) : (b.push ss).last = b.last := by
  obtain ⟨root, frames, skipping, cases, last⟩ := b
  cases frames <;> rfl

@[simp] theorem last_leave (b : Builder) : b.leave.last = b.last := by
  unfold leave
  cases b.frames with
  | nil => rfl
  | cons f fs => exact last_push _ _

theorem last_plainTag (b : Builder) (tag : Tag) (raw : List Char) (span : Span) :
    (b.plainTag tag raw span).last = b.last := by
  have ho : (b.openTag tag span).last = b.last := by
    unfold openTag
    split
    · rfl
    · cases tag <;> rfl
  cases tag with
  | raw | when | endCase | inclusion | assign => exact last_push _ _
  | elsif | otherwise | close | malformed => rfl
  | ifOpen | unlessOpen | loopOpen | caseOpen => exact ho

theorem last_tag (b : Builder) (tag : Tag) (raw : List Char) (span : Span) :
    (b.tag tag raw span).last = b.last := by
  unfold Builder.tag
  split
  · exact last_plainTag _ _ _ _
  · split
    · rfl
    · split
      · exact last_leave b
      · exact last_plainTag _ _ _ _

theorem last_step (b : Builder) (t : Token × Span) : (b.step t).last = t.2 := by
  obtain ⟨token, span⟩ := t
  simp only [step]
  split
  · cases token with
    | tag body raw =>
      unfold skip
      repeat' split
      all_goals rfl
    | _ => rfl
  · cases token with
    | text s => exact last_push _ _
    | output body => exact last_push _ _
    | tag body raw => exact last_tag _ _ _ _

theorem last_foldl_step (ts : List (Token × Span)) (b : Builder) :
    (ts.foldl step b).last = (ts.getLast?.map (·.2)).getD b.last := by
  induction ts using List.reverseRecOn with
  | nil => rfl
  | append_singleton ts t _ => simp [List.foldl_append, last_step]

theorem laid_leaveAll (h : Laid lo b.root b.frames b.last.last.offset) :
    Laid lo b.leaveAll.root b.leaveAll.frames b.leaveAll.last.last.offset := by
  refine leaveAll_induction (P := fun c => Laid lo c.root c.frames c.last.last.offset)
    (fun c hc => ?_) h
  rw [last_leave]
  cases hf : c.frames with
  | nil =>
    have hl : c.leave = c := by
      unfold leave
      rw [hf]
    rwa [hl]
  | cons f fs =>
    rw [hf] at hc
    unfold leave
    rw [hf]
    exact laid_leave hc (Nat.le_refl _)

end Builder

namespace Template

open Builder (Laid)

theorem row_ofTokens {ts : List (Token × Span)}
    (hn : ∀ t ∈ ts, t.2.first.offset < t.2.last.offset)
    (ho : ts.Pairwise fun t u => t.2.last.offset ≤ u.2.first.offset) :
    Row (ofTokens ts).span.first.offset (ofTokens ts).children
      (ofTokens ts).span.last.offset := by
  cases ts with
  | nil => exact .nil (Nat.le_refl 0)
  | cons t ts =>
    have hf : ∀ u ∈ t :: ts, t.2.first.offset ≤ u.2.first.offset := by
      refine List.forall_mem_cons.2 ⟨Nat.le_refl _, fun u hu => ?_⟩
      have h1 := hn t List.mem_cons_self
      have h2 := (List.pairwise_cons.1 ho).1 u hu
      omega
    have h0 : Laid t.2.first.offset Builder.empty.root Builder.empty.frames t.2.first.offset :=
      Row.nil (Nat.le_refl _)
    have h1 := Builder.laid_foldl_step h0 hn ho hf
    have hl : ((t :: ts).foldl Builder.step .empty).last.last.offset =
        Token.endOffset t.2.first.offset (t :: ts) := by
      rw [Builder.last_foldl_step, Token.endOffset, List.getLast?_cons]
      rfl
    rw [← hl] at h1
    have h2 := Builder.laid_leaveAll h1
    rw [Builder.frames_leaveAll] at h2
    exact h2

/-- Spans nest. In the tree of any source, well-formed or not, the span of the template holds its
children, and the span of a statement at any depth holds what is right inside it: the statements of
its branches one after the other, or of its body, and then those of its else. -/
theorem holds_parse (source : String) :
    Holds (parse source).span (parse source).children ∧
      ∀ s ∈ Stmt.partsAll (parse source).children, Holds s.span s.inner := by
  have h : Token.Covers [] source.toList (Token.scan source.toList) :=
    Token.covers_scanFrom .start rfl
  have hr : Row (parse source).span.first.offset (parse source).children
      (parse source).span.last.offset := row_ofTokens h.first_lt_last h.pairwise
  exact ⟨hr.holds, hr.holds_parts⟩

/-- the choice of a case that is left open, with a loop that is left open in its else -/
theorem holds_parse_open :
    let source := "{% case x %} {% when 1 %}a{% else %}{% for i in y %}b"
    let span : Span := ⟨⟨1, 13, 13⟩, ⟨1, 53, 53⟩⟩
    ∃ s ∈ Stmt.partsAll (parse source).children, s.span = span ∧ s.inner.length = 2 ∧
      Holds s.span s.inner := by
  intro source span
  have h : ((Stmt.partsAll (parse source).children).any fun s =>
      s.span == span && s.inner.length == 2) = true := by
    decide +kernel
  simp only [List.any_eq_true, Bool.and_eq_true, beq_iff_eq] at h
  obtain ⟨s, hs, he, hl⟩ := h
  exact ⟨s, hs, he, hl, (holds_parse source).2 s hs⟩

end Template

end Stencil
